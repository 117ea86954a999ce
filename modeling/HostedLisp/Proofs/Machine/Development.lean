import HostedLisp.Interpreter
import HostedLisp.Proofs.Heap.Shape
import HostedLisp.Proofs.Plan.Advance

/-!
# The heap while programs run

The evaluator notes in a frame what it evaluates there, and changes nothing else in the heap but
what programs change. An order of heaps that both follow is one that the heap develops along in
every run: `Machine.serve_develops`. So everything keeps its shape, whatever the primitives of the
interpreter are and whatever the user writes during pauses: `Interpreter.run_keeps_shape`.
-/

namespace HostedLisp

variable {α β : Type}

/-- An order of heaps in which all that a run can do to a heap leads to a later one. -/
class Heap.Temporal (D : Heap → Heap → Prop) : Prop extends IsPreorder Heap D where
  change (h : Heap) (c : Change) : D h (h.apply c).2
  setCode (h : Heap) (id : FrameId) (code : Value) : D h (h.setCode id code)

variable {D : Heap → Heap → Prop} [Heap.Temporal D]

/-- The heap of the second state comes after that of the first. -/
def State.Later (D : Heap → Heap → Prop) (s t : State) : Prop := D s.heap t.heap

instance : IsPreorder State (State.Later D) where
  refl s := refl_of D s.heap
  trans _ _ _ h h' := trans_of D h h'

/-- The heap develops while a run goes on. -/
abbrev Run.Develops (D : Heap → Heap → Prop) (x : Run α) : Prop := x.Advances (State.Later D)

namespace Run.Develops

/-- What is done beside the heap is no step in any order of heaps. -/
lemma aside {f : State → State} (hf : ∀ s, (f s).heap = s.heap) : (Run.modify f).Develops D := by
  refine Advances.modify fun s => ?_
  rw [State.Later, hf]
  exact refl_of D s.heap

lemma changeDebugger (f : Debugger.Controller → Debugger.Controller) :
    (Run.changeDebugger f).Develops D :=
  aside fun _ => rfl

lemma display (event : Debugger.Event) : (Run.display event).Develops D := aside fun _ => rfl

lemma displayLine (text : String) : (Run.displayLine text).Develops D := display _

lemma record (event : Debugger.Event) : (Run.record event).Develops D := aside fun _ => rfl

lemma readLine : Run.readLine.Develops D := fun s => refl_of D s.heap

lemma change (c : Change) : (Program.perform c).run.Develops D :=
  fun s => Heap.Temporal.change s.heap c

lemma setCode (id : FrameId) (code : Value) : (Run.changeHeap (·.setCode id code)).Develops D :=
  Advances.modify fun s => Heap.Temporal.setCode s.heap id code

end Run.Develops

lemma develops_compositional : Run.Compositional (Run.Develops D) where
  pure := .pure
  raise := .raise
  fault := .halt .fault
  bind := .bind
  view := .view
  change := .change
  displayLine := .displayLine
  request := .request

namespace Machine

open Run Debugger

variable {leader : Char} {frame : FrameId}

/-! ### The debugger -/

/-- Whatever a line asks for, it is done in steps that the heap develops along. -/
lemma develops_obedient : Run.Obedient (Run.Develops D) where
  pure := .pure
  bind := .bind
  view := .view
  output _ := .display _
  quit := .record _
  set which on := .changeDebugger (·.set which on)
  clearSteps := .changeDebugger _
  singleStep := .changeDebugger _
  stepOutOf _ := .changeDebugger _
  evalLine source _ := Run.evalLine_of (P := Run.Develops D) .pure .bind .view (fun _ => .change _)
    (fun _ => .changeDebugger _) (fun _ => .attempt (.request _)) source

lemma converse_develops : (converse leader frame).Develops D := by
  refine Advances.bind (Advances.view _) fun paused => ?_
  split
  · exact Develops.displayLine _
  · refine Advances.bind (Develops.changeDebugger _) fun _ => ?_
    refine Advances.bind (Advances.view _) fun header => ?_
    refine Advances.bind (Develops.display _) fun _ => ?_
    refine Advances.bind (Advances.view _) fun waiting => ?_
    refine Advances.bind ?_ fun _ => Develops.changeDebugger _
    exact develops_obedient.converseFor (fun _ => .changeDebugger _) .readLine _

lemma takeSubstitute_develops : takeSubstitute.Develops D := by
  refine Advances.bind (Advances.view _) fun value => ?_
  exact Advances.bind (Develops.changeDebugger _) fun _ => Advances.pure value

lemma develops_attentive : Run.Attentive leader (Run.Develops D) where
  pure := .pure
  raise := .raise
  bind := .bind
  view := .view
  display := .display
  clearSteps := .changeDebugger _
  unwind := .changeDebugger _
  takeSubstitute := takeSubstitute_develops
  converse _ := converse_develops

/-! ### The evaluator -/

variable {m : Machine}

lemma develops_thorough : Run.Thorough m (Run.Develops D) where
  toCompositional := develops_compositional
  attempt := .attempt
  setCode := .setCode
  output _ := .display _
  set which on := .changeDebugger (·.set which on)
  offer := develops_attentive.offer
  hold := develops_attentive.hold
  converse _ := converse_develops
  takeSubstitute := takeSubstitute_develops

lemma begin_later (s : State) : State.Later D s (begin s) := by
  unfold begin
  split
  · exact refl_of D s.heap
  · exact refl_of D s.heap

lemma evaluate_develops (expr : Value) (frame : FrameId) : (m.evaluate expr frame).Develops D := by
  intro s
  have hbegin : State.Later D s (begin s) := begin_later s
  unfold evaluate
  dsimp only
  split
  · exact hbegin
  · refine Plan.Advances.atEnd ?_ fun t => refl_of D t.heap
    have hinner : (m.evalWithin expr frame).Develops D := develops_thorough.evalWithin expr frame
    exact (hinner { begin s with depth := (begin s).depth + 1 }).of_later hbegin

/-- However a request is served, the heap develops. -/
theorem serve_develops (r : Request) : (m.serve r).Develops D := by
  cases r with
  | eval expr frame => exact evaluate_develops expr frame
  | _ => exact develops_thorough.serve nofun

end Machine

namespace Interpreter

/-- The states that a program goes through, from the first request to the end. -/
def trail (i : Interpreter) (fuel : Nat) (p : Program α) : List State :=
  (p.run i.state).trail (i.machine.perform fuel) (i.machine.trail fuel)

instance : Heap.Temporal Heap.Develops where
  refl := Heap.Develops.refl
  trans _ _ _ := Heap.Develops.trans
  change := Heap.develops_apply
  setCode := Heap.develops_setCode

/-- Of the states that a program goes through, each keeps the shape of what was there in the ones
before it; the last of them is the state that the program leaves behind. So a closure is named at
most once. -/
theorem run_keeps_shape (i : Interpreter) (fuel : Nat) (p : Program α) :
    (i.state :: i.trail fuel p).Pairwise (fun s t => s.heap.Develops t.heap) ∧
      (i.trail fuel p).getLast? = some (i.run fuel p).2.state := by
  have hserve (r : Request) : (i.machine.serve r).Develops Heap.Develops := Machine.serve_develops r
  have hplan : p.run.Develops Heap.Develops := develops_compositional.program p
  have hbetween := (hplan i.state).between (Machine.trail_between hserve fuel)
  refine ⟨List.pairwise_cons.2 ⟨hbetween.after, hbetween.ordered⟩, ?_⟩
  exact Plan.getLast_trail _ _ _

end Interpreter

end HostedLisp
