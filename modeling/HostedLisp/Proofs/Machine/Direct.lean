import HostedLisp.Proofs.Heap.Levels
import HostedLisp.Proofs.Heap.Pursuit
import HostedLisp.Proofs.Library.DirectForms
import HostedLisp.Proofs.Machine.Termination

/-!
# Machines in direct steps

A machine whose primitives take their steps directly, and which counts the evaluations under way
without asking whether there is one to take off, halts with a fault as soon as something is out of
range. The machine of the standard primitives never does: whatever program it runs, the direct
machine runs in the same way. What it relies on is that a primitive is called only with as many
arguments as it takes, whether the arguments were evaluated or not. All of it reads lists and writes
values in the same two ways, which count the pairs and the levels on their way; no heap puts these
counts out of range. Main statement: `Interpreter.steps_in_range`.
-/

namespace HostedLisp

variable {α β : Type}

namespace Direct

open Machine Run

/-! ### Definitions -/

/-- Counts one more evaluation under way. As many as the limit allows can be counted. -/
def enter (limit : Nat) : Run Unit := fun s =>
  if s.depth + 1 ≤ limit then .stop (.ok ()) { s with depth := s.depth + 1 } else halt .fault s

/-- Takes one off the evaluations under way. -/
def leave : Run Unit := fun s =>
  if 1 ≤ s.depth then .stop (.ok ()) { s with depth := s.depth - 1 } else halt .fault s

/-- Leaves the level of an evaluation and passes on what the evaluation came to. -/
def settle (result : Except Error Value) : Run Value := do
  leave
  match result with
  | .ok value => pure value
  | .error e => raise e

/-- The value of an expression, one level below the evaluations under way. -/
def evaluate (m : Machine) (expr : Value) (frame : FrameId) : Run Value := fun s =>
  let s := begin s
  if m.config.maxDepth ≤ s.depth then raise (tooDeep m.config.maxDepth) s
  else (enter m.config.maxDepth s).bind fun _ => attempt (m.evalWithin expr frame) >>= settle

/-- The machine whose primitives take their steps directly. -/
def machine (m : Machine) (natives : List Native) : Machine :=
  { m with bodies := (natives.map body).toArray }

/-- The run that answers a request. -/
def serve (m : Machine) (natives : List Native) : Request → Run Value
  | .eval expr frame => evaluate (machine m natives) expr frame
  | r => (machine m natives).serve r

/-- Answers a request if the fuel lasts for all requests that come up inside each other. -/
def perform (m : Machine) (natives : List Native) : Nat → Answer
  | 0 => fun _ s => (.error .exhausted, s)
  | fuel + 1 => fun r s => (serve m natives r s).execute (perform m natives fuel)

end Direct

/-! ### Runs side by side -/

/-- The answers that orderly requests get are orderly too. -/
def Orderly (G : Primitive → Prop) (answer : Answer) : Prop :=
  ∀ r s, (order G).may r s → (answer r s).Meets False ((order G).gives r s)

/-- From a state over `G` two runs come to the same, given these answers. -/
def Run.Agrees (G : Primitive → Prop) (answer : Answer) (x y : Run α) : Prop :=
  ∀ s : State, s.Over G → (x s).execute answer = (y s).execute answer

namespace Run.Agrees

variable {G : Primitive → Prop} {answer : Answer} {x y : Run α} {f g : α → Run β}

lemma refl (x : Run α) : x.Agrees G answer x := fun _ _ => rfl

lemma of_eq (h : x = y) : x.Agrees G answer y := h ▸ refl x

/-- First parts that come to the same can be exchanged. -/
lemma bind_left (h : x.Agrees G answer y) : (x >>= f).Agrees G answer (y >>= f) := by
  intro s hs
  rw [Run.bind_apply, Run.bind_apply, Plan.execute_bind_eq, Plan.execute_bind_eq, h s hs]

/-- What follows has to agree only on what the first part can come to. -/
lemma bind_right {post : α → Prop} (hanswer : Orderly G answer)
    (hx : ∀ d, x.Keeps G d (fun _ => True) post) (h : ∀ a, post a → (f a).Agrees G answer (g a)) :
    (x >>= f).Agrees G answer (x >>= g) := by
  intro s hs
  rw [Run.bind_apply, Run.bind_apply, Plan.execute_bind_eq, Plan.execute_bind_eq]
  have hmeets := (hx s.depth s hs rfl).execute fun r s hr => hanswer r s hr.1
  generalize (x s).execute answer = outcome at hmeets ⊢
  match outcome, hmeets with
  | (.ok a, t), hmeets => exact h a (hmeets.2.2 a rfl) t hmeets.1
  | (.error e, t), _ => rfl

lemma attempt (h : x.Agrees G answer y) : (Run.attempt x).Agrees G answer (Run.attempt y) := by
  intro s hs
  rw [Run.attempt, Run.attempt, Plan.execute_attempt_eq, h s hs, ← Plan.execute_attempt_eq]

end Run.Agrees

/-! ### The evaluator -/

namespace Direct

open Machine Run

section Evaluator

variable {m : Machine} {natives : List Native} {frame : FrameId} {answer : Answer}
  (hm : m.Provides natives) (hbody : ∀ n ∈ natives, Follows (body n) n)

include hm hbody

/-- A primitive that is provided is called with as many arguments as its body relies on. -/
lemma invoke_eq {p : Primitive} (hp : Provided natives p) (args : List Value) :
    (machine m natives).invoke p args frame = m.invoke p args frame := by
  obtain ⟨n, hn, hpn⟩ := hp
  have hold : m.bodies[p.id]? = some n.body := by
    rw [← Array.getElem?_toList, hm.bodies, List.getElem?_map, hn]
    rfl
  have hnew : (machine m natives).bodies[p.id]? = some (body n) := by
    change (natives.map body).toArray[p.id]? = some (body n)
    rw [List.getElem?_toArray, List.getElem?_map, hn]
    rfl
  have harity : p.arity = n.arity := congrArg Primitive.arity hpn
  unfold invoke
  split
  · next haccepts =>
    rw [hold, hnew]
    rw [harity] at haccepts
    exact hbody n (List.mem_of_getElem? hn) args frame haccepts
  · rfl

lemma applyTo_eq {func : Value} (hf : func.Over (Provided natives)) (args : List Value) :
    (machine m natives).applyTo func args frame = m.applyTo func args frame := by
  cases func with
  | primitive p =>
    unfold applyTo
    dsimp only
    rw [invoke_eq hm hbody (Value.over_primitive.1 hf)]
  | _ => rfl

lemma call_eq {func : Value} (hf : func.Over (Provided natives)) (operands : List Value) :
    (machine m natives).call func operands frame = m.call func operands frame := by
  unfold call
  simp only [applyTo_eq hm hbody hf]
  cases func with
  | primitive p =>
    dsimp only
    rw [invoke_eq hm hbody (Value.over_primitive.1 hf)]
  | _ => rfl

variable (hanswer : Orderly (Provided natives) answer)

include hanswer

/-- The function of a call is what an evaluation came to, so it is provided. -/
lemma evalPair_agrees (id : CellId) :
    ((machine m natives).evalPair id frame).Agrees (Provided natives) answer
      (m.evalPair id frame) := by
  refine Agrees.bind_right hanswer (fun d => Keeps.view fun s hs => hs.heap.head id) fun head hh => ?_
  have heval (d : Nat) : (Run.request (.eval head frame)).Keeps (Provided natives) d
      (fun _ => True) (Value.Over (Provided natives)) :=
    Keeps.request trivial hh fun _ h => h
  refine Agrees.bind_right hanswer heval fun func hf => Agrees.of_eq ?_
  simp only [call_eq hm hbody hf]

lemma evalList_agrees (id : CellId) :
    ((machine m natives).evalList id frame).Agrees (Provided natives) answer
      (m.evalList id frame) := by
  have hcode (d : Nat) : (Run.changeHeap (·.setCode frame (.pair id))).Keeps (Provided natives) d
      (fun _ => True) fun _ => True :=
    Keeps.changeHeap (fun _ hh => hh.setCode frame _) trivial
  refine Agrees.bind_right hanswer hcode fun _ _ => ?_
  have htrace (d : Nat) : (traceValue "" (.pair id)).Keeps (Provided natives) d (fun _ => True)
      fun _ => True :=
    traceValue_keeps trivial
  refine Agrees.bind_right hanswer htrace fun _ _ => ?_
  exact (evalPair_agrees hm hbody hanswer id).attempt.bind_left

lemma evalWithin_agrees (expr : Value) :
    ((machine m natives).evalWithin expr frame).Agrees (Provided natives) answer
      (m.evalWithin expr frame) := by
  have hhold (d : Nat) : (hold m.config.leader expr frame).Keeps (Provided natives) d
      (fun _ => True) fun _ => True :=
    hold_keeps (fun _ _ => trivial) fun _ _ => trivial
  refine Agrees.bind_right hanswer hhold fun held _ => ?_
  cases held with
  | some value => exact Agrees.refl _
  | none =>
    cases expr with
    | pair id => exact evalList_agrees hm hbody hanswer id
    | _ => exact Agrees.refl _

omit hm hbody hanswer in
lemma settle_apply {s : State} (h : 1 ≤ s.depth) (result : Except Error Value) :
    settle result s = .stop (result.mapError .error) { s with depth := s.depth - 1 } := by
  have hleave : leave s = .stop (.ok ()) { s with depth := s.depth - 1 } := if_pos h
  change (leave s).bind _ = _
  rw [hleave]
  cases result <;> rfl

/-- An evaluation leaves as many under way as it began with, so there is one to take off. -/
lemma evaluate_agrees {expr : Value} (he : expr.Over (Provided natives)) :
    (evaluate (machine m natives) expr frame).Agrees (Provided natives) answer
      (m.evaluate expr frame) := by
  intro s hs
  have hbegin : (begin s).Over (Provided natives) := by
    unfold begin
    split
    · exact ⟨hs.heap, hs.substitute⟩
    · exact hs
  have hconfig : (machine m natives).config = m.config := rfl
  unfold evaluate Machine.evaluate
  dsimp only
  rw [hconfig]
  split
  · rfl
  · next hlimit =>
    have hinner : State.Over (Provided natives) { begin s with depth := (begin s).depth + 1 } :=
      ⟨hbegin.heap, hbegin.substitute⟩
    have hkeeps : (m.evalWithin expr frame).Keeps (Provided natives) ((begin s).depth + 1)
        (fun _ => True) (Value.Over (Provided natives)) := evalWithin_keeps hm he
    have hwithin : ((machine m natives).evalWithin expr frame).Agrees (Provided natives) answer
        (m.evalWithin expr frame) := evalWithin_agrees hm hbody hanswer expr
    rw [enter, if_pos (by omega), Plan.bind_stop_ok, hwithin.attempt.bind_left _ hinner]
    refine Plan.execute_attempt_bind (hkeeps _ hinner rfl) id (fun r s hr => hanswer r s hr.1) ?_
    intro result t ht
    have hdepth : t.depth = (begin s).depth + 1 := ht.2.1
    exact settle_apply (by omega) result

/-- However a request is served, both machines come to the same. -/
theorem serve_agrees {r : Request} (hr : r.Over (Provided natives)) :
    (serve m natives r).Agrees (Provided natives) answer (m.serve r) := by
  cases r with
  | eval expr frame => exact evaluate_agrees hm hbody hanswer hr
  | apply func args frame => exact Agrees.of_eq (applyTo_eq hm hbody hr.1 args)
  | call func operands frame => exact Agrees.of_eq (call_eq hm hbody hr.1 operands)
  | pause | setting | print | isPaused | depth => exact Agrees.refl _

omit hanswer in
/-- Both machines answer all orderly requests alike. -/
theorem perform_eq (fuel : Nat) {r : Request} {s : State}
    (h : (order (Provided natives)).may r s) :
    perform m natives fuel r s = m.perform fuel r s := by
  induction fuel generalizing r s with
  | zero => rfl
  | succ fuel ih =>
    have hperform := perform_meets (serve_order hm) fuel
    have hanswer : Orderly (Provided natives) (perform m natives fuel) := by
      intro q u hq
      rw [ih hq]
      exact hperform q u hq
    change (serve m natives r s).execute _ = (m.serve r s).execute _
    rw [serve_agrees hm hbody hanswer h.1 s h.2]
    refine Plan.execute_congr_of_asks fun q u hq => ih ?_
    exact (serve_order hm r s h).may_of_asks hperform hq

end Evaluator

/-! ### The standard primitives -/

/-- Each of the standard primitives does step by step what it does. -/
theorem body_follows : ∀ n ∈ standardNatives, Follows (body n) n := by
  simp only [standardNatives, List.forall_mem_append]
  exact ⟨⟨⟨⟨⟨form_body_follows, debugging_body_follows⟩, arithmetic_body_follows⟩,
    lists_body_follows⟩, vectors_body_follows⟩, fields_body_follows⟩

end Direct

namespace Interpreter

/-- Carries out a program of the host on the machine whose primitives take their steps directly. -/
def runDirect (i : Interpreter) (fuel : Nat) (p : Program α) : Except Halt α × Interpreter :=
  match (p.run i.state).execute (Direct.perform i.machine standardNatives fuel) with
  | (result, state) => (result, { i with state := state })

/-- Nothing that a program does with the standard primitives puts a step of theirs out of range: no
position in a list or a vector, no slice, no facet of a value, no sum, difference or remainder, and
not the count of the evaluations under way. The program may evaluate, and call functions with
values and with operands; what the direct machine does with it is what the machine does. Nor does
any heap that it may come to put the counts out of range with which a list is read and a value is
written. -/
theorem steps_in_range {i : Interpreter} (hi : i.Has standardNatives) {may : Request → Prop}
    {post : α → Prop} {p : Program α} (hp : p.Safe (Provided standardNatives) may post)
    (fuel : Nat) :
    i.runDirect fuel p = i.run fuel p ∧ (i.runDirect fuel p).1 ≠ .error .fault ∧
      ∀ (h : Heap) (value : Value),
        (∃ seen, h.pursueAll value = .done (seen, (h.walk value).2) ∧
          ((h.walk value).2 ≠ .circular → seen = (h.walk value).1)) ∧
        h.Prints (.value value) .fresh (h.write value) .fresh := by
  have hm : i.machine.Provides standardNatives := hi.provides
  have hperform := Machine.perform_meets (Machine.serve_order hm) fuel
  have hkeeps : p.run.Keeps (Provided standardNatives) i.state.depth may post := .program hp
  have hplan := hkeeps i.state hi.state rfl
  have hsame : (p.run i.state).execute (Direct.perform i.machine standardNatives fuel) =
      (p.run i.state).execute (i.machine.perform fuel) := by
    refine Plan.execute_congr_of_asks fun q u hq => ?_
    have hmay := hplan.may_of_asks (fun r s hr => hperform r s hr.1) hq
    exact Direct.perform_eq hm Direct.body_follows fuel hmay.1
  have hrun : i.runDirect fuel p = i.run fuel p := by
    rw [runDirect, hsame]
    rfl
  refine ⟨hrun, fun hfault => ?_, fun h value => ⟨h.pursueAll_eq value, h.print_eq value⟩⟩
  have hmeets := hplan.execute fun r s hr => hperform r s hr.1
  rw [hrun] at hfault
  change ((p.run i.state).execute (i.machine.perform fuel)).1 = .error .fault at hfault
  generalize (p.run i.state).execute (i.machine.perform fuel) = outcome at hmeets hfault
  obtain ⟨result, t⟩ := outcome
  cases hfault
  exact hmeets

/-- A position that is out of range fails in both machines, and a ring of pairs is walked and
written in counted steps. -/
theorem steps_in_range_text :
    (full .standard).Has standardNatives ∧
      (Program.evalText "(vector-ref (vector 1 2) 7)").Safe (Provided standardNatives)
        (fun _ => True) (Value.Over (Provided standardNatives)) ∧
      (full .standard).runDirect 9 (Program.evalText "(vector-ref (vector 1 2) 7)") =
        (full .standard).run 9 (Program.evalText "(vector-ref (vector 1 2) 7)") ∧
      ((full .standard).runDirect 9 (Program.evalText "(vector-ref (vector 1 2) 7)")).1 ≠
        .error .fault ∧
      (∃ seen, Heap.sharingRing.pursueAll (.pair ⟨1⟩) = .done (seen, .circular)) ∧
      Heap.sharingRing.Prints (.value (.pair ⟨1⟩)) .fresh "((2) (2) . #<cycle>)".toList .fresh := by
  have hsafe : (Program.evalText "(vector-ref (vector 1 2) 7)").Safe (Provided standardNatives)
      (fun _ => True) (Value.Over (Provided standardNatives)) :=
    Program.safe_evalText (fun _ _ => trivial) _
  obtain ⟨hrun, hfault, hcounts⟩ := steps_in_range (full_has .standard) hsafe 9
  obtain ⟨⟨seen, hseen, -⟩, hprints⟩ := hcounts Heap.sharingRing (.pair ⟨1⟩)
  have hending : (Heap.sharingRing.walk (.pair ⟨1⟩)).2 = .circular := by decide +kernel
  have htext : Heap.sharingRing.write (.pair ⟨1⟩) = "((2) (2) . #<cycle>)".toList := by
    decide +kernel
  exact ⟨full_has _, hsafe, hrun, hfault, ⟨seen, hending ▸ hseen⟩, htext ▸ hprints⟩

end Interpreter

end HostedLisp
