import HostedLisp.Proofs.Machine.Speech
import HostedLisp.Proofs.Program.Safety

/-!
# Runs that keep the state in order

A run keeps order if it leaves as many evaluations under way as there were, never lets go of a
primitive of which `G` is not known, and ends without a fault: it speaks the vocabulary of these
primitives, in which anything may be said. Main definitions: `order`, `Run.Keeps`.
-/

namespace HostedLisp

variable {G : Primitive → Prop} {d : Nat} {may : Request → Prop} {α : Type}

/-- Every primitive that a run can take out of the state satisfies `G`. -/
structure State.Over (G : Primitive → Prop) (s : State) : Prop where
  heap : s.heap.Over G
  substitute : ∀ v, s.debugger.substitute = some v → v.Over G

lemma State.over_iff {s : State} : s.Over G ↔ s.In (.ofPrimitives G) where
  mp h := ⟨Heap.over_iff.1 h.heap, fun v hv => Value.over_iff.1 (h.substitute v hv)⟩
  mpr h := ⟨Heap.over_iff.2 h.heap, fun v hv => Value.over_iff.2 (h.substitute v hv)⟩

/-- Requests over `G` are answered over `G`, with as many evaluations under way as before, and
without faults. -/
def order (G : Primitive → Prop) : Contract where
  may r s := r.Over G ∧ s.Over G
  gives _ s answer t := t.Over G ∧ t.depth = s.depth ∧ ∀ v, answer = .ok v → v.Over G
  faults := False

/-- Orderly requests that `may` allows, with `d` evaluations under way. -/
def keeping (G : Primitive → Prop) (d : Nat) (may : Request → Prop) : Contract :=
  (order G).within fun r s => may r ∧ s.depth = d

/-- The end of a run that keeps order. -/
def Kept (G : Primitive → Prop) (d : Nat) (post : α → Prop) (result : Except Error α)
    (s : State) : Prop :=
  s.Over G ∧ s.depth = d ∧ ∀ a, result = .ok a → post a

/-- From a state over `G` with `d` evaluations under way, a run asks only what it may and ends in
such a state, in an error or with `post`. -/
def Run.Keeps (G : Primitive → Prop) (d : Nat) (may : Request → Prop) (post : α → Prop)
    (x : Run α) : Prop :=
  ∀ s : State, s.Over G → s.depth = d → (x s).Meets (keeping G d may) (Kept G d post)

namespace Run

variable {post : α → Prop} {x : Run α}

/-- A run that speaks the vocabulary of some primitives keeps order. -/
theorem Speaks.keeps (hx : x.Speaks (.ofPrimitives G) d may post) : x.Keeps G d may post := by
  intro s hs hd
  refine (hx s (State.over_iff.1 hs) hd).mono (fun r t h => ?_) (fun r t a u h => ?_) id ?_
  · exact ⟨⟨Request.over_iff.2 h.1.1, State.over_iff.2 h.1.2⟩, h.2⟩
  · refine ⟨State.over_iff.1 h.1, h.2.1, fun v hv => Value.over_iff.1 (h.2.2 v hv), fun e _ => ?_⟩
    cases e <;> exact trivial
  · exact fun result t h => ⟨State.over_iff.2 h.state, h.depth, h.value⟩

namespace Keeps

lemma view {f : State → α} (h : ∀ s : State, s.Over G → post (f s)) :
    (Run.view f).Keeps G d may post :=
  (Speaks.view fun s hs => h s (State.over_iff.2 hs)).keeps

lemma changeHeap {f : Heap → Heap} {post : Unit → Prop} (hf : ∀ h : Heap, h.Over G → (f h).Over G)
    (h : post ()) : (Run.changeHeap f).Keeps G d may post :=
  (Speaks.changeHeap (fun h hh => Heap.over_iff.1 (hf h (Heap.over_iff.2 hh))) h).keeps

lemma request {r : Request} {post : Value → Prop} (hr : may r) (hover : r.Over G)
    (h : ∀ v, v.Over G → post v) : (Run.request r).Keeps G d may post :=
  (Speaks.request hr (Request.over_iff.1 hover) fun v hv => h v (Value.over_iff.2 hv)).keeps

/-- A safe program keeps order when it is carried out. -/
theorem program {p : Program α} (hp : p.Safe G may post) : p.run.Keeps G d may post :=
  (Speaks.program (Program.safe_iff.1 hp)).keeps

end Keeps

end Run

/-- Holding an evaluation up keeps order whatever the user writes. -/
lemma Machine.hold_keeps (heval : Program.Evals may) {leader : Char} {frame : FrameId}
    {expr : Value} {post : Option Value → Prop}
    (h : ∀ value, (∀ v, value = some v → v.Over G) → post value) :
    (hold leader expr frame).Keeps G d may post := by
  refine (hold_speaks heval fun value hv => ?_).keeps
  exact h value fun v heq => Value.over_iff.2 (hv v heq)

end HostedLisp
