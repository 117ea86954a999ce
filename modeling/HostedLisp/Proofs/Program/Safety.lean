import HostedLisp.Proofs.Heap.Contents
import HostedLisp.Proofs.Program.Speech

/-!
# Safe programs

A program is safe if it is never at fault, asks only what it may, and spreads only primitives of
which `G` is known: it speaks the vocabulary of these primitives, which leaves all other words open.
-/

namespace HostedLisp

variable {G : Primitive → Prop} {may : Request → Prop} {α : Type}

/-- Every primitive that a request carries satisfies `G`. -/
def Request.Over (G : Primitive → Prop) : Request → Prop
  | .eval expr _ => expr.Over G
  | .apply func args _ => func.Over G ∧ AllOver G args
  | .call func operands _ => func.Over G ∧ AllOver G operands
  | .pause _ | .setting .. | .print _ | .isPaused | .depth => True

lemma Request.over_iff {r : Request} : r.Over G ↔ r.In (.ofPrimitives G) := by
  cases r with
  | eval => exact Value.over_iff
  | apply | call => exact and_congr Value.over_iff allOver_iff
  | _ => exact Iff.rfl

namespace Program

/-- Without faults, asking only what `may` allows, over `G`, and ending in an error or with
`post`. -/
def Safe (G : Primitive → Prop) (may : Request → Prop) (post : α → Prop) : Program α → Prop
  | done a => post a
  | fail _ => True
  | fault => False
  | look next => ∀ h : Heap, h.Over G → (next h).Safe G may post
  | change c next => c.Over G ∧ ∀ answer, c.AnswerOver G answer → (next answer).Safe G may post
  | ask r next => (may r ∧ r.Over G) ∧ ∀ v, v.Over G → (next v).Safe G may post

variable {post : α → Prop} {p : Program α}

/-- A program is safe for some primitives exactly if it speaks their vocabulary. -/
theorem safe_iff : p.Safe G may post ↔ p.Speaks (.ofPrimitives G) may post := by
  induction p with
  | done a => exact Iff.rfl
  | fail e => exact iff_of_true trivial (by cases e <;> exact trivial)
  | fault => exact Iff.rfl
  | look next ih => exact forall_congr' fun h => imp_congr Heap.over_iff (ih h)
  | change c next ih =>
    refine and_congr Change.over_iff (forall_congr' fun a => ?_)
    exact imp_congr Change.answerOver_iff (ih a)
  | ask r next ih =>
    refine and_congr (and_congr_right fun _ => Request.over_iff) (forall_congr' fun v => ?_)
    exact imp_congr Value.over_iff (ih v)

/-- The same of a program that ends with a value. -/
lemma safe_over_iff {p : Program Value} : p.Safe G may (Value.Over G) ↔
    p.Speaks (.ofPrimitives G) may (Value.In (.ofPrimitives G)) :=
  safe_iff.trans ⟨fun hp => hp.imp fun _ => Value.over_iff.1, fun hp => hp.imp fun _ =>
    Value.over_iff.2⟩

/-- A program text has no primitives in it, only their names. -/
lemma safe_evalText (heval : Evals may) (text : String) :
    (evalText text).Safe G may (Value.Over G) := by
  rw [safe_over_iff, evalText]
  split
  · exact trivial
  · exact ⟨Datum.allIn_ofPrimitives _, fun forms hforms => speaks_evalBody heval hforms⟩

end Program

end HostedLisp
