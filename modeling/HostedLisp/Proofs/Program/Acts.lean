import HostedLisp.Library.Sequence
import HostedLisp.Proofs.Program.Direct
import HostedLisp.Proofs.Plan.Requests

/-!
# Programs as acts

If it is known how requests are answered, a program of the host does no more than pass a state on
until it has a result or is halted. What is done after it begins where it ends, so the equations of
programs become those of a monad, and the loops of the library of sequences are its loops over
lists. Main definitions: `Act`, `Program.act`.
-/

namespace HostedLisp

variable {α β : Type} {answer : Answer}

/-- A computation that passes a state on and may be halted. -/
abbrev Act := ExceptT Halt (StateM State)

lemma Act.bind_apply (x : Act α) (f : α → Act β) (s : State) : (x >>= f) s =
    match x s with
    | (.ok a, t) => f a t
    | (.error reason, t) => (.error reason, t) := by
  change ExceptT.bindCont f (x s).1 (x s).2 = _
  obtain ⟨_ | _, t⟩ := x s
  · rfl
  · rfl

namespace Program

/-- What a program does if its requests are answered by `answer`. -/
def act (answer : Answer) (p : Program α) : Act α := fun s => (p.run s).execute answer

@[simp] lemma act_done (a : α) : (done a).act answer = pure a := rfl

@[simp] lemma act_bind (p : Program α) (f : α → Program β) :
    (p.bind f).act answer = p.act answer >>= fun a => (f a).act answer := by
  funext s
  change ((p.bind f).run s).execute answer = _
  rw [run_bind, Run.bind_apply, Plan.execute_bind_eq, Act.bind_apply]
  rfl

@[simp] lemma act_apply (func : Value) (args : List Value) (frame : FrameId) :
    (apply func args frame).act answer = answer (.apply func args frame) := by
  funext s
  change (Plan.ask _ s _).execute answer = _
  obtain ⟨a, t, h⟩ | ⟨t, h⟩ | ⟨t, h⟩ := (answer (.apply func args frame) s).cases
  · rw [Plan.execute_ask_answered h, h]
    cases a <;> rfl
  · rw [Plan.execute_ask_fault h, h]
  · rw [Plan.execute_ask_exhausted h, h]

end Program

/-! ### Loops -/

namespace Sequence

variable {func : Value} {frame : FrameId} {before : List Value}

lemma act_applyEach (rows : List (List Value)) :
    (applyEach func frame before rows).act answer = (before.reverse ++ ·) <$>
      rows.mapM fun args => (answer (.apply func args frame) : Act Value) := by
  induction rows generalizing before with
  | nil => simp [applyEach]
  | cons args rest ih => simp [applyEach, ih]

lemma act_foldFrom {acc : Value} (items : List Value) : (foldFrom func frame acc items).act answer =
    items.foldlM (fun acc item => (answer (.apply func [acc, item] frame) : Act Value)) acc := by
  induction items generalizing acc with
  | nil => rfl
  | cons item rest ih => simp [foldFrom, ih]

lemma act_select {pred : Value} {keep : Bool} (items : List Value) :
    (select pred keep frame before items).act answer = List.reverse <$> items.filterAuxM
      (fun item => return (← (answer (.apply pred [item] frame) : Act Value)).isTruthy == keep)
      before := by
  induction items generalizing before with
  | nil => rfl
  | cons item rest ih =>
    rw [select, Program.act_bind, Program.act_apply, List.filterAuxM]
    simp only [map_bind, bind_assoc, pure_bind, ih]
    refine bind_congr fun v => ?_
    cases v.isTruthy == keep <;> rfl

lemma act_find {pred : Value} (items : List Value) :
    (find pred frame items).act answer = (·.getD (.bool false)) <$> items.findM?
      fun item => return (← (answer (.apply pred [item] frame) : Act Value)).isTruthy := by
  induction items with
  | nil => rfl
  | cons item rest ih =>
    rw [find, Program.act_bind, Program.act_apply, List.findM?]
    simp only [map_bind, bind_assoc, pure_bind]
    refine bind_congr fun v => ?_
    cases v.isTruthy with
    | true => rfl
    | false => exact ih

end Sequence

end HostedLisp
