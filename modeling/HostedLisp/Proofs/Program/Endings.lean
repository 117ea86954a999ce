import HostedLisp.Proofs.Library.Answers

/-!
# Programs that end with a result

If it is known how requests are answered, a program ends with some result in some state, or it does
not. `Program.EndsIn` is that relation; each building block of programs has one lemma that says when
it ends with what. So what a program of the host does is described without the program. Main
definitions: `Program.EndsIn`, `Evaluates`.
-/

namespace HostedLisp

variable {α β : Type} {answer : Answer} {frame : FrameId} {s t : State}

/-- From a state on a program ends with a result and leaves another state. -/
def Program.EndsIn (answer : Answer) (p : Program α) (s : State) (a : α) (t : State) : Prop :=
  (p.run s).execute answer = (.ok a, t)

/-- Expressions are evaluated one after the other. -/
inductive Evaluates (answer : Answer) (frame : FrameId) :
    State → List Value → List Value → State → Prop
  | nil (s : State) : Evaluates answer frame s [] [] s
  | cons {s t u : State} {expr value : Value} {exprs values : List Value}
      (hfirst : answer (.eval expr frame) s = (.ok value, t))
      (hrest : Evaluates answer frame t exprs values u) :
      Evaluates answer frame s (expr :: exprs) (value :: values) u

@[simp] lemma evaluates_nil {values : List Value} :
    Evaluates answer frame s [] values t ↔ values = [] ∧ t = s := by
  constructor
  · rintro ⟨⟩
    exact ⟨rfl, rfl⟩
  · rintro ⟨rfl, rfl⟩
    exact .nil t

@[simp] lemma evaluates_cons {expr : Value} {exprs values : List Value} :
    Evaluates answer frame s (expr :: exprs) values t ↔
      ∃ value rest u, values = value :: rest ∧ answer (.eval expr frame) s = (.ok value, u) ∧
        Evaluates answer frame u exprs rest t := by
  constructor
  · rintro (_ | ⟨hfirst, hrest⟩)
    exact ⟨_, _, _, rfl, hfirst, hrest⟩
  · rintro ⟨value, rest, u, rfl, hfirst, hrest⟩
    exact .cons hfirst hrest

lemma Evaluates.length {exprs values : List Value}
    (h : Evaluates answer frame s exprs values t) : exprs.length = values.length := by
  induction h with
  | nil => rfl
  | cons _ _ ih => exact congrArg Nat.succ ih

namespace Program

lemma EndsIn.unique {p : Program α} {a b : α} {u : State} (h : p.EndsIn answer s a t)
    (h' : p.EndsIn answer s b u) : a = b ∧ t = u := by
  have heq := h.symm.trans h'
  cases heq
  exact ⟨rfl, rfl⟩

@[simp] lemma endsIn_done {a b : α} : (done a).EndsIn answer s b t ↔ b = a ∧ t = s := by
  constructor
  · rintro ⟨⟩
    exact ⟨rfl, rfl⟩
  · rintro ⟨rfl, rfl⟩
    rfl

@[simp] lemma endsIn_fail {e : Error} {a : α} : ¬(fail e).EndsIn answer s a t := nofun

@[simp] lemma endsIn_fault {a : α} : ¬(fault : Program α).EndsIn answer s a t := nofun

@[simp] lemma endsIn_look {next : Heap → Program α} {a : α} :
    (look next).EndsIn answer s a t ↔ (next s.heap).EndsIn answer s a t := Iff.rfl

@[simp] lemma endsIn_wrongType {message : String} {value : Value} {a : α} :
    ¬(wrongType message value : Program α).EndsIn answer s a t := nofun

@[simp] lemma endsIn_perform {c : Change} {a : c.Answer} : (perform c).EndsIn answer s a t ↔
    a = (s.heap.apply c).1 ∧ t = { s with heap := (s.heap.apply c).2 } := by
  constructor
  · rintro ⟨⟩
    exact ⟨rfl, rfl⟩
  · rintro ⟨rfl, rfl⟩
    rfl

@[simp] lemma endsIn_bind {p : Program α} {f : α → Program β} {b : β} :
    (p.bind f).EndsIn answer s b t ↔
      ∃ a u, p.EndsIn answer s a u ∧ (f a).EndsIn answer u b t := by
  unfold EndsIn
  rw [run_bind, Run.bind_apply]
  constructor
  · exact Plan.exists_of_execute_bind
  · rintro ⟨a, u, hp, hf⟩
    rw [Plan.execute_bind hp]
    exact hf

@[simp] lemma endsIn_request {r : Request} {v : Value} :
    (request r).EndsIn answer s v t ↔ answer r s = (.ok v, t) := by
  change (Plan.ask r s _).execute answer = _ ↔ _
  obtain ⟨a, u, h⟩ | ⟨u, h⟩ | ⟨u, h⟩ := (answer r s).cases
  · rw [Plan.execute_ask_answered h, h]
    cases a <;> rfl
  · rw [Plan.execute_ask_fault h, h]
  · rw [Plan.execute_ask_exhausted h, h]

@[simp] lemma endsIn_eval {expr v : Value} :
    (eval expr frame).EndsIn answer s v t ↔ answer (.eval expr frame) s = (.ok v, t) :=
  endsIn_request

lemma endsIn_ite {holds : Prop} [Decidable holds] {p : Program α} {e : Error} {a : α} :
    (if holds then p else fail e).EndsIn answer s a t ↔ holds ∧ p.EndsIn answer s a t := by
  split
  · next h => exact (and_iff_right h).symm
  · next h => exact ⟨nofun, fun hp => absurd hp.1 h⟩

@[simp] lemma endsIn_listItems {value : Value} {items : List Value} :
    (listItems value).EndsIn answer s items t ↔
      s.heap.walk value = (items, .proper) ∧ t = s := by
  rw [listItems, endsIn_look]
  split
  · next found heq =>
    rw [heq, endsIn_done]
    simp [eq_comm]
  · next found heq => simp [heq]
  · next found heq => simp [heq]

lemma endsIn_evalOnto {before exprs values : List Value} :
    (evalOnto before frame exprs).EndsIn answer s values t ↔
      ∃ new, Evaluates answer frame s exprs new t ∧ values = before.reverse ++ new := by
  induction exprs generalizing before s with
  | nil =>
    simp only [evalOnto, endsIn_done, evaluates_nil]
    constructor
    · rintro ⟨rfl, rfl⟩
      exact ⟨[], ⟨rfl, rfl⟩, (List.append_nil _).symm⟩
    · rintro ⟨new, ⟨rfl, rfl⟩, rfl⟩
      exact ⟨List.append_nil _, rfl⟩
  | cons expr rest ih =>
    simp only [evalOnto, endsIn_bind, endsIn_eval, ih]
    constructor
    · rintro ⟨value, u, hvalue, new, hnew, rfl⟩
      exact ⟨value :: new, .cons hvalue hnew, by simp⟩
    · rintro ⟨values, hvalues, rfl⟩
      obtain ⟨value, new, u, rfl, hvalue, hnew⟩ := evaluates_cons.1 hvalues
      exact ⟨value, u, hvalue, new, hnew, by simp⟩

@[simp] lemma endsIn_evalAll {exprs values : List Value} :
    (evalAll exprs frame).EndsIn answer s values t ↔
      Evaluates answer frame s exprs values t := by
  rw [evalAll, endsIn_evalOnto]
  simp

end Program

open Program

lemma Param.endsIn_convert_int {value : Value} {n : Param.int.Carrier} :
    (Param.int.convert value).EndsIn answer s n t ↔ value = .int n ∧ t = s := by
  unfold convert ofValue?
  cases value <;> simp [eq_comm]

/-- Values that all are integers. -/
lemma Param.endsIn_convertAll_int {values : List Value} {ns : List Int64} :
    (Param.int.convertAll values).EndsIn answer s ns t ↔ values = ns.map .int ∧ t = s := by
  induction values generalizing s ns with
  | nil =>
    rw [convertAll, endsIn_done]
    simp [eq_comm]
  | cons value rest ih =>
    rw [convertAll, endsIn_bind]
    constructor
    · rintro ⟨n, u, hn, hrest⟩
      obtain ⟨rfl, rfl⟩ := endsIn_convert_int.1 hn
      obtain ⟨ns, w, hns, hdone⟩ := endsIn_bind.1 hrest
      obtain ⟨rfl, rfl⟩ := endsIn_done.1 hdone
      obtain ⟨rfl, rfl⟩ := ih.1 hns
      exact ⟨rfl, rfl⟩
    · rintro ⟨hns, rfl⟩
      obtain ⟨n, ns, rfl, rfl, rfl⟩ := List.map_eq_cons_iff.1 hns.symm
      have hrest := ih.2 ⟨rfl, rfl⟩
      exact ⟨n, t, endsIn_convert_int.2 ⟨rfl, rfl⟩,
        endsIn_bind.2 ⟨ns, t, hrest, endsIn_done.2 ⟨rfl, rfl⟩⟩⟩

end HostedLisp
