import HostedLisp.Proofs.Machine.Compositional
import HostedLisp.Proofs.Plan.Contract
import Mathlib.Order.Defs.Unbundled

/-!
# Runs that advance

Let the states be ordered in some way, such as by what has been made so far. A run advances if
every state that it asks a request in, and the one that it ends in, comes after the one that it
went on from. If all requests are served by runs that advance, then of two states that the machine
goes through the later one comes after the earlier one: `Machine.trail_between`. This needs no
fuel to last: it is said about runs that stop anywhere.
-/

namespace HostedLisp

variable {α β : Type} {R : State → State → Prop}

namespace Plan

/-- From a state on, each request is asked in a state after the one before, and the end comes after
them, as long as the answers do. -/
def Advances (R : State → State → Prop) : State → Plan α → Prop
  | s, stop _ t => R s t
  | s, ask _ t next => R s t ∧ ∀ a u, R t u → (next a u).Advances R u

/-- The states in which requests are asked while a plan is carried out, those inside other requests
among them, and the state at the end. -/
def trail (answer : Answer) (inside : Request → State → List State) : Plan α → List State
  | stop _ s => [s]
  | ask r s next =>
    (s :: inside r s) ++
      match answer r s with
      | (.ok value, t) => (next (.ok value) t).trail answer inside
      | (.error (.error e), t) => (next (.error e) t).trail answer inside
      | (.error _, t) => [t]

variable {s t : State} {p : Plan α}

section Trail

variable {answer : Answer} {inside : Request → State → List State} {r : Request}
  {next : Except Error Value → State → Plan α}

lemma trail_ask_answered {a : Except Error Value} (h : answer r s = .answered a t) :
    (ask r s next).trail answer inside =
      (s :: inside r s) ++ (next a t).trail answer inside := by
  rw [trail, h]
  cases a <;> rfl

lemma trail_ask_fault (h : answer r s = (.error .fault, t)) :
    (ask r s next).trail answer inside = (s :: inside r s) ++ [t] := by
  rw [trail, h]

lemma trail_ask_exhausted (h : answer r s = (.error .exhausted, t)) :
    (ask r s next).trail answer inside = (s :: inside r s) ++ [t] := by
  rw [trail, h]

/-- The last state is the one that the plan leaves behind. -/
lemma getLast_trail (answer : Answer) (inside : Request → State → List State) (p : Plan α) :
    (p.trail answer inside).getLast? = some (p.execute answer).2 := by
  induction p with
  | stop result s => rfl
  | ask r s next ih =>
    obtain ⟨a, u, hu⟩ | ⟨u, hu⟩ | ⟨u, hu⟩ := (answer r s).cases
    · rw [trail_ask_answered hu, execute_ask_answered hu, List.getLast?_append, ih a u]
      rfl
    · rw [trail_ask_fault hu, execute_ask_fault hu, List.getLast?_append]
      rfl
    · rw [trail_ask_exhausted hu, execute_ask_exhausted hu, List.getLast?_append]
      rfl

end Trail

variable [IsPreorder State R]

lemma Advances.of_later (hp : p.Advances R t) (h : R s t) : p.Advances R s := by
  cases p with
  | stop result u => exact trans_of R h hp
  | ask r u next => exact ⟨trans_of R h hp.1, hp.2⟩

lemma Advances.bind {f : α → Run β} (hp : p.Advances R s)
    (hf : ∀ a t, (f a t).Advances R t) : (p.bind f).Advances R s := by
  induction p generalizing s with
  | stop result t =>
    cases result with
    | ok a => exact (hf a t).of_later hp
    | error e => exact hp
  | ask r t next ih => exact ⟨hp.1, fun a u hu => ih a u (hp.2 a u hu)⟩

omit [IsPreorder State R] in
lemma Advances.attempt (hp : p.Advances R s) : p.attempt.Advances R s := by
  induction p generalizing s with
  | stop result t =>
    match result, hp with
    | .ok a, hp | .error (.error e), hp | .error .fault, hp | .error .exhausted, hp => exact hp
  | ask r t next ih => exact ⟨hp.1, fun a u hu => ih a u (hp.2 a u hu)⟩

lemma Advances.atEnd {f : State → State} (hp : p.Advances R s) (hf : ∀ t, R t (f t)) :
    (p.atEnd f).Advances R s := by
  induction p generalizing s with
  | stop result t => exact trans_of R hp (hf t)
  | ask r t next ih => exact ⟨hp.1, fun a u hu => ih a u (hp.2 a u hu)⟩

end Plan

/-! ### What a run goes through -/

/-- States in their order, from `first` to `last`. -/
structure Between (R : State → State → Prop) (first : State) (states : List State) (last : State) :
    Prop where
  ordered : states.Pairwise R
  after : ∀ s ∈ states, R first s
  before : ∀ s ∈ states, R s last
  ends : R first last

namespace Between

variable [IsPreorder State R] {s t u : State} {l l' : List State}

lemma single (h : R s t) : Between R s [t] t where
  ordered := List.pairwise_singleton R t
  after _ hmem := List.mem_singleton.1 hmem ▸ h
  before _ hmem := List.mem_singleton.1 hmem ▸ refl_of R t
  ends := h

lemma append (h : Between R s l t) (h' : Between R t l' u) : Between R s (l ++ l') u where
  ordered := by
    refine List.pairwise_append.2 ⟨h.ordered, h'.ordered, fun a ha b hb => ?_⟩
    exact trans_of R (h.before a ha) (h'.after b hb)
  after a ha := by
    obtain ha | ha := List.mem_append.1 ha
    · exact h.after a ha
    · exact trans_of R h.ends (h'.after a ha)
  before a ha := by
    obtain ha | ha := List.mem_append.1 ha
    · exact trans_of R (h.before a ha) h'.ends
    · exact h'.before a ha
  ends := trans_of R h.ends h'.ends

end Between

/-- What a plan goes through is in order if this is so for what happens inside its requests. -/
lemma Plan.Advances.between [IsPreorder State R] {answer : Answer}
    {inside : Request → State → List State} {s : State} {p : Plan α} (hp : p.Advances R s)
    (hinside : ∀ r t, Between R t (inside r t) (answer r t).2) :
    Between R s (p.trail answer inside) (p.execute answer).2 := by
  induction p generalizing s with
  | stop result t => exact .single hp
  | ask r t next ih =>
    have hends := (hinside r t).ends
    have hbegin : Between R s (t :: inside r t) (answer r t).2 :=
      (Between.single hp.1).append (hinside r t)
    obtain ⟨a, u, hu⟩ | ⟨u, hu⟩ | ⟨u, hu⟩ := (answer r t).cases
    · rw [hu] at hbegin hends
      rw [trail_ask_answered hu, execute_ask_answered hu]
      exact hbegin.append (ih a u (hp.2 a u hends))
    · rw [hu] at hbegin
      rw [trail_ask_fault hu, execute_ask_fault hu]
      exact hbegin.append (.single (refl_of R u))
    · rw [hu] at hbegin
      rw [trail_ask_exhausted hu, execute_ask_exhausted hu]
      exact hbegin.append (.single (refl_of R u))

/-- From every state on, a run advances. -/
def Run.Advances (R : State → State → Prop) (x : Run α) : Prop := ∀ s, (x s).Advances R s

namespace Machine

variable {m : Machine}

/-- The states that the machine goes through while it answers a request. -/
def trail (m : Machine) : Nat → Request → State → List State
  | 0, _, s => [s]
  | fuel + 1, r, s => (m.serve r s).trail (m.perform fuel) (m.trail fuel)

/-- If all requests are served by runs that advance, so does the machine, whether it has an answer
or the fuel does not last. -/
theorem trail_between [IsPreorder State R] (h : ∀ r, (m.serve r).Advances R) (fuel : Nat)
    (r : Request) (s : State) : Between R s (m.trail fuel r s) (m.perform fuel r s).2 := by
  induction fuel generalizing r s with
  | zero => exact .single (refl_of R s)
  | succ fuel ih => exact (h r s).between ih

end Machine

/-! ### Rules -/

namespace Run.Advances

variable [IsPreorder State R] {x : Run α}

lemma pure (a : α) : (Pure.pure a : Run α).Advances R := fun s => refl_of R s

lemma halt (reason : Halt) : (Run.halt reason : Run α).Advances R := fun s => refl_of R s

lemma raise (e : Error) : (Run.raise e : Run α).Advances R := halt _

lemma bind {f : α → Run β} (hx : x.Advances R) (hf : ∀ a, (f a).Advances R) :
    (x >>= f).Advances R :=
  fun s => (hx s).bind hf

omit [IsPreorder State R] in
lemma attempt (hx : x.Advances R) : x.attempt.Advances R := fun s => (hx s).attempt

lemma view (f : State → α) : (Run.view f).Advances R := fun s => refl_of R s

omit [IsPreorder State R] in
lemma modify {f : State → State} (hf : ∀ s, R s (f s)) : (Run.modify f).Advances R := hf

lemma request (r : Request) : (Run.request r).Advances R := by
  refine fun s => ⟨refl_of R s, fun a u _ => ?_⟩
  exact refl_of R u

end Run.Advances

end HostedLisp
