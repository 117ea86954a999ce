import HostedLisp.Proofs.Machine.Compositional
import HostedLisp.Proofs.Plan.Requests

/-!
# The request that a run fails by

A run that relays errors stops with the error of a request as soon as one fails. So when it ends in
an error, this is either an error of its own, and no request failed, or the error of the request
that it asked last: `Plan.Relays.execute`. All that is made of single steps relays errors, whatever
it asks for: `relays_compositional`.
-/

namespace HostedLisp

variable {α β : Type}

/-- Whether an outcome is an error. -/
def Outcome.fails : Outcome α → Bool
  | (.error (.error _), _) => true
  | _ => false

namespace Plan

/-- The request that is asked last while a plan is carried out, and the state that it is asked
in. -/
def last? (answer : Answer) : Plan α → Option (Request × State)
  | stop _ _ => none
  | ask r s next =>
    match answer r s with
    | (.ok value, t) => ((next (.ok value) t).last? answer).or (some (r, s))
    | (.error (.error e), t) => ((next (.error e) t).last? answer).or (some (r, s))
    | (.error _, _) => some (r, s)

/-- The request that is asked last, if it fails. -/
def failing? (answer : Answer) (p : Plan α) : Option (Request × State) :=
  (p.last? answer).filter fun x => (answer x.1 x.2).fails

variable {answer : Answer} {p : Plan α} {f : α → Run β} {r : Request} {s t : State}
  {next : Except Error Value → State → Plan α}

lemma last?_ask_answered {a : Except Error Value} (h : answer r s = .answered a t) :
    (ask r s next).last? answer = ((next a t).last? answer).or (some (r, s)) := by
  rw [last?, h]
  cases a <;> rfl

lemma isSome_last?_ask : ((ask r s next).last? answer).isSome = true := by
  rw [last?]
  split <;> simp

/-- The first part of a plan that is answered comes to a value, or to the error of the whole. -/
lemma answered_bind {result : Except Error β} (h : (p.bind f).execute answer = .answered result t) :
    (∃ a u, p.execute answer = (.ok a, u) ∧ (f a u).execute answer = .answered result t) ∨
      ∃ e, p.execute answer = .answered (.error e) t ∧ result = .error e := by
  rw [execute_bind_eq] at h
  generalize p.execute answer = first at h
  match first, result with
  | (.ok a, u), _ => exact .inl ⟨a, u, rfl, h⟩
  | (.error reason, u), .error e =>
    cases h
    exact .inr ⟨e, rfl, rfl⟩
  | (.error reason, u), .ok b => cases h

lemma answered_attempt {b : Except Error (Except Error α)}
    (h : p.attempt.execute answer = .answered b t) :
    ∃ a, b = .ok a ∧ p.execute answer = .answered a t := by
  rw [execute_attempt_eq] at h
  obtain ⟨a, u, hp⟩ | ⟨u, hp⟩ | ⟨u, hp⟩ := (p.execute answer).cases
  · rw [hp] at h
    cases a <;> cases b <;> cases h <;> exact ⟨_, rfl, hp⟩
  · rw [hp] at h
    cases b <;> cases h
  · rw [hp] at h
    cases b <;> cases h

lemma answered_atEnd {g : State → State} {result : Except Error α}
    (h : (p.atEnd g).execute answer = .answered result t) :
    ∃ u, p.execute answer = .answered result u ∧ t = g u := by
  induction p with
  | stop stopped s =>
    cases h
    exact ⟨s, rfl, rfl⟩
  | ask r s next ih =>
    rw [atEnd] at h
    obtain ⟨a, u, ha⟩ | ⟨u, ha⟩ | ⟨u, ha⟩ := (answer r s).cases
    · rw [execute_ask_answered ha] at h ⊢
      exact ih a u h
    · rw [execute_ask_fault ha] at h
      cases result <;> cases h
    · rw [execute_ask_exhausted ha] at h
      cases result <;> cases h

/-- What is asked after the first part is asked later. -/
lemma last?_bind {a : α} (hp : p.execute answer = (.ok a, t)) :
    (p.bind f).last? answer = ((f a t).last? answer).or (p.last? answer) := by
  induction p with
  | stop result s =>
    cases hp
    exact (Option.or_none).symm
  | ask r s next ih =>
    obtain ⟨b, u, h⟩ | ⟨u, h⟩ | ⟨u, h⟩ := (answer r s).cases
    · rw [execute_ask_answered h] at hp
      rw [bind_ask, last?_ask_answered h, last?_ask_answered h, ih b u hp, Option.or_assoc]
    · rw [execute_ask_fault h] at hp
      cases hp
    · rw [execute_ask_exhausted h] at hp
      cases hp

lemma last?_attempt (p : Plan α) : p.attempt.last? answer = p.last? answer := by
  induction p with
  | stop result s => rcases result with (_ | _ | _) | _ <;> rfl
  | ask r s next ih =>
    rw [attempt, last?, last?]
    simp only [ih]

lemma last?_atEnd (g : State → State) (p : Plan α) :
    (p.atEnd g).last? answer = p.last? answer := by
  induction p with
  | stop result s => rfl
  | ask r s next ih =>
    rw [atEnd, last?, last?]
    simp only [ih]

lemma asks_of_last? {q : Request} {u : State} (h : p.last? answer = some (q, u)) :
    p.Asks answer q u := by
  induction p with
  | stop => cases h
  | ask r s next ih =>
    obtain ⟨a, t, ha⟩ | ⟨t, ha⟩ | ⟨t, ha⟩ := (answer r s).cases
    · rw [last?_ask_answered ha, Option.or_eq_some_iff] at h
      obtain hlater | ⟨-, hfirst⟩ := h
      · exact .inr ⟨a, t, ha, ih a t hlater⟩
      · cases hfirst
        exact .inl ⟨rfl, rfl⟩
    · rw [last?, ha] at h
      cases h
      exact .inl ⟨rfl, rfl⟩
    · rw [last?, ha] at h
      cases h
      exact .inl ⟨rfl, rfl⟩

/-- The request that a plan fails by is asked and fails. -/
lemma asks_of_failing? {q : Request} {u : State} (h : p.failing? answer = some (q, u)) :
    p.Asks answer q u ∧ (answer q u).fails = true := by
  obtain ⟨hlast, hfails⟩ := Option.filter_eq_some_iff.1 h
  exact ⟨asks_of_last? hlast, hfails⟩

/-- After a value the later requests decide. -/
lemma failing?_ask_ok {v : Value} (h : answer r s = (.ok v, t)) :
    (ask r s next).failing? answer = (next (.ok v) t).failing? answer := by
  have hlast : (ask r s next).last? answer = _ := last?_ask_answered (a := .ok v) h
  rw [failing?, failing?, hlast]
  cases (next (.ok v) t).last? answer with
  | none => simp [Outcome.fails, h]
  | some x => rfl

/-! ### Errors that are relayed -/

/-- Stops with the error of a request as soon as one fails, in states of which `C` is known as long
as it is known of those that requests lead to. -/
def Relays (C : Debugger.Controller → Prop) : Plan α → Prop
  | stop _ s => C s.debugger
  | ask _ s next => C s.debugger ∧ (∀ e t, next (.error e) t = stop (.error (.error e)) t) ∧
    ∀ v t, C t.debugger → (next (.ok v) t).Relays C

variable {C : Debugger.Controller → Prop}

lemma Relays.bind (hp : p.Relays C) (hf : ∀ a s, C s.debugger → (f a s).Relays C) :
    (p.bind f).Relays C := by
  induction p with
  | stop result s =>
    cases result with
    | ok a => exact hf a s hp
    | error reason => exact hp
  | ask r s next ih =>
    obtain ⟨hs, herr, hok⟩ := hp
    exact ⟨hs, fun e t => congrArg (Plan.bind · f) (herr e t), fun v t ht => ih _ t (hok v t ht)⟩

/-- If the values that requests are answered with are as the contract says, a plan that relays
errors ends as it should without a request that fails, or else with the error of such a request. -/
theorem Relays.execute {c : Contract} {post : Except Error α → State → Prop}
    (hp : p.Relays C) (hmeets : p.Meets c post)
    (hvalue : ∀ q u v t, c.may q u → C u.debugger → answer q u = (.ok v, t) →
      c.gives q u (.ok v) t ∧ C t.debugger)
    {result : Except Error α} (h : p.execute answer = .answered result t) :
    (p.failing? answer = none ∧ post result t ∧ C t.debugger) ∨
      ∃ q u e, p.failing? answer = some (q, u) ∧ c.may q u ∧ C u.debugger ∧
        answer q u = (.error (.error e), t) ∧ result = .error e := by
  induction p with
  | stop stopped s =>
    refine .inl ⟨rfl, ?_⟩
    match stopped, result, h with
    | .ok a, .ok _, rfl => exact ⟨hmeets, hp⟩
    | .error (.error e), .error _, rfl => exact ⟨hmeets, hp⟩
  | ask r s next ih =>
    obtain ⟨hs, herr, hok⟩ := hp
    obtain ⟨a, u, ha⟩ | ⟨u, ha⟩ | ⟨u, ha⟩ := (answer r s).cases
    · rw [execute_ask_answered ha] at h
      cases a with
      | ok v =>
        obtain ⟨hgives, hu⟩ := hvalue r s v u hmeets.1 hs ha
        rw [failing?_ask_ok ha]
        exact ih (.ok v) u (hok v u hu) (hmeets.2 (.ok v) u hgives) h
      | error e =>
        rw [herr e u] at h
        have hfailing : (ask r s next).failing? answer = some (r, s) := by
          rw [failing?, last?_ask_answered ha, herr e u, last?, Option.none_or]
          simp [Outcome.fails, ha, Outcome.answered, Except.mapError]
        match result, h with
        | .error _, rfl => exact .inr ⟨r, s, e, hfailing, hmeets.1, hs, ha, rfl⟩
    · rw [execute_ask_fault ha] at h
      cases result <;> cases h
    · rw [execute_ask_exhausted ha] at h
      cases result <;> cases h

end Plan

/-- From every state of which `C` is known, a run relays errors. -/
def Run.Relays (C : Debugger.Controller → Prop) (x : Run α) : Prop :=
  ∀ s, C s.debugger → (x s).Relays C

/-- Nothing that is made of single steps catches an error or changes the debugger. -/
lemma relays_compositional (C : Debugger.Controller → Prop) :
    Run.Compositional (Run.Relays C) where
  pure _ := fun _ hs => hs
  raise _ := fun _ hs => hs
  fault := fun _ hs => hs
  bind hx hf := fun s hs => (hx s hs).bind fun a t ht => hf a t ht
  view _ := fun _ hs => hs
  change _ := fun _ hs => hs
  displayLine _ := fun _ hs => hs
  request _ := fun _ hs => ⟨hs, fun _ _ => rfl, fun _ _ ht => ht⟩

end HostedLisp
