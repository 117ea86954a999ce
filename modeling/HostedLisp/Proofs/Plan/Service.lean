import HostedLisp.Proofs.Plan.Requests

/-!
# Services

Where code of a host takes part, a request can be served by more than one run. A service says by
which. A plan then has outcomes instead of one outcome; those of its parts are found by
`Service.yields_bind` and the equations beside it, and what is known of all of them comes from a
contract that all runs of the service meet: `Service.Yields.meets`, `Service.Asked.may`.
-/

namespace HostedLisp

variable {α β : Type}

/-- Which runs can serve a request. -/
abbrev Service := Request → Run Value → Prop

namespace Service

/-- A plan ends with a result in a state if its requests are answered by runs of the service. -/
inductive Yields (S : Service) : {α : Type} → Plan α → Except Error α → State → Prop
  | value {α : Type} (a : α) (s : State) : S.Yields (.stop (.ok a) s) (.ok a) s
  | error {α : Type} (e : Error) (s : State) :
      S.Yields (.stop (.error (.error e)) s : Plan α) (.error e) s
  | ask {α : Type} {r : Request} {s t u : State} {next : Except Error Value → State → Plan α}
      {x : Run Value} {answer : Except Error Value} {result : Except Error α} (hx : S r x)
      (hanswer : S.Yields (x s) answer t) (hresult : S.Yields (next answer t) result u) :
      S.Yields (.ask r s next) result u

/-- While a plan is carried out, a request is asked in a state, perhaps inside other requests. -/
inductive Asked (S : Service) : {α : Type} → Plan α → Request × State → Prop
  | now {α : Type} (r : Request) (s : State) (next : Except Error Value → State → Plan α) :
      S.Asked (.ask r s next) (r, s)
  | inside {α : Type} {r : Request} {s : State} {next : Except Error Value → State → Plan α}
      {x : Run Value} {y : Request × State} (hx : S r x) (hy : S.Asked (x s) y) :
      S.Asked (.ask r s next) y
  | later {α : Type} {r : Request} {s t : State} {next : Except Error Value → State → Plan α}
      {x : Run Value} {answer : Except Error Value} {y : Request × State} (hx : S r x)
      (hanswer : S.Yields (x s) answer t) (hy : S.Asked (next answer t) y) :
      S.Asked (.ask r s next) y

variable {S : Service} {p : Plan α} {s t : State}

/-! ### Outcomes of the parts -/

@[simp] lemma yields_stop_ok {a : α} {result : Except Error α} :
    S.Yields (.stop (.ok a) s) result t ↔ result = .ok a ∧ t = s := by
  constructor
  · rintro ⟨⟩
    exact ⟨rfl, rfl⟩
  · rintro ⟨rfl, rfl⟩
    exact .value a _

@[simp] lemma yields_stop_error {e : Error} {result : Except Error α} :
    S.Yields (.stop (.error (.error e)) s) result t ↔ result = .error e ∧ t = s := by
  constructor
  · rintro ⟨⟩
    exact ⟨rfl, rfl⟩
  · rintro ⟨rfl, rfl⟩
    exact .error e _

@[simp] lemma not_yields_fault {result : Except Error α} :
    ¬S.Yields (.stop (.error .fault) s) result t := nofun

@[simp] lemma not_yields_exhausted {result : Except Error α} :
    ¬S.Yields (.stop (.error .exhausted) s) result t := nofun

lemma yields_ask {r : Request} {next : Except Error Value → State → Plan α}
    {result : Except Error α} : S.Yields (.ask r s next) result t ↔
      ∃ x answer u, S r x ∧ S.Yields (x s) answer u ∧ S.Yields (next answer u) result t := by
  constructor
  · rintro (_ | _ | ⟨hx, hanswer, hresult⟩)
    exact ⟨_, _, _, hx, hanswer, hresult⟩
  · rintro ⟨x, answer, u, hx, hanswer, hresult⟩
    exact .ask hx hanswer hresult

/-- A plan with a continuation goes on with a value, and ends with an error. -/
lemma yields_bind {f : α → Run β} {result : Except Error β} :
    S.Yields (p.bind f) result t ↔
      (∃ a u, S.Yields p (.ok a) u ∧ S.Yields (f a u) result t) ∨
        ∃ e, S.Yields p (.error e) t ∧ result = .error e := by
  induction p with
  | stop stopped s =>
    match stopped with
    | .ok a | .error .fault | .error .exhausted => simp
    | .error (.error e) =>
      simp only [Plan.bind_stop_error, yields_stop_error]
      grind
  | ask r s next ih =>
    simp only [Plan.bind_ask, yields_ask, ih]
    grind

/-- What is asked after the first part is asked by the whole. -/
lemma Asked.bind_right {f : α → Run β} {a : α} {y : Request × State}
    (hp : S.Yields p (.ok a) t) (hf : S.Asked (f a t) y) : S.Asked (p.bind f) y := by
  induction p with
  | stop stopped s =>
    cases hp
    exact hf
  | ask r s next ih =>
    obtain ⟨x, answer, u, hx, hanswer, hresult⟩ := yields_ask.1 hp
    exact .later hx hanswer (ih answer u hresult)

/-! ### Contracts -/

variable {c : Contract} {post : Except Error α → State → Prop}

/-- If all runs of a service meet a contract, a plan that meets it ends as it should, whichever of
them serve its requests. -/
theorem Yields.meets (hserve : ∀ r x s, S r x → c.may r s → (x s).Meets c (c.gives r s))
    {result : Except Error α} (h : S.Yields p result t) (hp : p.Meets c post) : post result t := by
  induction h with
  | value => exact hp
  | error => exact hp
  | ask hx _ _ ihanswer ihresult =>
    exact ihresult (hp.2 _ _ (ihanswer (hserve _ _ _ hx hp.1)))

/-- Every request that is asked may be asked. -/
theorem Asked.may (hserve : ∀ r x s, S r x → c.may r s → (x s).Meets c (c.gives r s))
    {y : Request × State} (h : S.Asked p y) (hp : p.Meets c post) : c.may y.1 y.2 := by
  induction h with
  | now => exact hp.1
  | inside hx _ ih => exact ih (hserve _ _ _ hx hp.1)
  | later hx hanswer _ ih =>
    exact ih (hp.2 _ _ (hanswer.meets hserve (hserve _ _ _ hx hp.1)))

/-! ### Machines -/

/-- A plan that is answered by what requests can be answered with yields its outcome. -/
lemma Yields.of_answers {answer : Answer}
    (hanswer : ∀ r s a t, answer r s = .answered a t → ∃ x, S r x ∧ S.Yields (x s) a t)
    {result : Except Error α} (h : p.execute answer = .answered result t) :
    S.Yields p result t := by
  induction p with
  | stop stopped s =>
    match stopped, result, h with
    | .ok a, .ok _, rfl => exact value a s
    | .error (.error e), .error _, rfl => exact error e s
  | ask r s next ih =>
    obtain ⟨a, u, ha⟩ | ⟨u, ha⟩ | ⟨u, ha⟩ := (answer r s).cases
    · rw [Plan.execute_ask_answered ha] at h
      obtain ⟨x, hx, hyields⟩ := hanswer r s a u ha
      exact ask hx hyields (ih a u h)
    · rw [Plan.execute_ask_fault ha] at h
      cases result <;> cases h
    · rw [Plan.execute_ask_exhausted ha] at h
      cases result <;> cases h

/-- Answers requests by one run for each, if the fuel lasts for all requests that come up inside each
other. -/
def answers (serve : Request → Run Value) : Nat → Answer
  | 0 => fun _ s => (.error .exhausted, s)
  | fuel + 1 => fun r s => (serve r s).execute (answers serve fuel)

lemma answers_serve (m : Machine) (fuel : Nat) : answers m.serve fuel = m.perform fuel := by
  induction fuel with
  | zero => rfl
  | succ fuel ih => rw [answers, Machine.perform, ih]

/-- What comes of a plan with such answers is one of the things that can happen, if the runs belong
to the service. -/
theorem Yields.of_execute_answers {serve : Request → Run Value} (hserve : ∀ r, S r (serve r))
    {fuel : Nat} {result : Except Error α} (h : p.execute (answers serve fuel) = .answered result t) :
    S.Yields p result t := by
  induction fuel generalizing α p result t with
  | zero =>
    refine of_answers (fun r s a u ha => ?_) h
    exact absurd (congrArg Prod.fst ha).symm (Outcome.answered_ne_exhausted a u)
  | succ fuel ih => exact of_answers (fun r s a u ha => ⟨_, hserve r, ih ha⟩) h

/-- What a machine does on its own is one of the things that can happen, if its own runs belong to
the service. -/
theorem Yields.of_execute {m : Machine} (hown : ∀ r, S r (m.serve r)) {fuel : Nat}
    {result : Except Error α} (h : p.execute (m.perform fuel) = .answered result t) :
    S.Yields p result t :=
  .of_execute_answers hown (answers_serve m fuel ▸ h)

end Service

end HostedLisp
