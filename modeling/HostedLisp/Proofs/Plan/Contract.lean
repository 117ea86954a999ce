import HostedLisp.Machine.Evaluation
import Mathlib.Tactic.Lemma

/-!
# Contracts

A contract says which requests may be asked, and what the answers are known to be. `Plan.Meets` is
the law of a single plan: it asks only what it may, and it ends well whatever the answers are that
the contract allows. If every request that may be asked is served by such a plan, the answers of
the machine are what the contract says, for every stock of fuel: `Machine.perform_meets`. For runs
that lead from a state to a related one there are rules that follow their parts: `Run.Leads`.
-/

namespace HostedLisp

/-- What may be asked and in which states, what is known of an answer and the state after it, and
whether the host's own code may be at fault. -/
structure Contract where
  may : Request → State → Prop
  gives : Request → State → Except Error Value → State → Prop
  faults : Prop

/-- The contract under which fewer requests may be asked. -/
def Contract.within (c : Contract) (only : Request → State → Prop) : Contract :=
  { c with may := fun r s => c.may r s ∧ only r s }

/-- The contract that allows and promises what both contracts do. -/
def Contract.both (c c' : Contract) : Contract where
  may r s := c.may r s ∧ c'.may r s
  gives r s answer t := c.gives r s answer t ∧ c'.gives r s answer t
  faults := c.faults ∧ c'.faults

variable {α β : Type} {c c' : Contract}

namespace Plan

/-- Asks only what the contract allows and ends with `post`, given answers as the contract
promises them. -/
def Meets (c : Contract) (post : Except Error α → State → Prop) : Plan α → Prop
  | stop (.ok a) s => post (.ok a) s
  | stop (.error (.error e)) s => post (.error e) s
  | stop (.error .fault) _ => c.faults
  | stop (.error .exhausted) _ => False
  | ask r s next => c.may r s ∧ ∀ answer t, c.gives r s answer t → (next answer t).Meets c post

lemma Meets.mono {post post' : Except Error α → State → Prop} {p : Plan α}
    (hp : p.Meets c post) (hm : ∀ r s, c.may r s → c'.may r s)
    (hg : ∀ r s a t, c'.gives r s a t → c.gives r s a t) (hf : c.faults → c'.faults)
    (hpost : ∀ a s, post a s → post' a s) : p.Meets c' post' := by
  induction p with
  | stop result s =>
    match result, hp with
    | .ok a, hp => exact hpost _ _ hp
    | .error (.error e), hp => exact hpost _ _ hp
    | .error .fault, hp => exact hf hp
  | ask r s next ih =>
    refine ⟨hm r s hp.1, fun a t ha => ?_⟩
    exact ih a t (hp.2 a t (hg r s a t ha))

/-- A plan that meets a contract does so with a weaker end. -/
lemma Meets.post_mono {post post' : Except Error α → State → Prop} {p : Plan α}
    (hp : p.Meets c post) (hpost : ∀ a s, post a s → post' a s) : p.Meets c post' :=
  hp.mono (fun _ _ h => h) (fun _ _ _ _ h => h) (fun h => h) hpost

/-- A narrower choice of requests may be widened again. -/
lemma Meets.widen {post : Except Error α → State → Prop} {only only' : Request → State → Prop}
    {p : Plan α} (hp : p.Meets (c.within only) post) (h : ∀ r s, only r s → only' r s) :
    p.Meets (c.within only') post :=
  hp.mono (fun _ _ hr => ⟨hr.1, h _ _ hr.2⟩) (fun _ _ _ _ h => h) (fun h => h) (fun _ _ h => h)

/-- A choice of requests may be left open. -/
lemma Meets.of_within {post : Except Error α → State → Prop} {only : Request → State → Prop}
    {p : Plan α} (hp : p.Meets (c.within only) post) : p.Meets c post :=
  hp.mono (fun _ _ h => h.1) (fun _ _ _ _ h => h) (fun h => h) (fun _ _ h => h)

/-- Two contracts that are met may be joined. -/
lemma Meets.both {post post' : Except Error α → State → Prop} {p : Plan α} (hp : p.Meets c post)
    (hp' : p.Meets c' post') : p.Meets (c.both c') fun a s => post a s ∧ post' a s := by
  induction p with
  | stop result s =>
    match result, hp, hp' with
    | .ok a, hp, hp' => exact ⟨hp, hp'⟩
    | .error (.error e), hp, hp' => exact ⟨hp, hp'⟩
    | .error .fault, hp, hp' => exact ⟨hp, hp'⟩
  | ask r s next ih =>
    exact ⟨⟨hp.1, hp'.1⟩, fun a t ha => ih a t (hp.2 a t ha.1) (hp'.2 a t ha.2)⟩

lemma Meets.bind {mid : Except Error α → State → Prop} {post : Except Error β → State → Prop}
    {p : Plan α} {f : α → Run β} (hp : p.Meets c mid)
    (hok : ∀ a s, mid (.ok a) s → (f a s).Meets c post)
    (herr : ∀ e s, mid (.error e) s → post (.error e) s) : (p.bind f).Meets c post := by
  induction p with
  | stop result s =>
    match result, hp with
    | .ok a, hp => exact hok a s hp
    | .error (.error e), hp => exact herr e s hp
    | .error .fault, hp => exact hp
  | ask r s next ih => exact ⟨hp.1, fun a t ha => ih a t (hp.2 a t ha)⟩

lemma Meets.attempt {post : Except Error (Except Error α) → State → Prop} {p : Plan α}
    (hp : p.Meets c fun result s => post (.ok result) s) : p.attempt.Meets c post := by
  induction p with
  | stop result s =>
    match result, hp with
    | .ok a, hp => exact hp
    | .error (.error e), hp => exact hp
    | .error .fault, hp => exact hp
  | ask r s next ih => exact ⟨hp.1, fun a t ha => ih a t (hp.2 a t ha)⟩

lemma Meets.atEnd {post : Except Error α → State → Prop} {f : State → State} {p : Plan α}
    (hp : p.Meets c fun result s => post result (f s)) : (p.atEnd f).Meets c post := by
  induction p with
  | stop result s =>
    match result, hp with
    | .ok a, hp => exact hp
    | .error (.error e), hp => exact hp
    | .error .fault, hp => exact hp
  | ask r s next ih => exact ⟨hp.1, fun a t ha => ih a t (hp.2 a t ha)⟩

end Plan

lemma Run.request_meets {post : Except Error Value → State → Prop} {r : Request} {s : State}
    (hr : c.may r s) (h : ∀ a t, c.gives r s a t → post a t) :
    (Run.request r s).Meets c post := by
  refine ⟨hr, fun a t ha => ?_⟩
  cases a with
  | ok v => exact h (.ok v) t ha
  | error e => exact h (.error e) t ha

namespace Outcome

/-- The outcome of a request that is answered. -/
def answered (a : Except Error α) (s : State) : Outcome α := (a.mapError .error, s)

/-- Ends with `post`, or is at fault where that may be, or runs out of fuel. -/
def Meets (faults : Prop) (post : Except Error α → State → Prop) : Outcome α → Prop
  | (.ok a, s) => post (.ok a) s
  | (.error (.error e), s) => post (.error e) s
  | (.error .fault, _) => faults
  | (.error .exhausted, _) => True

lemma cases (o : Outcome α) : (∃ a s, o = answered a s) ∨
    (∃ s, o = (.error .fault, s)) ∨ ∃ s, o = (.error .exhausted, s) := by
  match o with
  | (.ok a, s) => exact .inl ⟨.ok a, s, rfl⟩
  | (.error (.error e), s) => exact .inl ⟨.error e, s, rfl⟩
  | (.error .fault, s) => exact .inr (.inl ⟨s, rfl⟩)
  | (.error .exhausted, s) => exact .inr (.inr ⟨s, rfl⟩)

lemma eq_answered {o : Outcome α} {a : Except Error α} (h : o.1 = a.mapError .error) :
    o = answered a o.2 :=
  Prod.ext h rfl

lemma answered_ne_exhausted (a : Except Error α) (s : State) :
    (answered a s).1 ≠ .error .exhausted := by
  cases a <;> nofun

lemma meets_answered {faults : Prop} {post : Except Error α → State → Prop}
    {a : Except Error α} {s : State} : (answered a s).Meets faults post ↔ post a s := by
  cases a <;> rfl

end Outcome

namespace Plan

variable {answer : Answer} {r : Request} {s : State} {next : Except Error Value → State → Plan α}

lemma execute_ask_answered {a : Except Error Value} {t : State}
    (h : answer r s = .answered a t) :
    (ask r s next).execute answer = (next a t).execute answer := by
  rw [execute, h]
  cases a <;> rfl

lemma execute_ask_fault {t : State} (h : answer r s = (.error .fault, t)) :
    (ask r s next).execute answer = (.error .fault, t) := by
  rw [execute, h]

lemma execute_ask_exhausted {t : State} (h : answer r s = (.error .exhausted, t)) :
    (ask r s next).execute answer = (.error .exhausted, t) := by
  rw [execute, h]

end Plan

/-- A request on its own comes to what is answered. -/
lemma Run.request_execute (answer : Answer) (r : Request) (s : State) :
    (Run.request r s).execute answer = answer r s := by
  obtain ⟨a, t, h⟩ | ⟨t, h⟩ | ⟨t, h⟩ := (answer r s).cases
  · rw [Run.request, Plan.execute_ask_answered h, h]
    rfl
  · rw [Run.request, Plan.execute_ask_fault h, h]
  · rw [Run.request, Plan.execute_ask_exhausted h, h]

/-- A plan that meets a contract ends as it should if the answers are what the contract says. -/
theorem Plan.Meets.execute {post : Except Error α → State → Prop} {answer : Answer} {p : Plan α}
    (hp : p.Meets c post)
    (hanswer : ∀ r s, c.may r s → (answer r s).Meets c.faults (c.gives r s)) :
    (p.execute answer).Meets c.faults post := by
  induction p with
  | stop result s =>
    match result, hp with
    | .ok a, hp => exact hp
    | .error (.error e), hp => exact hp
    | .error .fault, hp => exact hp
  | ask r s next ih =>
    have ha := hanswer r s hp.1
    obtain ⟨a, t, h⟩ | ⟨t, h⟩ | ⟨t, h⟩ := (answer r s).cases
    · rw [execute_ask_answered h]
      rw [h, Outcome.meets_answered] at ha
      exact ih a t (hp.2 a t ha)
    · rw [execute_ask_fault h]
      rwa [h] at ha
    · rw [execute_ask_exhausted h]
      exact trivial

/-- If all requests that may be asked are served as the contract says, the machine answers them as
the contract says. -/
theorem Machine.perform_meets {m : Machine}
    (h : ∀ r s, c.may r s → (m.serve r s).Meets c (c.gives r s)) (fuel : Nat) (r : Request)
    (s : State) (hr : c.may r s) : (m.perform fuel r s).Meets c.faults (c.gives r s) := by
  induction fuel generalizing r s with
  | zero => exact trivial
  | succ fuel ih => exact (h r s hr).execute fun r s hr => ih r s hr

/-- A plan runs out of fuel only where a request does that may be asked. -/
lemma Plan.Meets.exists_exhausted {post : Except Error α → State → Prop} {answer : Answer}
    {p : Plan α} {t : State} (hp : p.Meets c post)
    (hanswer : ∀ r s, c.may r s → (answer r s).Meets c.faults (c.gives r s))
    (h : p.execute answer = (.error .exhausted, t)) :
    ∃ r s, c.may r s ∧ answer r s = (.error .exhausted, t) := by
  induction p with
  | stop result s =>
    match result, hp with
    | .ok a, _ => cases h
    | .error (.error e), _ => cases h
    | .error .fault, _ => cases h
  | ask r s next ih =>
    have hgives := hanswer r s hp.1
    obtain ⟨a, u, ha⟩ | ⟨u, ha⟩ | ⟨u, ha⟩ := (answer r s).cases
    · rw [execute_ask_answered ha] at h
      rw [ha, Outcome.meets_answered] at hgives
      exact ih a u (hp.2 a u hgives) h
    · rw [execute_ask_fault ha] at h
      cases h
    · rw [execute_ask_exhausted ha] at h
      cases h
      exact ⟨r, s, hp.1, ha⟩

/-- When the machine runs out of fuel, it is left in a state in which a request was asked. -/
lemma Machine.may_of_exhausted {m : Machine}
    (h : ∀ r s, c.may r s → (m.serve r s).Meets c (c.gives r s)) {fuel : Nat} {r : Request}
    {s t : State} (hr : c.may r s) (ht : m.perform fuel r s = (.error .exhausted, t)) :
    ∃ q, c.may q t := by
  induction fuel generalizing r s with
  | zero =>
    cases ht
    exact ⟨r, hr⟩
  | succ fuel ih =>
    have hanswer (q : Request) (u : State) (hq : c.may q u) := perform_meets h fuel q u hq
    obtain ⟨q, u, hq, hu⟩ := (h r s hr).exists_exhausted hanswer ht
    exact ih hq hu

/-! ### Runs from state to state -/

/-- Fit states are related to themselves and lead to fit ones, and what is related in steps is so as
a whole. -/
structure Chained (fit : State → Prop) (rel : State → State → Prop) : Prop where
  refl : ∀ s, fit s → rel s s
  trans : ∀ s t u, rel s t → rel t u → rel s u
  fit : ∀ s t, fit s → rel s t → fit t

/-- From every fit state a run meets the contract and ends in a related state, and with an error
only if it may fail. -/
def Run.Leads (c : Contract) (fit : State → Prop) (rel : State → State → Prop) (fails : Prop)
    (x : Run α) : Prop :=
  ∀ s, fit s → (x s).Meets c fun result t => rel s t ∧ ∀ e, result = .error e → fails

namespace Run.Leads

variable {fit : State → Prop} {rel : State → State → Prop} {fails : Prop} {x : Run α}

lemma fault (hc : c.faults) : (Run.halt .fault : Run α).Leads c fit rel fails := fun _ _ => hc

lemma attempt (hx : x.Leads c fit rel True) : (Run.attempt x).Leads c fit rel fails :=
  fun s hs => ((hx s hs).post_mono fun _ _ ht => ⟨ht.1, nofun⟩).attempt

lemma request {r : Request} (hmay : ∀ s, fit s → c.may r s)
    (hgives : ∀ s a t, c.gives r s a t → rel s t) : (Run.request r).Leads c fit rel True :=
  fun s hs => Run.request_meets (hmay s hs) fun a t ht => ⟨hgives s a t ht, fun _ _ => trivial⟩

lemma modify {f : State → State} (hf : ∀ s, fit s → rel s (f s)) :
    (Run.modify f).Leads c fit rel fails :=
  fun s hs => ⟨hf s hs, nofun⟩

variable (h : Chained fit rel)

include h

lemma pure (a : α) : (Pure.pure a : Run α).Leads c fit rel fails :=
  fun s hs => ⟨h.refl s hs, nofun⟩

lemma raise (e : Error) : (Run.raise e : Run α).Leads c fit rel True :=
  fun s hs => ⟨h.refl s hs, fun _ _ => trivial⟩

lemma view (f : State → α) : (Run.view f).Leads c fit rel fails :=
  fun s hs => ⟨h.refl s hs, nofun⟩

lemma bind {f : α → Run β} (hx : x.Leads c fit rel fails)
    (hf : ∀ a, (f a).Leads c fit rel fails) : (x >>= f).Leads c fit rel fails := by
  intro s hs
  refine (hx s hs).bind (fun a t ht => ?_) fun e t ht => ⟨ht.1, fun _ _ => ht.2 e rfl⟩
  refine (hf a t (h.fit s t hs ht.1)).post_mono fun result u hu => ⟨?_, hu.2⟩
  exact h.trans s t u ht.1 hu.1

/-- The level of an evaluation makes no difference where the relation does not see it. -/
lemma evaluate {m : Machine} {expr : Value} {frame : FrameId}
    (hbegin : ∀ s, fit s → rel s (Machine.begin s))
    (hdepth : ∀ s t n, rel s t → rel s { t with depth := n })
    (hwithin : (m.evalWithin expr frame).Leads c fit rel True) :
    (m.evaluate expr frame).Leads c fit rel True := by
  intro s hs
  unfold Machine.evaluate
  dsimp only
  split
  · exact ⟨hbegin s hs, fun _ _ => trivial⟩
  · have hinner := hdepth s _ ((Machine.begin s).depth + 1) (hbegin s hs)
    refine Plan.Meets.atEnd ?_
    refine (hwithin _ (h.fit s _ hs hinner)).post_mono fun result t ht => ⟨?_, ht.2⟩
    exact hdepth s t _ (h.trans s _ t hinner ht.1)

end Run.Leads

end HostedLisp
