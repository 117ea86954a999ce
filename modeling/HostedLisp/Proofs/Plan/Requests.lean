import HostedLisp.Proofs.Plan.Contract
import Mathlib.Order.WellFounded

/-!
# Requests inside requests

Serving a request asks other requests. `Machine.Asks` relates a request in a state to those that
are asked directly while it is served. A request is answered, for some stock of fuel, exactly if
there is no endless chain of requests each of which is asked while the one before is served:
`Machine.not_ends_iff_endless_chain`.
-/

namespace HostedLisp

variable {α : Type} {c : Contract}

namespace Plan

/-- Asks a request in a state, if the requests before it are answered by `answer`. -/
def Asks (answer : Answer) (q : Request) (u : State) : Plan α → Prop
  | stop _ _ => False
  | ask r s next => (r = q ∧ s = u) ∨
    ∃ a t, answer r s = .answered a t ∧ (next a t).Asks answer q u

variable {answer answer' : Answer} {p : Plan α} {q : Request} {u : State}

/-- Answers that last longer give the same outcome. -/
lemma execute_congr (h : ∀ r s, (answer r s).1 ≠ .error .exhausted → answer' r s = answer r s)
    (hp : (p.execute answer).1 ≠ .error .exhausted) :
    p.execute answer' = p.execute answer := by
  induction p with
  | stop => rfl
  | ask r s next ih =>
    have hsame := h r s
    obtain ⟨a, t, ha⟩ | ⟨t, ha⟩ | ⟨t, ha⟩ := (answer r s).cases
    · rw [execute_ask_answered ha] at hp ⊢
      rw [ha] at hsame
      rw [execute_ask_answered (hsame (Outcome.answered_ne_exhausted a t)), ih a t hp]
    · rw [ha] at hsame
      rw [execute_ask_fault ha, execute_ask_fault (hsame (by simp))]
    · rw [execute_ask_exhausted ha] at hp
      exact absurd rfl hp

/-- Answers that agree on what is asked give the same outcome. -/
lemma execute_congr_of_asks (h : ∀ q u, p.Asks answer q u → answer' q u = answer q u) :
    p.execute answer' = p.execute answer := by
  induction p with
  | stop => rfl
  | ask r s next ih =>
    have hfirst := h r s (Or.inl ⟨rfl, rfl⟩)
    obtain ⟨a, t, ha⟩ | ⟨t, ha⟩ | ⟨t, ha⟩ := (answer r s).cases
    · rw [execute_ask_answered (hfirst.trans ha), execute_ask_answered ha]
      exact ih a t fun q u hq => h q u (Or.inr ⟨a, t, ha, hq⟩)
    · rw [execute_ask_fault (hfirst.trans ha), execute_ask_fault ha]
    · rw [execute_ask_exhausted (hfirst.trans ha), execute_ask_exhausted ha]

lemma Asks.congr (h : ∀ r s, (answer r s).1 ≠ .error .exhausted → answer' r s = answer r s)
    (hp : p.Asks answer q u) : p.Asks answer' q u := by
  induction p with
  | stop => exact hp
  | ask r s next ih =>
    obtain heq | ⟨a, t, ha, hnext⟩ := hp
    · exact Or.inl heq
    · have hsame := h r s
      rw [ha] at hsame
      exact Or.inr ⟨a, t, hsame (Outcome.answered_ne_exhausted a t), ih a t hnext⟩

/-- A plan with a continuation goes on from what its first part comes to. -/
lemma execute_bind_eq {β : Type} (p : Plan α) (f : α → Run β) : (p.bind f).execute answer =
    match p.execute answer with
    | (.ok a, t) => (f a t).execute answer
    | (.error e, t) => (.error e, t) := by
  induction p with
  | stop result s => cases result <;> rfl
  | ask r s next ih =>
    rw [bind_ask]
    obtain ⟨a, t, h⟩ | ⟨t, h⟩ | ⟨t, h⟩ := (answer r s).cases
    · rw [execute_ask_answered h, execute_ask_answered h, ih]
    · rw [execute_ask_fault h, execute_ask_fault h]
    · rw [execute_ask_exhausted h, execute_ask_exhausted h]

lemma execute_bind {β : Type} {f : α → Run β} {a : α} {t : State}
    (hp : p.execute answer = (.ok a, t)) : (p.bind f).execute answer = (f a t).execute answer := by
  rw [execute_bind_eq, hp]

lemma exists_of_execute_bind {β : Type} {f : α → Run β} {b : β} {t : State}
    (hp : (p.bind f).execute answer = (.ok b, t)) :
    ∃ a u, p.execute answer = (.ok a, u) ∧ (f a u).execute answer = (.ok b, t) := by
  rw [execute_bind_eq] at hp
  generalize p.execute answer = outcome at hp
  obtain ⟨result, u⟩ := outcome
  cases result with
  | ok a => exact ⟨a, u, rfl, hp⟩
  | error e => cases hp

/-- Whether an error is made a result is decided by what a plan comes to. -/
lemma execute_attempt_eq (p : Plan α) : p.attempt.execute answer =
    (stop (p.execute answer).1 (p.execute answer).2).attempt.execute answer := by
  induction p with
  | stop result s => rfl
  | ask r s next ih =>
    rw [attempt]
    obtain ⟨a, t, h⟩ | ⟨t, h⟩ | ⟨t, h⟩ := (answer r s).cases
    · rw [execute_ask_answered h, execute_ask_answered h, ih]
    · rw [execute_ask_fault h, execute_ask_fault h]
      rfl
    · rw [execute_ask_exhausted h, execute_ask_exhausted h]
      rfl

/-- A change at the end can wait until the end is known to be a value or an error. -/
lemma execute_attempt_bind {post : Except Error α → State → Prop} {f : State → State}
    {k : Except Error α → Run α} (hp : p.Meets c post) (hfaults : ¬c.faults)
    (hanswer : ∀ r s, c.may r s → (answer r s).Meets c.faults (c.gives r s))
    (hk : ∀ result t, post result t → k result t = stop (result.mapError .error) (f t)) :
    (p.attempt.bind k).execute answer = (p.atEnd f).execute answer := by
  induction p with
  | stop result s =>
    match result, hp with
    | .ok a, hp => exact congrArg (execute answer) (hk (.ok a) s hp)
    | .error (.error e), hp => exact congrArg (execute answer) (hk (.error e) s hp)
    | .error .fault, hp => exact absurd hp hfaults
  | ask r s next ih =>
    have hgives := hanswer r s hp.1
    rw [attempt, bind_ask, atEnd]
    obtain ⟨a, t, h⟩ | ⟨t, h⟩ | ⟨t, h⟩ := (answer r s).cases
    · rw [h, Outcome.meets_answered] at hgives
      rw [execute_ask_answered h, execute_ask_answered h]
      exact ih a t (hp.2 a t hgives)
    · rw [execute_ask_fault h, execute_ask_fault h]
    · rw [execute_ask_exhausted h, execute_ask_exhausted h]

/-- What is asked first is asked by the whole. -/
lemma Asks.bind_left {β : Type} {f : α → Run β} (hp : p.Asks answer q u) :
    (p.bind f).Asks answer q u := by
  induction p with
  | stop => exact hp.elim
  | ask r s next ih =>
    obtain heq | ⟨a, t, ha, hnext⟩ := hp
    · exact Or.inl heq
    · exact Or.inr ⟨a, t, ha, ih a t hnext⟩

/-- What is asked after the first part is asked by the whole. -/
lemma Asks.bind_right {β : Type} {f : α → Run β} {a : α} {t : State}
    (hp : p.execute answer = (.ok a, t)) (hf : (f a t).Asks answer q u) :
    (p.bind f).Asks answer q u := by
  induction p with
  | stop result s =>
    cases hp
    exact hf
  | ask r s next ih =>
    obtain ⟨b, w, hb⟩ | ⟨w, hb⟩ | ⟨w, hb⟩ := (answer r s).cases
    · rw [execute_ask_answered hb] at hp
      exact Or.inr ⟨b, w, hb, ih b w hp⟩
    · rw [execute_ask_fault hb] at hp
      cases hp
    · rw [execute_ask_exhausted hb] at hp
      cases hp

/-- What is asked on the way to a result is answered. -/
lemma answered_of_asks {a : α} {t : State} (hp : p.execute answer = (.ok a, t))
    (hq : p.Asks answer q u) : ∃ b w, answer q u = .answered b w := by
  induction p with
  | stop => exact hq.elim
  | ask r s next ih =>
    obtain ⟨b, w, hb⟩ | ⟨w, hb⟩ | ⟨w, hb⟩ := (answer r s).cases
    · obtain ⟨rfl, rfl⟩ | ⟨b', w', hb', hnext⟩ := (hq : _ ∨ _)
      · exact ⟨b, w, hb⟩
      · rw [execute_ask_answered hb'] at hp
        exact ih b' w' hp hnext
    · rw [execute_ask_fault hb] at hp
      cases hp
    · rw [execute_ask_exhausted hb] at hp
      cases hp

lemma Asks.attempt (hp : p.Asks answer q u) : p.attempt.Asks answer q u := by
  induction p with
  | stop => exact hp.elim
  | ask r s next ih =>
    obtain heq | ⟨a, t, ha, hnext⟩ := hp
    · exact Or.inl heq
    · exact Or.inr ⟨a, t, ha, ih a t hnext⟩

lemma Asks.atEnd {f : State → State} (hp : p.Asks answer q u) : (p.atEnd f).Asks answer q u := by
  induction p with
  | stop => exact hp.elim
  | ask r s next ih =>
    obtain heq | ⟨a, t, ha, hnext⟩ := hp
    · exact Or.inl heq
    · exact Or.inr ⟨a, t, ha, ih a t hnext⟩

/-- Only what a contract allows is asked. -/
lemma Meets.may_of_asks {post : Except Error α → State → Prop} (hp : p.Meets c post)
    (hanswer : ∀ r s, c.may r s → (answer r s).Meets c.faults (c.gives r s))
    (h : p.Asks answer q u) : c.may q u := by
  induction p with
  | stop => exact h.elim
  | ask r s next ih =>
    obtain ⟨rfl, rfl⟩ | ⟨a, t, ha, hnext⟩ := (h : _ ∨ _)
    · exact hp.1
    · have hgives := hanswer r s hp.1
      rw [ha, Outcome.meets_answered] at hgives
      exact ih a t (hp.2 a t hgives) hnext

/-- What is asked on the way to an outcome is answered itself. -/
lemma Asks.answered (h : p.Asks answer' q u)
    (hsame : ∀ r s, (answer r s).1 ≠ .error .exhausted → (answer' r s).1 ≠ .error .exhausted →
      answer' r s = answer r s)
    (hp : (p.execute answer).1 ≠ .error .exhausted) : (answer q u).1 ≠ .error .exhausted := by
  induction p with
  | stop => exact h.elim
  | ask r s next ih =>
    have hfirst : (answer r s).1 ≠ .error .exhausted := by
      intro he
      have ha : answer r s = (.error .exhausted, (answer r s).2) := by rw [← he]
      rw [execute_ask_exhausted ha] at hp
      exact hp rfl
    obtain ⟨rfl, rfl⟩ | ⟨a, t, ha, hnext⟩ := (h : _ ∨ _)
    · exact hfirst
    · have heq := hsame r s hfirst (ha ▸ Outcome.answered_ne_exhausted a t)
      rw [execute_ask_answered (heq.symm.trans ha)] at hp
      exact ih a t hnext hp

end Plan

namespace Machine

variable {m : Machine}

/-- While the request of `x` is served in the state of `x`, the request of `y` is asked in the state
of `y`. -/
def Asks (m : Machine) (x y : Request × State) : Prop :=
  ∃ fuel, (m.serve x.1 x.2).Asks (m.perform fuel) y.1 y.2

/-- Some stock of fuel lasts until a request is answered. -/
def Ends (m : Machine) (x : Request × State) : Prop :=
  ∃ fuel, (m.perform fuel x.1 x.2).1 ≠ .error .exhausted

lemma perform_succ (fuel : Nat) (r : Request) (s : State) :
    m.perform (fuel + 1) r s = (m.serve r s).execute (m.perform fuel) := rfl

/-- An evaluation with as many under way as the limit allows is not let in. -/
lemma serve_eval_of_full {s : State} (hs : m.config.maxDepth ≤ s.depth) (expr : Value)
    (frame : FrameId) :
    m.serve (.eval expr frame) s = Run.raise (tooDeep m.config.maxDepth) (begin s) := by
  have hbegin : (begin s).depth = s.depth := by
    unfold begin
    split <;> rfl
  change m.evaluate expr frame s = _
  unfold evaluate
  exact if_pos (hbegin ▸ hs)

/-- A longer stock of fuel gives the same answer. -/
theorem perform_mono {n k : Nat} (hle : n ≤ k) (r : Request) (s : State)
    (h : (m.perform n r s).1 ≠ .error .exhausted) : m.perform k r s = m.perform n r s := by
  induction n generalizing k r s with
  | zero => exact absurd rfl h
  | succ n ih =>
    obtain ⟨k, rfl⟩ : ∃ i, k = i + 1 := ⟨k - 1, by omega⟩
    exact Plan.execute_congr (fun r s hr => ih (by omega) r s hr) h

/-- Two stocks of fuel that both last give the same answer. -/
lemma perform_unique {n k : Nat} {r : Request} {s : State}
    (hn : (m.perform n r s).1 ≠ .error .exhausted)
    (hk : (m.perform k r s).1 ≠ .error .exhausted) : m.perform k r s = m.perform n r s := by
  obtain hle | hle := Nat.le_total n k
  · exact perform_mono hle r s hn
  · exact (perform_mono hle r s hk).symm

/-- A request that is answered asks only requests that need less fuel. -/
lemma Asks.lasts {x y : Request × State} {fuel : Nat} (h : m.Asks x y)
    (hx : (m.perform (fuel + 1) x.1 x.2).1 ≠ .error .exhausted) :
    (m.perform fuel y.1 y.2).1 ≠ .error .exhausted := by
  obtain ⟨k, h⟩ := h
  exact h.answered (fun r s hr hk => perform_unique hr hk) hx

lemma acc_of_ends {x : Request × State} (h : m.Ends x) : Acc (fun y x => m.Asks x y) x := by
  obtain ⟨fuel, h⟩ := h
  induction fuel generalizing x with
  | zero => exact absurd rfl h
  | succ fuel ih => exact Acc.intro x fun y hy => ih (hy.lasts h)

/-- A plan comes to its end if all that it asks is answered in the end. -/
lemma execute_ends {post : Except Error α → State → Prop} {p : Plan α} (hp : p.Meets c post)
    (hanswer : ∀ fuel r s, c.may r s → (m.perform fuel r s).Meets c.faults (c.gives r s))
    (h : ∀ q u, (∃ fuel, p.Asks (m.perform fuel) q u) → m.Ends (q, u)) :
    ∃ fuel, (p.execute (m.perform fuel)).1 ≠ .error .exhausted := by
  induction p with
  | stop result s =>
    refine ⟨0, ?_⟩
    rintro rfl
    exact hp
  | ask r s next ih =>
    obtain ⟨n, hn⟩ := h r s ⟨0, Or.inl ⟨rfl, rfl⟩⟩
    obtain ⟨a, t, ha⟩ | ⟨t, ha⟩ | ⟨t, ha⟩ := (m.perform n r s).cases
    · -- With more fuel the first answer stays the same, so the rest of the plan decides.
      have hlater (k : Nat) : m.perform (max n k) r s = .answered a t :=
        (perform_mono (Nat.le_max_left n k) r s hn).trans ha
      have hgives := hanswer n r s hp.1
      rw [ha, Outcome.meets_answered] at hgives
      obtain ⟨k, hk⟩ := ih a t (hp.2 a t hgives) <| by
        rintro q u ⟨k, hk⟩
        refine h q u ⟨max n k, Or.inr ⟨a, t, hlater k, ?_⟩⟩
        exact hk.congr fun r s hr => perform_mono (Nat.le_max_right n k) r s hr
      refine ⟨max n k, ?_⟩
      rw [Plan.execute_ask_answered (hlater k), Plan.execute_congr
        (fun r s hr => perform_mono (Nat.le_max_right n k) r s hr) hk]
      exact hk
    · refine ⟨n, ?_⟩
      rw [Plan.execute_ask_fault ha]
      simp
    · exact absurd (congrArg Prod.fst ha) hn

lemma ends_of_acc (hserve : ∀ r s, c.may r s → (m.serve r s).Meets c (c.gives r s))
    {x : Request × State} (hx : c.may x.1 x.2) (h : Acc (fun y x => m.Asks x y) x) :
    m.Ends x := by
  induction h with
  | intro x _ ih =>
    have hmeets := hserve x.1 x.2 hx
    have hperform (n : Nat) := perform_meets hserve n
    obtain ⟨fuel, hfuel⟩ := execute_ends hmeets hperform <| by
      rintro q u ⟨n, hn⟩
      exact ih (q, u) ⟨n, hn⟩ (hmeets.may_of_asks (hperform n) hn)
    exact ⟨fuel + 1, hfuel⟩

/-- A request is never answered exactly if there is an endless chain of requests, each of which is
asked while the one before is served. -/
theorem not_ends_iff_endless_chain
    (hserve : ∀ r s, c.may r s → (m.serve r s).Meets c (c.gives r s))
    {x : Request × State} (hx : c.may x.1 x.2) :
    ¬m.Ends x ↔ ∃ chain : Nat → Request × State,
      chain 0 = x ∧ ∀ n, m.Asks (chain n) (chain (n + 1)) := by
  rw [← not_acc_iff_exists_descending_chain (r := fun y x => m.Asks x y)]
  exact not_congr ⟨acc_of_ends, ends_of_acc hserve hx⟩

end Machine

end HostedLisp
