import HostedLisp.Proofs.Program.Writing

/-!
# Programs that only ask

A program that only asks, and never fails itself, ends with a result if all that it asks is answered
with values, and otherwise with the first error that it is answered with. What is known of the
answers is known of its result. Main definition: `Program.Queries`. Main statements:
`Program.Queries.run`, `Program.Queries.exists_result`.
-/

namespace HostedLisp.Program

variable {α β : Type} {may : Request → Prop} {promised : Request → Value → Prop}
  {post : α → Prop}

/-- Asks only what it may, changes nothing, neither fails nor is at fault, and ends with `post` if
the values that it is answered with are `promised`. -/
def Queries (may : Request → Prop) (promised : Request → Value → Prop) (post : α → Prop) :
    Program α → Prop
  | done a => post a
  | fail _ | fault | change _ _ => False
  | look next => ∀ h, (next h).Queries may promised post
  | ask r next => may r ∧ ∀ v, promised r v → (next v).Queries may promised post

namespace Queries

variable {p : Program α}

lemma mono {may' : Request → Prop} {post' : α → Prop} (hp : p.Queries may promised post)
    (hmay : ∀ r, may r → may' r) (hpost : ∀ a, post a → post' a) :
    p.Queries may' promised post' := by
  induction p with
  | done a => exact hpost a hp
  | fail | fault | change => exact hp.elim
  | look next ih => exact fun h => ih h (hp h)
  | ask r next ih => exact ⟨hmay r hp.1, fun v hv => ih v (hp.2 v hv)⟩

lemma bind {post' : β → Prop} {f : α → Program β}
    (hp : p.Queries may promised fun a => (f a).Queries may promised post') :
    (p.bind f).Queries may promised post' := by
  induction p with
  | done a => exact hp
  | fail | fault | change => exact hp.elim
  | look next ih => exact fun h => ih h (hp h)
  | ask r next ih => exact ⟨hp.1, fun v hv => ih v (hp.2 v hv)⟩

lemma reads (hp : p.Queries may (fun _ _ => True) post) : p.Reads may := by
  induction p with
  | done | fail | fault => trivial
  | change => exact hp.elim
  | look next ih => exact fun h => ih h (hp h)
  | ask r next ih => exact ⟨hp.1, fun v => ih v (hp.2 v trivial)⟩

/-- Only what may be asked is asked. -/
lemma may_of_asks {answer : Answer} {s u : State} {q : Request}
    (hp : p.Queries may (fun _ _ => True) post) (hq : (p.run s).Asks answer q u) : may q := by
  induction p generalizing s with
  | done => exact hq.elim
  | fail | fault | change => exact hp.elim
  | look next ih => exact ih s.heap (hp s.heap) hq
  | ask r next ih =>
    rw [run_ask] at hq
    obtain ⟨rfl, rfl⟩ | ⟨a, t, ha, hnext⟩ := (hq : _ ∨ _)
    · exact hp.1
    · cases a with
      | ok v => exact ih v (hp.2 v trivial) hnext
      | error e => exact hnext.elim

/-- If all that is asked is answered, there is a result, or an error that was an answer. -/
theorem run {answer : Answer} {s : State} (hp : p.Queries may promised post)
    (hanswer : ∀ q u, (p.run s).Asks answer q u →
      ∃ a t, answer q u = .answered a t ∧ ∀ v, a = .ok v → promised q v) :
    (∃ a t, (p.run s).execute answer = (.ok a, t) ∧ post a) ∨
      ∃ e t q u, (p.run s).execute answer = (.error (.error e), t) ∧ may q ∧
        (p.run s).Asks answer q u ∧ answer q u = (.error (.error e), t) := by
  induction p generalizing s with
  | done a => exact .inl ⟨a, s, rfl, hp⟩
  | fail | fault | change => exact hp.elim
  | look next ih => exact ih s.heap (hp s.heap) hanswer
  | ask r next ih =>
    rw [run_ask] at hanswer ⊢
    obtain ⟨a, t, ha, hpromised⟩ := hanswer r s (.inl ⟨rfl, rfl⟩)
    rw [Plan.execute_ask_answered ha]
    cases a with
    | error e => exact .inr ⟨e, t, r, s, rfl, hp.1, .inl ⟨rfl, rfl⟩, ha⟩
    | ok v =>
      have hrest := ih v (hp.2 v (hpromised v rfl)) fun q u hq => hanswer q u (.inr ⟨_, t, ha, hq⟩)
      refine hrest.imp id ?_
      rintro ⟨e, w, q, u, he, hmay, hq, hanswered⟩
      exact ⟨e, w, q, u, he, hmay, .inr ⟨_, t, ha, hq⟩, hanswered⟩

/-- On a machine there is a result if each request is answered, for some stock of fuel, with what it
is promised to be. -/
theorem exists_result {m : Machine} {s : State} (hp : p.Queries may promised post)
    (h : ∀ q u, may q → (∃ fuel, (p.run s).Asks (m.perform fuel) q u) →
      ∃ fuel v t, m.perform fuel q u = (.ok v, t) ∧ promised q v) :
    ∃ fuel a t, (p.run s).execute (m.perform fuel) = (.ok a, t) ∧ post a := by
  induction p generalizing s with
  | done a => exact ⟨0, a, s, rfl, hp⟩
  | fail | fault | change => exact hp.elim
  | look next ih => exact ih s.heap (hp s.heap) h
  | ask r next ih =>
    rw [run_ask] at h ⊢
    obtain ⟨n, v, t, hv, hpromised⟩ := h r s hp.1 ⟨0, .inl ⟨rfl, rfl⟩⟩
    -- with more fuel the first answer stays the same, so the rest of the program decides
    have hlater (k : Nat) : m.perform (max n k) r s = .answered (.ok v) t :=
      (Machine.perform_mono (Nat.le_max_left n k) r s (by rw [hv]; nofun)).trans hv
    obtain ⟨k, a, u, hrun, ha⟩ := ih v (hp.2 v hpromised) (s := t) <| by
      rintro q u hq ⟨k, hk⟩
      refine h q u hq ⟨max n k, .inr ⟨.ok v, t, hlater k, ?_⟩⟩
      exact hk.congr fun r s hr => Machine.perform_mono (Nat.le_max_right n k) r s hr
    refine ⟨max n k, a, u, ?_, ha⟩
    rw [Plan.execute_ask_answered (hlater k), ← hrun]
    refine Plan.execute_congr
      (fun r s hr => Machine.perform_mono (Nat.le_max_right n k) r s hr) ?_
    rw [hrun]
    nofun

end Queries

end HostedLisp.Program
