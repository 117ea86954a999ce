import HostedLisp.Proofs.Plan.Requests
import HostedLisp.Proofs.Program.Direct

/-!
# Programs that write last

A program that changes the heap only when nothing can fail any more is all or nothing: if it ends
with an error, what is left is what its requests left, one after the other, and it has changed
nothing itself. Main definitions: `Plan.requests`, `State.after`, `Program.WritesLast`. Main
statement: `Program.WritesLast.run_error`.
-/

namespace HostedLisp

variable {α β : Type}

/-! ### What is left of requests -/

/-- The requests that a plan asks, in their order. -/
def Plan.requests (answer : Answer) : Plan α → List Request
  | stop _ _ => []
  | ask r s next => r ::
      match answer r s with
      | (.ok value, t) => (next (.ok value) t).requests answer
      | (.error (.error e), t) => (next (.error e) t).requests answer
      | (.error _, _) => []

/-- The state that is left when requests are answered one after the other. -/
def State.after (answer : Answer) (s : State) (rs : List Request) : State :=
  rs.foldl (fun t r => (answer r t).2) s

/-- A plan asks each request in the state that the one before it left, and itself changes
nothing. -/
structure Plan.OnlyAsks (answer : Answer) (may : Request → Prop) (s : State) (p : Plan α) :
    Prop where
  leaves : (p.execute answer).2 = s.after answer (p.requests answer)
  may : ∀ q ∈ p.requests answer, may q

namespace Plan

variable {answer : Answer} {r : Request} {s t : State} {may : Request → Prop}
  {next : Except Error Value → State → Plan α}

lemma requests_ask_answered {a : Except Error Value} (h : answer r s = .answered a t) :
    (ask r s next).requests answer = r :: (next a t).requests answer := by
  rw [requests, h]
  cases a <;> rfl

lemma requests_ask_fault (h : answer r s = (.error .fault, t)) :
    (ask r s next).requests answer = [r] := by
  rw [requests, h]

lemma requests_ask_exhausted (h : answer r s = (.error .exhausted, t)) :
    (ask r s next).requests answer = [r] := by
  rw [requests, h]

lemma onlyAsks_stop (result : Except Halt α) (s : State) :
    (stop result s).OnlyAsks answer may s :=
  ⟨rfl, nofun⟩

/-- After an answered request a plan goes on from what was left. -/
lemma OnlyAsks.ask_answered {a : Except Error Value} (h : answer r s = .answered a t)
    (hr : may r) (hnext : (next a t).OnlyAsks answer may t) :
    (ask r s next).OnlyAsks answer may s := by
  have hleft : (answer r s).2 = t := congrArg Prod.snd h
  constructor
  · rw [execute_ask_answered h, requests_ask_answered h, hnext.leaves, State.after, State.after,
      List.foldl_cons, hleft]
  · rw [requests_ask_answered h]
    exact List.forall_mem_cons.2 ⟨hr, hnext.may⟩

/-- A request that has no answer is the last one. -/
lemma OnlyAsks.ask_unanswered {reason : Halt} (h : answer r s = (.error reason, t))
    (hreason : reason = .fault ∨ reason = .exhausted) (hr : may r) :
    (ask r s next).OnlyAsks answer may s := by
  have hleft : (answer r s).2 = t := congrArg Prod.snd h
  obtain rfl | rfl := hreason
  · constructor
    · rw [execute_ask_fault h, requests_ask_fault h, State.after, List.foldl_cons, hleft]
      rfl
    · rw [requests_ask_fault h]
      simpa using hr
  · constructor
    · rw [execute_ask_exhausted h, requests_ask_exhausted h, State.after, List.foldl_cons, hleft]
      rfl
    · rw [requests_ask_exhausted h]
      simpa using hr

end Plan

/-! ### Reading, and writing at the end -/

namespace Program

/-- Looks at the heap and asks what it may, and changes nothing. -/
def Reads (may : Request → Prop) : Program α → Prop
  | done _ | fail _ | fault => True
  | look next => ∀ h, (next h).Reads may
  | change _ _ => False
  | ask r next => may r ∧ ∀ v, (next v).Reads may

/-- Asks for nothing and does not fail. -/
def Concludes : Program α → Prop
  | done _ | fault => True
  | fail _ => False
  | look next => ∀ h, (next h).Concludes
  | change _ next => ∀ answer, (next answer).Concludes
  | ask _ _ => False

/-- Asks what it may, and changes something only when nothing can fail any more. -/
def WritesLast (may : Request → Prop) : Program α → Prop
  | done _ | fail _ | fault => True
  | look next => ∀ h, (next h).WritesLast may
  | change _ next => ∀ answer, (next answer).Concludes
  | ask r next => may r ∧ ∀ v, (next v).WritesLast may

variable {may : Request → Prop} {p : Program α} {f : α → Program β}

lemma Reads.mono {may' : Request → Prop} (hp : p.Reads may) (h : ∀ r, may r → may' r) :
    p.Reads may' := by
  induction p with
  | done | fail | fault => trivial
  | look next ih => exact fun heap => ih heap (hp heap)
  | change => exact hp.elim
  | ask r next ih => exact ⟨h r hp.1, fun v => ih v (hp.2 v)⟩

lemma Reads.bind (hp : p.Reads may) (hf : ∀ a, (f a).Reads may) : (p.bind f).Reads may := by
  induction p with
  | done a => exact hf a
  | fail | fault => trivial
  | look next ih => exact fun h => ih h (hp h)
  | change => exact hp.elim
  | ask r next ih => exact ⟨hp.1, fun v => ih v (hp.2 v)⟩

lemma Concludes.bind (hp : p.Concludes) (hf : ∀ a, (f a).Concludes) : (p.bind f).Concludes := by
  induction p with
  | done a => exact hf a
  | fail => exact hp.elim
  | fault => trivial
  | look next ih => exact fun h => ih h (hp h)
  | change c next ih => exact fun a => ih a (hp a)
  | ask => exact hp.elim

/-- What is read first leaves the rest to fail or to write. -/
lemma Reads.bind_writesLast (hp : p.Reads may) (hf : ∀ a, (f a).WritesLast may) :
    (p.bind f).WritesLast may := by
  induction p with
  | done a => exact hf a
  | fail | fault => trivial
  | look next ih => exact fun h => ih h (hp h)
  | change => exact hp.elim
  | ask r next ih => exact ⟨hp.1, fun v => ih v (hp.2 v)⟩

lemma WritesLast.mono {may' : Request → Prop} (hp : p.WritesLast may)
    (h : ∀ r, may r → may' r) : p.WritesLast may' := by
  induction p with
  | done | fail | fault => trivial
  | look next ih => exact fun heap => ih heap (hp heap)
  | change => exact hp
  | ask r next ih => exact ⟨h r hp.1, fun v => ih v (hp.2 v)⟩

lemma Concludes.writesLast (hp : p.Concludes) : p.WritesLast may := by
  induction p with
  | done | fail | fault => trivial
  | look next ih => exact fun h => ih h (hp h)
  | change => exact hp
  | ask => exact hp.elim

lemma WritesLast.bind (hp : p.WritesLast may) (hf : ∀ a, (f a).Concludes) :
    (p.bind f).WritesLast may := by
  induction p with
  | done a => exact (hf a).writesLast
  | fail | fault => trivial
  | look next ih => exact fun h => ih h (hp h)
  | change c next ih => exact fun a => (hp a).bind hf
  | ask r next ih => exact ⟨hp.1, fun v => ih v (hp.2 v)⟩

/-! ### Runs -/

variable {answer : Answer} {s : State}

lemma run_ask (r : Request) (next : Value → Program α) (s : State) :
    (ask r next).run s = .ask r s fun a t =>
      match a with
      | .ok v => (next v).run t
      | .error e => .stop (.error (.error e)) t := by
  change Plan.ask r s _ = _
  refine congrArg (Plan.ask r s) (funext fun a => funext fun t => ?_)
  cases a <;> rfl

lemma Concludes.run_ne_error (hp : p.Concludes) (e : Error) :
    ((p.run s).execute answer).1 ≠ .error (.error e) := by
  induction p generalizing s with
  | done | fault => nofun
  | fail => exact hp.elim
  | look next ih => exact ih s.heap (hp s.heap)
  | change c next ih => exact ih _ (hp _)
  | ask => exact hp.elim

/-- A program that writes last has written nothing when it ends with an error: its requests are all
that happened. -/
theorem WritesLast.run_error (hp : p.WritesLast may) {e : Error}
    (h : ((p.run s).execute answer).1 = .error (.error e)) :
    (p.run s).OnlyAsks answer may s := by
  induction p generalizing s with
  | done | fail | fault => exact Plan.onlyAsks_stop _ _
  | look next ih => exact ih s.heap (hp s.heap) h
  | change c next => exact absurd h ((hp _).run_ne_error e)
  | ask r next ih =>
    rw [run_ask] at h ⊢
    obtain ⟨a, t, ha⟩ | ⟨t, ha⟩ | ⟨t, ha⟩ := (answer r s).cases
    · refine Plan.OnlyAsks.ask_answered ha hp.1 ?_
      rw [Plan.execute_ask_answered ha] at h
      cases a with
      | ok v => exact ih v (hp.2 v) h
      | error e => exact Plan.onlyAsks_stop _ _
    · exact Plan.OnlyAsks.ask_unanswered ha (.inl rfl) hp.1
    · exact Plan.OnlyAsks.ask_unanswered ha (.inr rfl) hp.1

end Program

end HostedLisp
