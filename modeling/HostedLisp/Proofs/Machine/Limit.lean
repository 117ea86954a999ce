import HostedLisp.Proofs.Debugger.Inspection
import HostedLisp.Proofs.Debugger.Solitude
import HostedLisp.Proofs.Machine.Compositional
import HostedLisp.Proofs.Machine.Termination

/-!
# The limit of evaluations under way

The limit shows only where it is met. As long as no request meets it, the requests are served alike
under every higher limit, so the whole run is the same. A run without a user that ends in a value
has met no limit: an error that a request is answered with is passed on by everything that asked for
it, up to the end of the run. Main statement: `Interpreter.run_limited`.
-/

namespace HostedLisp

variable {α β : Type}

/-- The machine with another limit of evaluations under way. -/
def Machine.limited (m : Machine) (limit : Nat) : Machine :=
  { m with config := { m.config with maxDepth := limit } }

/-- An evaluation that is to begin with as many under way as the limit allows. -/
def Machine.MeetsLimit (limit : Nat) (x : Request × State) : Prop :=
  (∃ expr frame, x.1 = .eval expr frame) ∧ limit ≤ x.2.depth

/-! ### Requests below the limit -/

namespace Machine

variable {m : Machine} {n k : Nat} {r : Request} {s t : State}

lemma serve_limited (hle : n ≤ k) (h : ¬MeetsLimit n (r, s)) :
    (m.limited k).serve r s = (m.limited n).serve r s := by
  cases r with
  | eval expr frame =>
    have hbelow : s.depth < n := by
      by_contra hlimit
      exact h ⟨⟨expr, frame, rfl⟩, by simpa using hlimit⟩
    have hn : ¬n ≤ (begin s).depth := by
      rw [(begin_heap s).2]
      omega
    have hk : ¬k ≤ (begin s).depth := fun hlimit => hn (hle.trans hlimit)
    change (m.limited k).evaluate expr frame s = (m.limited n).evaluate expr frame s
    unfold evaluate
    dsimp only
    exact (if_neg hk).trans (if_neg hn).symm
  | _ => rfl

/-- A request inside which no evaluation meets the limit is answered alike under every higher
limit. -/
theorem perform_limited (hle : n ≤ k) (fuel : Nat)
    (h : ∀ y, Relation.ReflTransGen (m.limited n).Asks (r, s) y → ¬MeetsLimit n y) :
    (m.limited k).perform fuel r s = (m.limited n).perform fuel r s := by
  induction fuel generalizing r s with
  | zero => rfl
  | succ fuel ih =>
    rw [perform_succ, perform_succ, serve_limited hle (h _ .refl)]
    refine Plan.execute_congr_of_asks fun q u hq => ih fun y hy => ?_
    exact h y (hy.head ⟨fuel, hq⟩)

end Machine

/-! ### Errors that are passed on -/

/-- There is no user, and no pause is asked for. -/
abbrev State.Unattended (s : State) : Prop := s.debugger.Unattended

/-- From an unattended state on, asks in unattended states, and stops with an error as soon as a
request is answered with one. -/
def Plan.PassesErrors : Plan α → Prop
  | stop _ s => s.Unattended
  | ask _ s next => s.Unattended ∧
    (∀ e t, t.Unattended → ∃ reason u, next (.error e) t = stop (.error reason) u ∧ u.Unattended) ∧
    ∀ v t, t.Unattended → (next (.ok v) t).PassesErrors

namespace Plan.PassesErrors

variable {p : Plan α}

lemma bind {f : α → Run β} (hp : p.PassesErrors)
    (hf : ∀ a s, s.Unattended → (f a s).PassesErrors) : (p.bind f).PassesErrors := by
  induction p with
  | stop result s =>
    cases result with
    | ok a => exact hf a s hp
    | error reason => exact hp
  | ask r s next ih =>
    obtain ⟨hs, herr, hok⟩ := hp
    refine ⟨hs, fun e t ht => ?_, fun v t ht => ih (.ok v) t (hok v t ht)⟩
    obtain ⟨reason, u, hnext, hu⟩ := herr e t ht
    exact ⟨reason, u, congrArg (Plan.bind · f) hnext, hu⟩

lemma atEnd {f : State → State} (hf : ∀ s : State, s.Unattended → (f s).Unattended)
    (hp : p.PassesErrors) : (p.atEnd f).PassesErrors := by
  induction p with
  | stop result s => exact hf s hp
  | ask r s next ih =>
    obtain ⟨hs, herr, hok⟩ := hp
    refine ⟨hs, fun e t ht => ?_, fun v t ht => ih (.ok v) t (hok v t ht)⟩
    obtain ⟨reason, u, hnext, hu⟩ := herr e t ht
    exact ⟨reason, f u, congrArg (Plan.atEnd f) hnext, hf u hu⟩

/-- An error may be caught if it is raised again, in whatever form. -/
lemma attempt {f : Except Error α → Run β} (hp : p.PassesErrors)
    (hok : ∀ a s, s.Unattended → (f (.ok a) s).PassesErrors)
    (herr : ∀ e s, s.Unattended → ∃ reason, f (.error e) s = stop (.error reason) s) :
    (p.attempt.bind f).PassesErrors := by
  induction p with
  | stop result s =>
    match result, hp with
    | .ok a, hp => exact hok a s hp
    | .error (.error e), hp =>
      obtain ⟨reason, hreason⟩ := herr e s hp
      change (f (.error e) s).PassesErrors
      rw [hreason]
      exact hp
    | .error .fault, hp => exact hp
    | .error .exhausted, hp => exact hp
  | ask r s next ih =>
    obtain ⟨hs, hstops, hgoes⟩ := hp
    refine ⟨hs, fun e t ht => ?_, fun v t ht => ih (.ok v) t (hgoes v t ht)⟩
    obtain ⟨reason, u, hnext, hu⟩ := hstops e t ht
    dsimp only
    rw [hnext]
    match reason with
    | .error e' =>
      obtain ⟨reason', hreason⟩ := herr e' u hu
      exact ⟨reason', u, hreason, hu⟩
    | .fault => exact ⟨.fault, u, rfl, hu⟩
    | .exhausted => exact ⟨.exhausted, u, rfl, hu⟩

variable {answer : Answer}

lemma unattended (hp : p.PassesErrors)
    (hanswer : ∀ r s, s.Unattended → (answer r s).2.Unattended) :
    (p.execute answer).2.Unattended := by
  induction p with
  | stop => exact hp
  | ask r s next ih =>
    obtain ⟨hs, herr, hok⟩ := hp
    have ht := hanswer r s hs
    obtain ⟨a, t, ha⟩ | ⟨t, ha⟩ | ⟨t, ha⟩ := (answer r s).cases
    · rw [ha] at ht
      rw [execute_ask_answered ha]
      cases a with
      | ok v => exact ih (.ok v) t (hok v t ht)
      | error e =>
        obtain ⟨reason, u, hnext, hu⟩ := herr e t ht
        rw [hnext]
        exact hu
    · rwa [execute_ask_fault ha, ← congrArg Prod.snd ha]
    · rwa [execute_ask_exhausted ha, ← congrArg Prod.snd ha]

/-- If the end is a value, every request on the way was answered with one. -/
lemma value_of_asks (hp : p.PassesErrors)
    (hanswer : ∀ r s, s.Unattended → (answer r s).2.Unattended) {a : α} {t : State}
    (hvalue : p.execute answer = (.ok a, t)) {q : Request} {u : State} (hq : p.Asks answer q u) :
    u.Unattended ∧ ∃ v w, answer q u = (.ok v, w) := by
  induction p with
  | stop => exact hq.elim
  | ask r s next ih =>
    obtain ⟨hs, herr, hok⟩ := hp
    obtain ⟨b, w, hb⟩ | ⟨w, hb⟩ | ⟨w, hb⟩ := (answer r s).cases
    · have hw := hanswer r s hs
      rw [hb] at hw
      rw [execute_ask_answered hb] at hvalue
      cases b with
      | error e =>
        obtain ⟨reason, z, hnext, -⟩ := herr e w hw
        rw [hnext] at hvalue
        cases hvalue
      | ok v =>
        obtain ⟨rfl, rfl⟩ | ⟨b, z, hz, hnext⟩ := (hq : _ ∨ _)
        · exact ⟨hs, v, w, hb⟩
        · rw [hb] at hz
          cases b with
          | error e => cases hz
          | ok v' =>
            cases hz
            exact ih (.ok v) w (hok v w hw) hvalue hnext
    · rw [execute_ask_fault hb] at hvalue
      cases hvalue
    · rw [execute_ask_exhausted hb] at hvalue
      cases hvalue

end Plan.PassesErrors

/-- From every unattended state on, a run passes errors on. -/
def Run.PassesErrors (x : Run α) : Prop := ∀ s, s.Unattended → (x s).PassesErrors

namespace Run.PassesErrors

variable {x : Run α} {f : α → Run β}

lemma pure (a : α) : (Pure.pure a : Run α).PassesErrors := fun _ hs => hs

lemma halt (reason : Halt) : (Run.halt reason : Run α).PassesErrors := fun _ hs => hs

lemma bind (hx : x.PassesErrors) (hf : ∀ a, (f a).PassesErrors) : (x >>= f).PassesErrors :=
  fun s hs => (hx s hs).bind hf

lemma view (f : State → α) : (Run.view f).PassesErrors := fun _ hs => hs

lemma modify {f : State → State} (hf : ∀ s : State, s.Unattended → (f s).Unattended) :
    (Run.modify f).PassesErrors :=
  fun s hs => hf s hs

lemma changeHeap (f : Heap → Heap) : (Run.changeHeap f).PassesErrors := modify fun _ hs => hs

lemma display (event : Debugger.Event) : (Run.display event).PassesErrors := modify fun _ hs => hs

lemma request (r : Request) : (Run.request r).PassesErrors :=
  fun _ hs => ⟨hs, fun e t ht => ⟨.error e, t, rfl, ht⟩, fun _ _ ht => ht⟩

end Run.PassesErrors

/-- Nothing that is made of single steps catches an error. -/
lemma passesErrors_compositional : Run.Compositional Run.PassesErrors where
  pure := .pure
  raise e := .halt (.error e)
  fault := .halt .fault
  bind := .bind
  view := .view
  change := Run.Compositional.of_changeHeap .pure .bind .view .changeHeap
  displayLine _ := .display _
  request := .request

namespace Machine

open Run

variable {m : Machine} {leader : Char} {s t : State}

lemma hold_of_unattended (expr : Value) (frame : FrameId) (hs : s.Unattended) :
    hold leader expr frame s = .stop (.ok none) s := by
  have hheld : isHeld s frame = false := by simp [isHeld, hs.singleStep, hs.stepOutOf]
  rw [hold, bind_apply]
  simp only [view, Plan.bind_stop_ok, hheld]
  rfl

lemma offer_of_unattended (e : Error) (frame : FrameId) (hs : s.Unattended) :
    offer leader e frame s = .stop (.error (.error e)) s :=
  offer_of_alone e hs.interactive

lemma evalList_passesErrors (id : CellId) (frame : FrameId) :
    (m.evalList id frame).PassesErrors := by
  refine PassesErrors.bind (PassesErrors.changeHeap _) fun _ => ?_
  refine PassesErrors.bind (passesErrors_compositional.traceValue _ _) fun _ => ?_
  intro s hs
  have hpair := passesErrors_compositional.evalPair m id frame s hs
  refine Plan.PassesErrors.attempt hpair (fun value t ht => ?_) fun e t ht => ?_
  · have htrace := passesErrors_compositional.traceValue "=> " value
    exact PassesErrors.bind htrace (fun _ => PassesErrors.pure value) t ht
  · -- the failure is shown with the list, and there is nobody it could be offered to
    refine ⟨.error (locate t.heap (.pair id) e), ?_⟩
    simp only [bind_apply, view, Plan.bind_stop_ok, offer_of_unattended _ _ ht]
    rfl

lemma evalWithin_passesErrors (expr : Value) (frame : FrameId) :
    (m.evalWithin expr frame).PassesErrors := by
  intro s hs
  change Plan.PassesErrors ((hold m.config.leader expr frame s).bind _)
  rw [hold_of_unattended expr frame hs, Plan.bind_stop_ok]
  cases expr with
  | sym name =>
    dsimp only
    rw [bind_apply]
    simp only [view, Plan.bind_stop_ok]
    cases s.heap.lookup? frame name with
    | some value => exact hs
    | none =>
      dsimp only
      rw [offer_of_unattended _ _ hs]
      exact hs
  | pair id => exact evalList_passesErrors id frame s hs
  | _ => exact hs

lemma begin_unattended (hs : s.Unattended) : (begin s).Unattended := by
  unfold begin
  split
  · exact ⟨hs.interactive, hs.singleStep, hs.stepOutOf⟩
  · exact hs

/-- Serving a request passes errors on. -/
theorem serve_passesErrors (r : Request) : (m.serve r).PassesErrors := by
  intro s hs
  cases r with
  | eval expr frame =>
    have hbegin := begin_unattended hs
    change (m.evaluate expr frame s).PassesErrors
    unfold evaluate
    dsimp only
    split
    · exact hbegin
    · have hinner : State.Unattended { begin s with depth := (begin s).depth + 1 } := hbegin
      exact (evalWithin_passesErrors expr frame _ hinner).atEnd fun _ ht => ht
  | apply func args frame => exact passesErrors_compositional.applyTo m func args frame s hs
  | call func operands frame => exact passesErrors_compositional.call m func operands frame s hs
  | pause frame =>
    change Plan.PassesErrors (Plan.bind _ _)
    simp only [view, Plan.bind_stop_ok, hs.interactive]
    exact hs
  | setting which change =>
    cases change with
    | none => exact hs
    | some on => cases which <;> exact ⟨hs.interactive, hs.singleStep, hs.stepOutOf⟩
  | print | isPaused | depth => exact hs

lemma perform_unattended (fuel : Nat) (r : Request) (s : State) (hs : s.Unattended) :
    (m.perform fuel r s).2.Unattended := by
  induction fuel generalizing r s with
  | zero => exact hs
  | succ fuel ih => exact (serve_passesErrors r s hs).unattended ih

/-- What is asked with other stocks of fuel is asked with one that lasts. -/
lemma asks_of_lasting {p : Plan α} {fuel fuel' : Nat} {q : Request} {u : State}
    (h : p.Asks (m.perform fuel') q u) (hp : (p.execute (m.perform fuel)).1 ≠ .error .exhausted) :
    p.Asks (m.perform fuel) q u := by
  induction p with
  | stop => exact h
  | ask r s next ih =>
    obtain heq | ⟨a, t, ha, hnext⟩ := h
    · exact Or.inl heq
    · have hlasts : (m.perform fuel r s).1 ≠ .error .exhausted := by
        intro hexhausted
        rw [Plan.execute_ask_exhausted (t := (m.perform fuel r s).2)
          (by rw [← hexhausted])] at hp
        exact hp rfl
      have hsame : m.perform fuel' r s = m.perform fuel r s :=
        perform_unique hlasts (ha ▸ Outcome.answered_ne_exhausted a t)
      rw [Plan.execute_ask_answered (hsame.symm.trans ha)] at hp
      exact Or.inr ⟨a, t, hsame.symm.trans ha, ih a t hnext hp⟩

/-- Inside a request that is answered with a value, no evaluation meets the limit. -/
theorem not_meetsLimit_of_value {fuel : Nat} {r : Request} {v : Value} (hs : s.Unattended)
    (hvalue : m.perform fuel r s = (.ok v, t)) {y : Request × State}
    (hy : Relation.ReflTransGen m.Asks (r, s) y) : ¬MeetsLimit m.config.maxDepth y := by
  induction fuel generalizing r s v t with
  | zero => cases hvalue
  | succ fuel ih =>
    rw [perform_succ] at hvalue
    obtain rfl | ⟨⟨q, u⟩, ⟨fuel', hq⟩, hrest⟩ := hy.cases_head
    · rintro ⟨⟨expr, frame, rfl⟩, hlimit⟩
      rw [serve_eval_of_full hlimit] at hvalue
      cases hvalue
    · have hasked : (m.serve r s).Asks (m.perform fuel) q u :=
        asks_of_lasting hq (by simp [hvalue])
      obtain ⟨hu, w, z, hw⟩ :=
        (serve_passesErrors r s hs).value_of_asks (perform_unattended fuel) hvalue hasked
      exact ih hu hw hrest

/-- In a program of the host that ends with a result, no evaluation meets the limit. -/
lemma not_meetsLimit_of_result {fuel : Nat} {p : Program α} {a : α} (hs : s.Unattended)
    (hresult : ((p.run s).execute (m.perform fuel)).1 = .ok a) {y : Request × State}
    (hy : m.Reaches (p.run s) y) : ¬MeetsLimit m.config.maxDepth y := by
  obtain ⟨⟨q, u⟩, ⟨fuel', hq⟩, hrest⟩ := hy
  have hasked : (p.run s).Asks (m.perform fuel) q u := asks_of_lasting hq (by simp [hresult])
  obtain ⟨hu, v, w, hv⟩ := (passesErrors_compositional.program p s hs).value_of_asks
    (perform_unattended fuel) (Prod.ext hresult rfl) hasked
  exact not_meetsLimit_of_value hu hv hrest

end Machine

namespace Interpreter

/-- The interpreter with another limit of evaluations under way. -/
def limited (i : Interpreter) (limit : Nat) : Interpreter :=
  { i with machine := i.machine.limited limit }

/-- A higher limit never changes an answer. An evaluation, a call or any other program of the host,
from any state: if no evaluation inside it meets the limit, or if there is neither a user nor a
request to pause and it ends with a result, then under every higher limit the outcome is the same,
and so is the whole state that is left. -/
theorem run_limited {i : Interpreter} {n k fuel : Nat} (hle : n ≤ k) (p : Program α)
    (h : (∀ y, (i.limited n).machine.Reaches (p.run i.state) y → ¬Machine.MeetsLimit n y) ∨
      (i.state.debugger.Unattended ∧ ∃ a, ((i.limited n).run fuel p).1 = .ok a)) :
    ((i.limited k).run fuel p).1 = ((i.limited n).run fuel p).1 ∧
      ((i.limited k).run fuel p).2.state = ((i.limited n).run fuel p).2.state := by
  have hbelow : ∀ y, (i.machine.limited n).Reaches (p.run i.state) y → ¬Machine.MeetsLimit n y := by
    obtain h | ⟨hs, a, hresult⟩ := h
    · exact h
    · exact fun y hy => Machine.not_meetsLimit_of_result hs hresult hy
  have hsame : (p.run i.state).execute ((i.machine.limited k).perform fuel) =
      (p.run i.state).execute ((i.machine.limited n).perform fuel) := by
    refine Plan.execute_congr_of_asks fun q u hq => ?_
    exact Machine.perform_limited hle fuel fun y hy => hbelow y ⟨_, ⟨fuel, hq⟩, hy⟩
  have hrun (limit : Nat) : ((i.limited limit).run fuel p).1 =
      ((p.run i.state).execute ((i.machine.limited limit).perform fuel)).1 := rfl
  have hstate (limit : Nat) : ((i.limited limit).run fuel p).2.state =
      ((p.run i.state).execute ((i.machine.limited limit).perform fuel)).2 := rfl
  rw [hrun, hrun, hstate, hstate, hsame]
  exact ⟨rfl, rfl⟩

/-- An interpreter with all libraries, in which a sum is written down. -/
def summing : Interpreter :=
  (full .standard).changeHeap fun h => (h.newChain [.sym ⟨"+"⟩, .int 1, .int 2] .nil).2

/-- Two evaluations under way are enough for the sum, so more change nothing. -/
theorem run_limited_sum : 2 ≤ 256 ∧ summing.state.debugger.Unattended ∧
    ((summing.limited 2).run 3 (.eval (.pair ⟨2⟩) .global)).1 = .ok (.int 3) ∧
    ((summing.limited 256).run 3 (.eval (.pair ⟨2⟩) .global)).1 = .ok (.int 3) := by
  have hle : 2 ≤ 256 := by decide
  have hs : summing.state.debugger.Unattended := ⟨rfl, rfl, rfl⟩
  have hresult : ((summing.limited 2).run 3 (.eval (.pair ⟨2⟩) .global)).1 = .ok (.int 3) := by
    decide +kernel
  have hsame := run_limited hle (.eval (.pair ⟨2⟩) .global) (.inr ⟨hs, _, hresult⟩)
  exact ⟨hle, hs, hresult, hsame.1.trans hresult⟩

/-- An interpreter that is not interactive, whose host asked for a pause before the next evaluation;
a line awaits it. -/
def stepped : Interpreter :=
  let i := full .standard
  { i with state := { i.state with
      debugger := { i.state.debugger with singleStep := true }
      terminal := .ofLines ["(define y (+ 1 1))"] } }

/-- The pause that was asked for takes place all the same, and a line that meets the limit there has
its error shown and no other effect. So the evaluation ends with a value under the lower limit, and
leaves a binding under the higher one only. -/
theorem run_limited_stepped :
    stepped.state.debugger.interactive = false ∧
      ((stepped.limited 3).eval 4 (.int 0) .global).1 = .ok (.int 0) ∧
      ((stepped.limited 3).eval 4 (.int 0) .global).2.state.heap.lookup? .global ⟨"y"⟩ = none ∧
      ((stepped.limited 4).eval 4 (.int 0) .global).2.state.heap.lookup? .global ⟨"y"⟩ =
        some (.int 2) := by
  decide +kernel

end Interpreter

end HostedLisp
