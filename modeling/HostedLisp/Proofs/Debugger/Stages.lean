import HostedLisp.Proofs.Debugger.Pauses
import HostedLisp.Proofs.Machine.Compositional

/-!
# Stages of an evaluation

As long as the user has let no failure pass, an evaluation is free or held by a pause. A failure
that the user lets pass is on its way out from then on: no other one is offered, and no call adds to
its message. `Run.Abides` is the law of a run that goes from stage to stage in this way. Its rules
follow the steps of which runs are made, and the debugger abides by it whatever the user writes:
`converse_abides`, `hold_abides`, `offer_abides`.
-/

namespace HostedLisp

open Debugger

variable {α β : Type} {missed : State → Prop} {s t u : State}

/-- No pause is under way and none is about to begin, and no failure was let pass. -/
structure State.Free (s : State) : Prop extends s.Open where
  pending : s.terminal.log.pending = none

/-- The user let the failure pass in the latest pause, and no call adds to its message. -/
structure State.Passing (e : Error) (s : State) : Prop where
  paused : s.debugger.paused = none
  evaluatingLine : s.debugger.evaluatingLine = false
  interactive : s.debugger.interactive = true
  unwinding : s.debugger.unwinding = true
  log : ∃ p ps, s.terminal.log = ⟨none, p :: ps⟩ ∧ p.passed = some e ∧
    ps.filterMap Pause.passed = []
  located : ∀ h expr, Machine.locate h expr e = e

/-- After a run that began free: an error is either on its way out after it was let pass, or was
not offered so far, of which `missed` is known. -/
def After (missed : State → Prop) : Except Error α → State → Prop
  | .ok _, s => s.Free
  | .error e, s => (s.Free ∧ missed s) ∨ s.Passing e

/-- What a run does to the state, during a pause and outside of pauses. -/
structure Follows (missed : State → Prop) (s : State) (result : Except Error α) (t : State) :
    Prop where
  held : s.Held true → Frozen s t ∧ t.debugger.substitute = none
  free : s.Free → t.depth = s.depth ∧ After missed result t

/-- In an evaluation whose requests can still be asked. -/
def State.Ready (s : State) : Prop := s.Free ∨ s.Held true

lemma Frozen.free (h : Frozen s t) (hs : s.Free) : t.Free where
  depth := h.depth ▸ hs.depth
  paused := h.paused.trans hs.paused
  evaluatingLine := h.evaluatingLine.trans hs.evaluatingLine
  interactive := h.interactive.trans hs.interactive
  unwinding := h.unwinding.trans hs.unwinding
  working := h.broken.trans hs.working
  passed := h.passed.trans hs.passed
  pending := h.log ▸ hs.pending

lemma State.Free.not_held {line : Bool} (h : s.Free) : ¬s.Held line := by
  intro hheld
  have hpaused := hheld.paused
  rw [h.paused] at hpaused
  cases hpaused

/-! The stage does not depend on how many evaluations are under way. -/

lemma State.Free.setDepth {n : Nat} (hn : 0 < n) (h : s.Free) : State.Free { s with depth := n } :=
  ⟨⟨hn, h.paused, h.evaluatingLine, h.interactive, h.unwinding, h.working, h.passed⟩, h.pending⟩

lemma State.Held.setDepth {n : Nat} {line : Bool} (hn : 0 < n) (h : s.Held line) :
    State.Held line { s with depth := n } :=
  ⟨hn, h.paused, h.evaluatingLine, h.substitute, h.working, h.passed⟩

lemma State.Passing.setDepth {e : Error} (n : Nat) (h : s.Passing e) :
    State.Passing e { s with depth := n } :=
  ⟨h.paused, h.evaluatingLine, h.interactive, h.unwinding, h.log, h.located⟩

lemma State.Ready.working (h : s.Ready) : s.terminal.broken = false :=
  h.elim (fun h => h.working) fun h => h.working

lemma State.Ready.depth (h : s.Ready) : 0 < s.depth := h.elim (fun h => h.depth) fun h => h.depth

namespace Follows

lemma of_frozen {a : α} (h : Frozen s t)
    (hsubstitute : s.debugger.substitute = none → t.debugger.substitute = none) :
    Follows missed s (.ok a) t where
  held hs := ⟨h, hsubstitute hs.substitute⟩
  free hs := ⟨h.depth, h.free hs⟩

lemma error (e : Error) (h : missed s) : Follows missed s (.error e : Except Error α) s where
  held hs := ⟨Frozen.refl s, hs.substitute⟩
  free hs := ⟨rfl, Or.inl ⟨hs, h⟩⟩

lemma ready {a : α} (h : Follows missed s (.ok a) t) (hs : s.Ready) : t.Ready := by
  obtain hs | hs := hs
  · exact Or.inl (h.free hs).2
  · exact Or.inr ((h.held hs).1.held hs (h.held hs).2)

lemma trans {a : α} {result : Except Error β} {missed' : State → Prop}
    (h : Follows missed' s (.ok a) t) (h' : Follows missed t result u) :
    Follows missed s result u where
  held hs := by
    obtain ⟨hfrozen, hsubstitute⟩ := h.held hs
    obtain ⟨hfrozen', hsubstitute'⟩ := h'.held (hfrozen.held hs hsubstitute)
    exact ⟨hfrozen.trans hfrozen', hsubstitute'⟩
  free hs := by
    obtain ⟨hdepth, hfree⟩ := h.free hs
    obtain ⟨hdepth', hafter⟩ := h'.free hfree
    exact ⟨hdepth'.trans hdepth, hafter⟩

end Follows

/-- No evaluation and no pause is under way. -/
structure State.AtTop (s : State) : Prop where
  depth : s.depth = 0
  paused : s.debugger.paused = none
  evaluatingLine : s.debugger.evaluatingLine = false

/-- An evaluation of the host begins, with a user at a display on which nothing was shown. -/
structure State.Start (s : State) : Prop extends s.AtTop where
  interactive : s.debugger.interactive = true
  working : s.terminal.broken = false
  log : s.terminal.log = ⟨none, []⟩

lemma State.Start.passed (hs : s.Start) : s.passed = [] := by
  rw [State.passed_of_unpaused hs.paused, hs.log]
  rfl

/-- How an evaluation of the host ends: an error was let pass in it, or else was not offered because
failures are not to be. -/
structure State.Finishes (answer : Except Error Value) (s : State) : Prop where
  top : s.AtTop
  interactive : s.debugger.interactive = true
  value : ∀ v, answer = .ok v → s.passed = []
  error : ∀ e, answer = .error e →
    (s.passed = [] ∧ s.debugger.breakOnError = false) ∨ s.Passing e

/-- Requests are asked only while no failure was let pass. -/
def offering : Contract where
  may r s := s.Ready ∨ (s.Start ∧ ∃ expr frame, r = .eval expr frame)
  gives _ s answer t := Follows (fun _ => True) s answer t ∧ (s.Start → t.Finishes answer)
  faults := True

lemma offering_keepsHeld : offering.KeepsHeld := fun _ _ _ hs =>
  ⟨Or.inl (Or.inr hs), fun _ _ h => h.1.held hs⟩

/-! ### Runs -/

/-- A run that follows the stages of the evaluation. -/
def Run.Abides (missed : State → Prop) (x : Run α) : Prop :=
  ∀ s, s.Ready → (x s).Meets offering (Follows missed s)

namespace Run.Abides

variable {x : Run α} {f : α → Run β}

lemma pure (a : α) : (Pure.pure a : Run α).Abides missed :=
  fun s _ => Follows.of_frozen (Frozen.refl s) id

lemma raise (e : Error) : (Run.raise e : Run α).Abides fun _ => True :=
  fun _ _ => Follows.error e trivial

lemma bind (hx : x.Abides missed) (hf : ∀ a, (f a).Abides missed) : (x >>= f).Abides missed := by
  intro s hs
  refine (hx s hs).bind (fun a t ht => ?_) fun e t ht => ⟨ht.held, ht.free⟩
  exact (hf a t (ht.ready hs)).post_mono fun _ _ h => ht.trans h

lemma view (f : State → α) : (Run.view f).Abides missed :=
  fun s _ => Follows.of_frozen (Frozen.refl s) id

lemma modify {f : State → State} (hf : ∀ s, s.terminal.broken = false → Frozen s (f s))
    (hsubstitute : ∀ s, s.debugger.substitute = none → (f s).debugger.substitute = none) :
    (Run.modify f).Abides missed :=
  fun s hs => Follows.of_frozen (hf s hs.working) (hsubstitute s)

lemma changeHeap (f : Heap → Heap) : (Run.changeHeap f).Abides missed :=
  modify (fun _ _ => ⟨⟨rfl, rfl, rfl, rfl, rfl, rfl⟩, rfl, rfl⟩) fun _ h => h

lemma display {event : Event} (hevent : ∀ l : Log, l.add event = l) :
    (Run.display event).Abides missed :=
  modify (fun _ hs => Frozen.display hs hevent) fun _ h => h

lemma displayLine (text : String) : (Run.displayLine text).Abides missed := display fun _ => rfl

lemma request (r : Request) : (Run.request r).Abides fun _ => True :=
  fun _ hs => request_meets (Or.inl hs) fun _ _ h => h.1

end Run.Abides

/-- What is made of single steps goes from stage to stage as they do. -/
lemma abides_compositional : Run.Compositional (Run.Abides fun _ => True) where
  pure := .pure
  raise := .raise
  fault := fun _ _ => trivial
  bind := .bind
  view := .view
  change := Run.Compositional.of_changeHeap (P := Run.Abides fun _ => True) .pure .bind .view
    .changeHeap
  displayLine := .displayLine
  request := .request

namespace Machine

open Run

variable {m : Machine} {leader : Char} {frame : FrameId}

lemma traceValue_abides (mark : String) (value : Value) :
    (traceValue mark value).Abides missed := by
  refine Abides.bind (Abides.view _) fun on => ?_
  split
  · refine Abides.bind (Abides.view _) fun depth => ?_
    exact Abides.bind (Abides.view _) fun text => Abides.displayLine _
  · exact Abides.pure ()

lemma takeSubstitute_abides : takeSubstitute.Abides missed := by
  refine Abides.bind (Abides.view _) fun value => ?_
  refine Abides.bind (Abides.modify (fun _ _ => ?_) fun _ _ => rfl) fun _ => Abides.pure value
  exact Frozen.changed rfl rfl rfl rfl

/-- What is shown if a pause is asked for during another one. -/
def refusal : Event := .output ("Debugger already active." ++ "\n")

lemma converse_of_held (hs : s.Held true) : converse leader frame s =
    .stop (.ok ()) { s with terminal := s.terminal.display refusal } :=
  converse_of_paused hs.paused

lemma AfterPause.free {line : Option String} (h : AfterPause leader line s t) (hs : s.Open)
    (hpassed : Pause.passed ⟨s.terminal.log.pending, leader, some line⟩ = none) : t.Free where
  depth := h.depth ▸ hs.depth
  paused := h.paused.trans hs.paused
  evaluatingLine := h.evaluatingLine.trans hs.evaluatingLine
  interactive := h.interactive.trans hs.interactive
  unwinding := h.unwinding.trans hs.unwinding
  working := h.broken.trans hs.working
  passed := by
    rw [State.passed_of_unpaused (h.paused.trans hs.paused), h.log, Log.passed,
      List.filterMap_cons_none hpassed]
    exact hs.log_passed
  pending := by rw [h.log]

lemma converse_abides : (converse leader frame).Abides missed := by
  intro s hs
  obtain hs | hs := hs
  · refine (converse_meets offering_keepsHeld hs.toOpen).post_mono ?_
    rintro _ t ⟨rfl, line, h⟩
    refine ⟨fun hheld => absurd hheld hs.not_held, fun _ => ⟨h.depth, h.free hs.toOpen ?_⟩⟩
    simp only [Pause.passed, hs.pending, ite_self]
  · rw [converse_of_held hs]
    exact Follows.of_frozen (Frozen.display hs.working fun _ => rfl) id

lemma hold_abides (expr : Value) (frame : FrameId) :
    (hold leader expr frame).Abides missed := by
  refine Abides.bind (Abides.view _) fun held => ?_
  split
  · refine Abides.bind (Abides.modify (fun _ _ => ?_) fun _ h => h) fun _ => ?_
    · exact Frozen.changed rfl rfl rfl rfl
    · refine Abides.bind (Abides.view _) fun text => ?_
      refine Abides.bind (Abides.display fun _ => rfl) fun _ => ?_
      exact Abides.bind converse_abides fun _ => takeSubstitute_abides
  · exact Abides.pure none

/-! ### Offering a failure -/

lemma occurs_addContext (h : Heap) (expr : Value) (text : String) :
    Text.occurs contextMark.toList (addContext h expr text).toList = true := by
  unfold addContext
  split
  · next hoccurs => exact hoccurs
  · rw [Text.occurs_iff]
    refine ⟨text.toList, ("while evaluating: " ++ h.render expr).toList, ?_⟩
    simp only [String.toList_append, List.append_assoc]

/-- The innermost call that failed is the one that a message shows. -/
lemma locate_locate (h h' : Heap) (expr expr' : Value) (e : Error) :
    locate h' expr' (locate h expr e) = locate h expr e := by
  have hagain (text : String) : addContext h' expr' (addContext h expr text) =
      addContext h expr text := if_pos (occurs_addContext h expr text)
  cases e with
  | eval text => exact congrArg Error.eval (hagain text)
  | type text => exact congrArg Error.type (hagain text)
  | parse | unbound | arity | index | domain | divideByZero => rfl

lemma offer_of_not_breaks (e : Error) (h : s.debugger.breaks = false) :
    offer leader e frame s = .stop (.error (.error e)) s := by
  rw [offer, bind_apply]
  simp only [view, Plan.bind_stop_ok, h]
  rfl

/-- Failures are not to be offered. -/
def Unwatched (s : State) : Prop := s.debugger.breakOnError = false

/-- The state in which the pause that offers a failure begins. -/
def failed (e : Error) (s : State) : State :=
  { s with terminal := s.terminal.display (.failure e) }

lemma failed_open {e : Error} (hs : s.Free) : (failed e s).Open ∧
    (failed e s).terminal.log = ⟨some e, s.terminal.log.pauses⟩ := by
  have hterminal : (failed e s).terminal = s.terminal.record (.failure e) :=
    Terminal.display_of_working hs.working _
  have hlog : (failed e s).terminal.log = ⟨some e, s.terminal.log.pauses⟩ := by
    rw [hterminal, Terminal.log_record]
    rfl
  refine ⟨⟨hs.depth, hs.paused, hs.evaluatingLine, hs.interactive, hs.unwinding, ?_, ?_⟩, hlog⟩
  · rw [hterminal]
    exact hs.working
  · rw [State.passed_of_unpaused (s := failed e s) hs.paused, hlog]
    exact hs.log_passed

lemma free_of_breaks (hs : s.Ready) (h : s.debugger.breaks = true) : s.Free := by
  obtain hs | hs := hs
  · exact hs
  · rw [Controller.breaks_eq_false_of_paused hs.paused] at h
    cases h

/-- What follows the pause that offers a failure. -/
def takeOrPass (e : Error) : Run Value := do
  match ← takeSubstitute with
  | some value => pure value
  | none =>
    changeDebugger fun c => { c with unwinding := true }
    raise e

lemma offer_of_breaks (e : Error) (h : s.debugger.breaks = true) :
    offer leader e frame s = (converse leader frame (failed e s)).bind fun _ => takeOrPass e := by
  rw [offer, bind_apply]
  simp only [view, Plan.bind_stop_ok, h]
  rfl

/-- With a value the evaluation is free again; without one the failure is on its way out. -/
lemma takeOrPass_meets {e : Error} {line : Option String} (hs : s.Free)
    (he : ∀ h expr, locate h expr e = e) (h : AfterPause leader line (failed e s) t) :
    (takeOrPass e t).Meets offering (Follows Unwatched s) := by
  obtain ⟨hopen, hlog⟩ := failed_open (e := e) hs
  have hdepth : t.depth = s.depth := h.depth
  rw [takeOrPass, takeSubstitute, bind_apply, bind_apply]
  simp only [view, changeDebugger, Run.modify, bind_apply, Plan.bind_stop_ok]
  cases hvalue : t.debugger.substitute with
  | some value =>
    have hline : substitutes leader line = true := by
      by_contra hfalse
      rw [h.substitute.2 (by simpa using hfalse)] at hvalue
      cases hvalue
    have hfree := h.free hopen (by simp [Pause.passed, hline])
    refine ⟨fun hheld => absurd hheld hs.not_held, fun _ => ⟨hdepth, ?_⟩⟩
    let taken : Controller := { t.debugger with substitute := none }
    exact (Frozen.changed (d := taken) rfl rfl rfl rfl).free hfree
  | none =>
    have hline : substitutes leader line = false := h.substitute.1 hvalue
    have hlast : t.terminal.log =
        ⟨none, ⟨some e, leader, some line⟩ :: s.terminal.log.pauses⟩ := by rw [h.log, hlog]
    refine ⟨fun hheld => absurd hheld hs.not_held, fun _ => ⟨hdepth, Or.inr ?_⟩⟩
    refine ⟨?_, ?_, ?_, rfl, ⟨_, _, hlast, ?_, hs.log_passed⟩, he⟩
    · exact h.paused.trans hs.paused
    · exact h.evaluatingLine.trans hs.evaluatingLine
    · exact h.interactive.trans hs.interactive
    · simp [Pause.passed, hline]

/-- A failure is offered unless failures are not to be. -/
lemma offer_abides {e : Error} (he : ∀ h expr, locate h expr e = e) (frame : FrameId) :
    (offer leader e frame).Abides Unwatched := by
  intro s hs
  cases hbreaks : s.debugger.breaks with
  | false =>
    rw [offer_of_not_breaks e hbreaks]
    refine ⟨fun hheld => ⟨Frozen.refl s, hheld.substitute⟩, fun hfree => ⟨rfl, Or.inl ⟨hfree, ?_⟩⟩⟩
    simpa [Controller.breaks, hfree.interactive, hfree.evaluatingLine, hfree.unwinding,
      hfree.paused, Unwatched] using hbreaks
  | true =>
    have hfree := free_of_breaks hs hbreaks
    rw [offer_of_breaks e hbreaks]
    refine (converse_meets offering_keepsHeld (failed_open hfree).1).bind ?_ fun _ _ h =>
      absurd h.1 (by simp)
    rintro _ t ⟨-, line, hpause⟩
    exact takeOrPass_meets hfree he hpause

end Machine

end HostedLisp
