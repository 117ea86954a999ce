import HostedLisp.Proofs.Debugger.Exits
import HostedLisp.Proofs.Plan.Contract
import Mathlib.Data.List.Induction

/-!
# Pauses on the terminal

The events of a terminal tell which pauses there were, which failure each of them offered and what
was read last in it. A pause that has ended let its failure pass unless it was left by a command to
resume with a value: that command leaves a pause only if there is such a value. Main definitions:
`Debugger.Log`, `State.passed`. What a pause adds to the log is `Machine.converse_meets`.
-/

namespace HostedLisp

namespace Debugger

/-- Whether a command is one to resume with the value of an expression. -/
def Command.substitutes : Command → Bool
  | .resumeWith _ => true
  | _ => false

/-- Whether what was read is such a command. -/
def substitutes (leader : Char) : Option String → Bool
  | none => false
  | some line =>
    match Command.read leader line.toList with
    | .ok command => command.substitutes
    | .error _ => false

/-- A pause as it shows on a terminal. -/
structure Pause where
  /-- The failure that is offered, if there is one. -/
  offered : Option Error
  leader : Char
  /-- What was read last: a line, or the end of the input. -/
  last : Option (Option String)

/-- The failure that the user let pass when the pause ended. -/
def Pause.passed (p : Pause) : Option Error :=
  if p.last.any (substitutes p.leader) then none else p.offered

/-- An event with which a failure is offered or a pause begins. -/
def Event.Opens : Event → Prop
  | .failure _ | .pause .. => True
  | _ => False

/-- What the events of a terminal tell of pauses. -/
structure Log where
  /-- The failure shown last, until a pause begins. -/
  pending : Option Error
  /-- The pauses, the latest first. -/
  pauses : List Pause

namespace Log

def add (l : Log) : Event → Log
  | .failure e => { l with pending := some e }
  | .pause _ leader => ⟨none, ⟨l.pending, leader, none⟩ :: l.pauses⟩
  | .prompt line => { l with pauses := l.pauses.modifyHead fun p => { p with last := some line } }
  | .held .. | .quit | .output _ => l

def ofEvents (events : List Event) : Log := events.foldl add ⟨none, []⟩

/-- The failures that were let pass, if all pauses have ended. -/
def passed (l : Log) : List Error := l.pauses.filterMap Pause.passed

lemma ofEvents_concat (events : List Event) (e : Event) :
    ofEvents (events ++ [e]) = (ofEvents events).add e := by
  rw [ofEvents, List.foldl_append]
  rfl

lemma tail_add_prompt (l : Log) (line : Option String) :
    (l.add (.prompt line)).pauses.tail = l.pauses.tail := by
  rw [add]
  cases l.pauses <;> rfl

/-- Only what is read last counts. -/
lemma add_prompt_prompt (l : Log) (line last : Option String) :
    (l.add (.prompt line)).add (.prompt last) = l.add (.prompt last) := by
  simp only [add]
  cases l.pauses <;> rfl

/-- If no failure is pending, none was shown since the latest pause began, and that pause offers
what was pending then. -/
theorem exists_of_ofEvents {events : List Event} {p : Pause} {ps : List Pause}
    (h : ofEvents events = ⟨none, p :: ps⟩) :
    ∃ before header after, events = before ++ .pause header p.leader :: after ∧
      ofEvents before = ⟨p.offered, ps⟩ ∧ ∀ e ∈ after, ¬e.Opens := by
  induction events using List.reverseRecOn generalizing p with
  | nil => cases h
  | append_singleton events last ih =>
    rw [ofEvents_concat] at h
    -- An event that opens no pause comes after the one that did.
    have hlater {q : Pause} (hq : ofEvents events = ⟨none, q :: ps⟩) (hleader : q.leader = p.leader)
        (hoffered : q.offered = p.offered) (hlast : ¬last.Opens) :
        ∃ before header after, events ++ [last] = before ++ .pause header p.leader :: after ∧
          ofEvents before = ⟨p.offered, ps⟩ ∧ ∀ e ∈ after, ¬e.Opens := by
      obtain ⟨before, header, after, hevents, hbefore, hafter⟩ := ih hq
      refine ⟨before, header, after ++ [last], ?_, hoffered ▸ hbefore, fun e he => ?_⟩
      · rw [hevents, hleader, List.append_assoc, List.cons_append]
      · obtain he | he := List.mem_append.1 he
        · exact hafter e he
        · exact List.mem_singleton.1 he ▸ hlast
    cases last with
    | failure e => cases h
    | pause header leader =>
      obtain ⟨rfl, rfl⟩ : ⟨(ofEvents events).pending, leader, none⟩ = p ∧
          (ofEvents events).pauses = ps := List.cons.inj (congrArg pauses h)
      exact ⟨events, header, [], rfl, rfl, by simp⟩
    | prompt line =>
      cases hlog : ofEvents events with
      | mk pending pauses =>
        rw [hlog] at h
        cases pauses with
        | nil => cases h
        | cons q qs =>
          cases h
          exact hlater hlog rfl rfl id
    | held | quit | output => exact hlater h rfl rfl id

end Log

namespace Terminal

def log (t : Terminal) : Log := Log.ofEvents t.events.toList

@[simp] lemma log_record (t : Terminal) (event : Event) :
    (t.record event).log = t.log.add event := by
  simp only [log, events_record, Array.toList_push, Log.ofEvents_concat]

lemma display_of_working {t : Terminal} (h : t.broken = false) (event : Event) :
    t.display event = t.record event := by
  rw [display, h]
  rfl

end Terminal

end Debugger

open Debugger

/-- The failures that the user let pass, the latest first, in pauses that have ended. -/
def State.passed (s : State) : List Error :=
  (if s.debugger.paused.isSome then s.terminal.log.pauses.tail
    else s.terminal.log.pauses).filterMap Pause.passed

lemma State.passed_of_unpaused {s : State} (h : s.debugger.paused = none) :
    s.passed = s.terminal.log.passed := by
  rw [passed, h]
  rfl

/-! ### What a pause keeps -/

/-- What a line of the user and the end of a pause leave as it was. -/
structure SameStance (s t : State) : Prop where
  depth : t.depth = s.depth
  paused : t.debugger.paused = s.debugger.paused
  evaluatingLine : t.debugger.evaluatingLine = s.debugger.evaluatingLine
  interactive : t.debugger.interactive = s.debugger.interactive
  unwinding : t.debugger.unwinding = s.debugger.unwinding
  broken : t.terminal.broken = s.terminal.broken

/-- Nothing is read, and no failure and no pause is shown. -/
structure Frozen (s t : State) : Prop extends SameStance s t where
  input : t.terminal.input = s.terminal.input
  log : t.terminal.log = s.terminal.log

lemma SameStance.trans {s t u : State} (h : SameStance s t) (h' : SameStance t u) :
    SameStance s u where
  depth := h'.depth.trans h.depth
  paused := h'.paused.trans h.paused
  evaluatingLine := h'.evaluatingLine.trans h.evaluatingLine
  interactive := h'.interactive.trans h.interactive
  unwinding := h'.unwinding.trans h.unwinding
  broken := h'.broken.trans h.broken

namespace Frozen

variable {s t u : State}

lemma refl (s : State) : Frozen s s := ⟨⟨rfl, rfl, rfl, rfl, rfl, rfl⟩, rfl, rfl⟩

lemma trans (h : Frozen s t) (h' : Frozen t u) : Frozen s u :=
  ⟨h.toSameStance.trans h'.toSameStance, h'.input.trans h.input, h'.log.trans h.log⟩

lemma passed (h : Frozen s t) : t.passed = s.passed := by
  rw [State.passed, State.passed, h.paused, h.log]

lemma changed {d : Controller} (hpaused : d.paused = s.debugger.paused)
    (hline : d.evaluatingLine = s.debugger.evaluatingLine)
    (hinteractive : d.interactive = s.debugger.interactive)
    (hunwinding : d.unwinding = s.debugger.unwinding) : Frozen s { s with debugger := d } :=
  ⟨⟨rfl, hpaused, hline, hinteractive, hunwinding, rfl⟩, rfl, rfl⟩

lemma set (s : State) (which : Setting) (on : Bool) :
    Frozen s { s with debugger := s.debugger.set which on } := by
  cases which <;> exact changed rfl rfl rfl rfl

lemma record (s : State) {event : Event} (hevent : ∀ l : Log, l.add event = l) :
    Frozen s { s with terminal := s.terminal.record event } :=
  ⟨⟨rfl, rfl, rfl, rfl, rfl, rfl⟩, rfl, (s.terminal.log_record event).trans (hevent _)⟩

lemma display (hs : s.terminal.broken = false) {event : Event}
    (hevent : ∀ l : Log, l.add event = l) :
    Frozen s { s with terminal := s.terminal.display event } := by
  rw [Terminal.display_of_working hs]
  exact record s hevent

end Frozen

/-- A pause is under way in an evaluation, after others in which no failure was let pass. The flag
tells whether a line of the user is being evaluated. -/
structure State.Held (line : Bool) (s : State) : Prop where
  depth : 0 < s.depth
  paused : s.debugger.paused.isSome = true
  evaluatingLine : s.debugger.evaluatingLine = line
  substitute : s.debugger.substitute = none
  working : s.terminal.broken = false
  passed : s.passed = []

lemma Frozen.held {line : Bool} {s t : State} (h : Frozen s t) (hs : s.Held line)
    (hsubstitute : t.debugger.substitute = none) : t.Held line where
  depth := h.depth ▸ hs.depth
  paused := h.paused ▸ hs.paused
  evaluatingLine := h.evaluatingLine.trans hs.evaluatingLine
  substitute := hsubstitute
  working := h.broken.trans hs.working
  passed := h.passed.trans hs.passed

/-- No pause is under way, in an evaluation in which no failure was let pass. -/
structure State.Open (s : State) : Prop where
  depth : 0 < s.depth
  paused : s.debugger.paused = none
  evaluatingLine : s.debugger.evaluatingLine = false
  interactive : s.debugger.interactive = true
  unwinding : s.debugger.unwinding = false
  working : s.terminal.broken = false
  passed : s.passed = []

lemma State.Open.log_passed {s : State} (h : s.Open) : s.terminal.log.passed = [] :=
  (State.passed_of_unpaused h.paused).symm.trans h.passed

/-- The evaluations that lines of the user ask for during a pause leave the pause as it is. -/
def Contract.KeepsHeld (c : Contract) : Prop :=
  ∀ expr frame s, s.Held true → c.may (.eval expr frame) s ∧
    ∀ answer t, c.gives (.eval expr frame) s answer t →
      Frozen s t ∧ t.debugger.substitute = none

/-- A run that ends with a value leaves the pause as it is. -/
def EndsHeld {α : Type} (s : State) (result : Except Error α) (t : State) : Prop :=
  (∃ a, result = .ok a) ∧ Frozen s t ∧ t.debugger.substitute = none

namespace Machine

open Run

variable {c : Contract} {leader : Char} {frame : FrameId} {s : State}

lemma evalLine_meets (hc : c.KeepsHeld) (source : List Char) (hs : s.Held false) :
    (evalLine source frame s).Meets c (EndsHeld s) := by
  cases hread : Datum.read (String.ofList source) with
  | error e =>
    simp only [evalLine, hread]
    exact ⟨⟨_, rfl⟩, Frozen.refl s, hs.substitute⟩
  | ok d =>
    let placed := s.heap.apply (.place d)
    let inner : State :=
      { s with heap := placed.2, debugger := { s.debugger with evaluatingLine := true } }
    have heq : evalLine source frame s = (attempt (request (.eval placed.1 frame)) inner).bind
        (fun result => (do
          changeDebugger fun c => { c with evaluatingLine := s.debugger.evaluatingLine }
          pure result : Run (Except Error Value))) := by
      simp only [evalLine, hread]
      rfl
    have hinner : inner.Held true :=
      ⟨hs.depth, hs.paused, rfl, hs.substitute, hs.working, hs.passed⟩
    obtain ⟨hmay, hgives⟩ := hc placed.1 frame inner hinner
    have hrequest : (attempt (request (.eval placed.1 frame)) inner).Meets c (EndsHeld inner) :=
      Plan.Meets.attempt (request_meets hmay fun a t ht => ⟨⟨a, rfl⟩, hgives a t ht⟩)
    rw [heq]
    refine hrequest.bind (fun result t ht => ?_) fun e t ht => absurd ht.1 (by simp)
    obtain ⟨-, hfrozen, hsubstitute⟩ := ht
    refine ⟨⟨result, rfl⟩, ⟨⟨hfrozen.depth, hfrozen.paused, rfl, ?_, ?_, ?_⟩, ?_, ?_⟩, hsubstitute⟩
    · exact hfrozen.interactive
    · exact hfrozen.unwinding
    · exact hfrozen.broken
    · exact hfrozen.input
    · exact hfrozen.log

/-- After a command of the user, which may be one to resume with a value: the pause ends with a
value exactly if it is and the pause ends. -/
def Obeyed (s : State) (substitutes : Bool) (result : Except Error Flow) (t : State) : Prop :=
  ∃ flow, result = .ok flow ∧ Frozen s t ∧
    (t.debugger.substitute = none ↔ ¬(substitutes = true ∧ flow = .resume))

lemma Obeyed.plain {flow : Flow} {t : State} (h : Frozen s t)
    (hsubstitute : t.debugger.substitute = none) : Obeyed s false (.ok flow) t :=
  ⟨flow, rfl, h, by simp [hsubstitute]⟩

lemma Obeyed.stay {substitutes : Bool} {t : State} (h : Frozen s t)
    (hsubstitute : t.debugger.substitute = none) : Obeyed s substitutes (.ok .stay) t :=
  ⟨.stay, rfl, h, by simp [hsubstitute]⟩

lemma Obeyed.output {substitutes : Bool} {t : State} (h : Frozen s t) (hs : s.Held false)
    (hsubstitute : t.debugger.substitute = none) (text : String) :
    Obeyed s substitutes (.ok .stay)
      { t with terminal := t.terminal.display (.output text) } :=
  .stay (h.trans (Frozen.display (h.broken.trans hs.working) fun _ => rfl)) hsubstitute

lemma obey_meets (hc : c.KeepsHeld) (command : Command) (hs : s.Held false) :
    (obey leader frame command s).Meets c (Obeyed s command.substitutes) := by
  have hself := Frozen.refl s
  cases command with
  | help | backtrace | dump | frame => exact Obeyed.output hself hs hs.substitute _
  | breakOnError on => exact Obeyed.output (Frozen.set s .breakOnError on) hs hs.substitute _
  | trace on => exact Obeyed.output (Frozen.set s .trace on) hs hs.substitute _
  | resume =>
    exact Obeyed.plain (Frozen.changed (d := s.debugger.clearSteps) rfl rfl rfl rfl) hs.substitute
  | step =>
    exact Obeyed.plain (Frozen.changed (d := { s.debugger with singleStep := true })
      rfl rfl rfl rfl) hs.substitute
  | quit => exact Obeyed.plain (Frozen.record s fun _ => rfl) hs.substitute
  | stepOut =>
    rw [obey, bind_apply]
    simp only [view, Plan.bind_stop_ok]
    cases s.heap.parent? frame with
    | none => exact Obeyed.output hself hs hs.substitute _
    | some _ =>
      exact Obeyed.plain (Frozen.changed (d := { s.debugger with stepOutOf := some frame })
        rfl rfl rfl rfl) hs.substitute
  | resumeWith source =>
    refine (evalLine_meets hc source hs).bind (fun result t ht => ?_) fun e t ht =>
      absurd ht.1 (by simp)
    obtain ⟨-, hfrozen, hsubstitute⟩ := ht
    cases result with
    | ok value =>
      refine ⟨.resume, rfl, hfrozen.trans (Frozen.changed rfl rfl rfl rfl), ?_⟩
      simp [Command.substitutes]
    | error e => exact Obeyed.output hfrozen hs hsubstitute _
  | evaluate source =>
    refine (evalLine_meets hc source hs).bind (fun result t ht => ?_) fun e t ht =>
      absurd ht.1 (by simp)
    obtain ⟨-, hfrozen, hsubstitute⟩ := ht
    cases result with
    | ok value => exact Obeyed.output hfrozen hs hsubstitute _
    | error e => exact Obeyed.output hfrozen hs hsubstitute _

lemma obeyLine_meets (hc : c.KeepsHeld) (line : String) (hs : s.Held false) :
    (obeyLine leader frame line s).Meets c (Obeyed s (substitutes leader (some line))) := by
  unfold obeyLine
  split
  · exact Obeyed.stay (Frozen.refl s) hs.substitute
  · rw [substitutes]
    cases Command.read leader line.toList with
    | error refusal => exact Obeyed.output (Frozen.refl s) hs hs.substitute _
    | ok command => exact obey_meets hc command hs

/-- At the end of a pause: `line` was read last, and the pause has a value exactly if it is a
command to resume with one. -/
structure Ended (leader : Char) (line : Option String) (s t : State) : Prop extends
    SameStance s t where
  log : t.terminal.log = s.terminal.log.add (.prompt line)
  substitute : t.debugger.substitute = none ↔ substitutes leader line = false

lemma afterLine_spec {line : String} {rest : List String}
    (hinput : s.terminal.input = line :: rest) :
    SameStance s s.afterLine ∧
      s.afterLine.terminal.log = s.terminal.log.add (.prompt (some line)) := by
  have hread : s.afterLine.terminal =
      { s.terminal with input := rest }.record (.prompt (some line)) := by
    simp only [State.afterLine, Terminal.readLine, hinput]
  refine ⟨⟨rfl, rfl, rfl, rfl, rfl, ?_⟩, ?_⟩
  · rw [hread]
    rfl
  · rw [hread]
    exact Terminal.log_record _ _

lemma converseFor_meets (hc : c.KeepsHeld) {lines : Nat} (hs : s.Held false)
    (hlines : s.terminal.input.length < lines) :
    (converseFor leader frame lines s).Meets c fun result t =>
      result = .ok () ∧ ∃ line, Ended leader line s t := by
  -- The pause stays held from line to line. Only the last line counts, so the log of the rest of
  -- the conversation is the log from here: `Log.add_prompt_prompt`.
  induction lines generalizing s with
  | zero => exact absurd hlines (Nat.not_lt_zero _)
  | succ lines ih =>
    cases hinput : s.terminal.input with
    | nil =>
      rw [converseFor_end hinput]
      refine ⟨rfl, none, ⟨rfl, rfl, rfl, rfl, rfl, rfl⟩, Terminal.log_record _ _, ?_⟩
      simp [hs.substitute, substitutes]
    | cons line rest =>
      rw [converseFor_line hinput]
      obtain ⟨hstance, hlog⟩ := afterLine_spec hinput
      have hafter : s.afterLine.Held false := by
        refine ⟨hs.depth, hs.paused, hs.evaluatingLine, hs.substitute, ?_, ?_⟩
        · exact hstance.broken.trans hs.working
        · rw [← hs.passed, State.passed, State.passed, hlog, hstance.paused, if_pos hs.paused,
            if_pos hs.paused, Log.tail_add_prompt]
      refine (obeyLine_meets hc line hafter).bind ?_ ?_
      · rintro flow t ⟨_, hflow, hfrozen, hsubstitute⟩
        cases hflow
        have hstance' := hstance.trans hfrozen.toSameStance
        have hlog' := hfrozen.log.trans hlog
        cases flow with
        | resume => exact ⟨rfl, some line, hstance', hlog', by simpa using hsubstitute⟩
        | stay =>
          have hheld := hfrozen.held hafter (hsubstitute.2 (by simp))
          have hshorter : t.terminal.input.length < lines := by
            rw [hfrozen.input, State.afterLine, Terminal.input_readLine, hinput, List.tail_cons]
            rw [hinput, List.length_cons] at hlines
            omega
          refine (ih hheld hshorter).post_mono ?_
          rintro result u ⟨hresult, last, hended⟩
          refine ⟨hresult, last, hstance'.trans hended.toSameStance, ?_, hended.substitute⟩
          rw [hended.log, hlog', Log.add_prompt_prompt]
      · rintro e t ⟨_, herror, -⟩
        cases herror

/-- After a pause in which `line` was read last. It offered the failure that was pending, if any,
and there is a value to resume with exactly if `line` is a command to resume with one. -/
structure AfterPause (leader : Char) (line : Option String) (s t : State) : Prop extends
    SameStance s t where
  log : t.terminal.log =
    ⟨none, ⟨s.terminal.log.pending, leader, some line⟩ :: s.terminal.log.pauses⟩
  substitute : t.debugger.substitute = none ↔ substitutes leader line = false

/-- A pause ends without an error. -/
theorem converse_meets (hc : c.KeepsHeld) (hs : s.Open) :
    (converse leader frame s).Meets c fun result t =>
      result = .ok () ∧ ∃ line, AfterPause leader line s t := by
  let p : Pause := ⟨s.terminal.log.pending, leader, none⟩
  have hterminal : (opened leader frame s).terminal =
      s.terminal.record (.pause (s.heap.header frame) leader) :=
    Terminal.display_of_working hs.working _
  have hlog : (opened leader frame s).terminal.log = ⟨none, p :: s.terminal.log.pauses⟩ := by
    rw [hterminal, Terminal.log_record]
    rfl
  have hworking : (opened leader frame s).terminal.broken = false := by
    rw [hterminal]
    exact hs.working
  have hheld : (opened leader frame s).Held false := by
    refine ⟨hs.depth, rfl, hs.evaluatingLine, rfl, hworking, ?_⟩
    rw [State.passed, hlog]
    exact hs.log_passed
  rw [converse_eq hs.paused]
  refine (converseFor_meets hc hheld length_opened_lt_rounds).bind ?_ ?_
  · rintro _ t ⟨-, line, h⟩
    refine ⟨rfl, line, ⟨h.depth, hs.paused.symm, h.evaluatingLine, h.interactive, h.unwinding, ?_⟩,
      ?_, h.substitute⟩
    · exact h.broken.trans (hworking.trans hs.working.symm)
    · exact h.log.trans (congrArg (Log.add · _) hlog)
  · rintro e t ⟨herror, -⟩
    cases herror

end Machine

end HostedLisp
