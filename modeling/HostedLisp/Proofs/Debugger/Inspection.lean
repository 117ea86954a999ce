import HostedLisp.Interpreter
import HostedLisp.Proofs.Machine.Mirroring

/-!
# Looking at a program does not change it

Some lines of the user only look at the program, change settings or choose where to pause next. A
user who writes no others may be there or not: programs that leave the settings alone have the same
results and leave the same heap.
-/

namespace HostedLisp

open Debugger

/-- Whether a command neither evaluates an expression nor ends the session. -/
def Debugger.Command.inspects : Command → Bool
  | .quit | .resumeWith _ | .evaluate _ => false
  | _ => true

/-- Whether a line is blank or refused, or is such a command. -/
def Debugger.inspects (leader : Char) (line : String) : Bool :=
  (Text.trim line.toList).isEmpty ||
    match Command.read leader line.toList with
    | .error _ => true
    | .ok command => command.inspects

/-- There is no user, and no pause is asked for. -/
structure Debugger.Controller.Unattended (c : Controller) : Prop where
  interactive : c.interactive = false
  singleStep : c.singleStep = false
  stepOutOf : c.stepOutOf = none

/-- No pause is under way, and the user, if there is one, will only inspect. -/
structure Quiet (leader : Char) (s : State) : Prop where
  paused : s.debugger.paused = none
  user : s.debugger.Unattended ∨ ∀ line ∈ s.terminal.input, inspects leader line = true

/-- What a look at the program leaves as it is. -/
structure Aside (s t : State) : Prop where
  heap : t.heap = s.heap
  depth : t.depth = s.depth
  paused : t.debugger.paused = s.debugger.paused
  substitute : t.debugger.substitute = s.debugger.substitute
  input : ∀ line ∈ t.terminal.input, line ∈ s.terminal.input

lemma Aside.trans {s t u : State} (h : Aside s t) (h' : Aside t u) : Aside s u where
  heap := h'.heap.trans h.heap
  depth := h'.depth.trans h.depth
  paused := h'.paused.trans h.paused
  substitute := h'.substitute.trans h.substitute
  input line hline := h.input line (h'.input line hline)

lemma Aside.display (s : State) (event : Event) :
    Aside s { s with terminal := s.terminal.display event } :=
  ⟨rfl, rfl, rfl, rfl, fun line hline => by rwa [Terminal.input_display] at hline⟩

lemma Aside.readLine (s : State) : Aside s { s with terminal := s.terminal.readLine.2 } :=
  ⟨rfl, rfl, rfl, rfl, fun line hline => by
    rw [Terminal.input_readLine] at hline
    exact List.mem_of_mem_tail hline⟩

namespace Machine

open Run

variable {leader : Char} {frame : FrameId} {s : State}

/-! ### A pause -/

lemma obey_inspects {command : Command} (hc : command.inspects = true) (s : State) :
    ∃ flow t, obey leader frame command s = .stop (.ok flow) t ∧ Aside s t := by
  cases command with
  | quit | resumeWith | evaluate => cases hc
  | help | backtrace | dump | frame => exact ⟨_, _, rfl, Aside.display s _⟩
  | breakOnError on | trace on =>
    refine ⟨.stay, _, rfl, Aside.trans ?_ (Aside.display _ _)⟩
    exact ⟨rfl, rfl, rfl, rfl, fun _ h => h⟩
  | resume | step => exact ⟨_, _, rfl, rfl, rfl, rfl, rfl, fun _ h => h⟩
  | stepOut =>
    cases hparent : s.heap.parent? frame with
    | none =>
      refine ⟨.stay, _, ?_, Aside.display s (.output ("Already at top frame." ++ "\n"))⟩
      simp only [obey, bind_apply, view, Plan.bind_stop_ok, hparent]
      rfl
    | some parent =>
      refine ⟨.resume, { s with debugger := { s.debugger with stepOutOf := some frame } }, ?_,
        rfl, rfl, rfl, rfl, fun _ h => h⟩
      simp only [obey, bind_apply, view, Plan.bind_stop_ok, hparent]
      rfl

lemma obeyLine_inspects {line : String} (hline : inspects leader line = true) (s : State) :
    ∃ flow t, obeyLine leader frame line s = .stop (.ok flow) t ∧ Aside s t := by
  unfold obeyLine
  split
  · exact ⟨_, _, rfl, rfl, rfl, rfl, rfl, fun _ h => h⟩
  · next hblank =>
    rw [inspects, Bool.or_eq_true, or_iff_right hblank] at hline
    cases hread : Command.read leader line.toList with
    | error refusal => exact ⟨_, _, rfl, Aside.display s _⟩
    | ok command =>
      rw [hread] at hline
      exact obey_inspects hline s

lemma converseFor_inspects (lines : Nat) (s : State)
    (hs : ∀ line ∈ s.terminal.input, inspects leader line = true) :
    ∃ t, converseFor leader frame lines s = .stop (.ok ()) t ∧ Aside s t := by
  induction lines generalizing s with
  | zero => exact ⟨s, rfl, rfl, rfl, rfl, rfl, fun _ h => h⟩
  | succ lines ih =>
    have hread := Aside.readLine s
    rw [converseFor, bind_apply, readLine_apply, Plan.bind_stop_ok]
    cases hinput : s.terminal.input with
    | nil =>
      refine ⟨_, ?_, hread⟩
      simp only [Terminal.readLine, hinput]
      rfl
    | cons line rest =>
      have hfirst : s.terminal.readLine.1 = some line := by simp only [Terminal.readLine, hinput]
      rw [hinput, List.forall_mem_cons] at hs
      obtain ⟨flow, t, hobey, haside⟩ : ∃ flow t, obeyLine leader frame line _ = _ ∧ _ :=
        obeyLine_inspects hs.1 { s with terminal := s.terminal.readLine.2 }
      rw [hfirst]
      dsimp only
      rw [bind_apply, hobey, Plan.bind_stop_ok]
      cases flow with
      | resume => exact ⟨t, rfl, hread.trans haside⟩
      | stay =>
        obtain ⟨u, hu, haside'⟩ := ih t fun line hline => hs.2 line (by
          have hmem := haside.input line hline
          rwa [Terminal.input_readLine, hinput] at hmem)
        exact ⟨u, hu, (hread.trans haside).trans haside'⟩

/-- A pause in which the user only inspects ends without a value to resume with. -/
lemma converse_inspects {s : State} (hpaused : s.debugger.paused = none)
    (hs : ∀ line ∈ s.terminal.input, inspects leader line = true) :
    ∃ t, converse leader frame s = .stop (.ok ()) t ∧ t.heap = s.heap ∧ t.depth = s.depth ∧
      t.debugger.substitute = none ∧ Quiet leader t := by
  let opened : State :=
    { s with
      debugger := { s.debugger with paused := some frame, substitute := none }
      terminal := s.terminal.display (.pause (s.heap.header frame) leader) }
  obtain ⟨t, ht, haside⟩ : ∃ t, converseFor leader frame _ opened = _ ∧ _ :=
    converseFor_inspects (rounds opened) opened fun line hline => hs line (by
      rwa [Terminal.input_display] at hline)
  refine ⟨{ t with debugger := { t.debugger with paused := none } }, ?_, haside.heap,
    haside.depth, haside.substitute, rfl, Or.inr fun line hline => ?_⟩
  · rw [converse, bind_apply]
    simp only [view, Plan.bind_stop_ok, hpaused]
    change (converseFor leader frame (rounds opened) opened).bind _ = _
    rw [ht]
    rfl
  · have hmem := haside.input line hline
    rw [Terminal.input_display] at hmem
    exact hs line hmem

lemma takeSubstitute_none {s : State} (hs : s.debugger.substitute = none) :
    takeSubstitute s = .stop (.ok none) s := by
  have hsame : { s with debugger := { s.debugger with substitute := none } } = s := by
    rw [← hs]
  change Plan.stop (.ok s.debugger.substitute) _ = _
  rw [hs]
  exact congrArg _ hsame

/-! ### Runs that a quiet user does not matter to -/

/-- From a quiet state a run ends with the result, and leaves the heap and the state quiet. -/
def EndsQuietly {α : Type} (leader : Char) (result : Except Halt α) (x : Run α) : Prop :=
  ∀ s, Quiet leader s → ∃ t, x s = .stop result t ∧ t.heap = s.heap ∧ t.depth = s.depth ∧
    Quiet leader t

lemma endsQuietly_traceValue (mark : String) (value : Value) :
    EndsQuietly leader (.ok ()) (traceValue mark value) := by
  intro s hs
  unfold traceValue
  rw [bind_apply]
  simp only [view, Plan.bind_stop_ok]
  cases s.debugger.trace with
  | false => exact ⟨s, rfl, rfl, rfl, hs⟩
  | true =>
    refine ⟨_, rfl, rfl, rfl, hs.paused, hs.user.imp_right fun h line hline => h line ?_⟩
    rwa [Terminal.input_display] at hline

lemma endsQuietly_offer (error : Error) (frame : FrameId) :
    EndsQuietly leader (.error (.error error)) (offer leader error frame) := by
  intro s hs
  unfold offer
  rw [bind_apply]
  simp only [view, Plan.bind_stop_ok]
  split
  · next hbreaks =>
    have hlines : ∀ line ∈ s.terminal.input, inspects leader line = true := by
      refine hs.user.resolve_left fun h => ?_
      simp [Controller.breaks, h.interactive] at hbreaks
    obtain ⟨t, ht, hheap, hdepth, hsubstitute, hquiet⟩ :
        ∃ t, converse leader frame
          { s with terminal := s.terminal.display (.failure error) } = _ ∧ _ :=
      converse_inspects hs.paused fun line hline => hlines line (by
        rwa [Terminal.input_display] at hline)
    refine ⟨{ t with debugger := { t.debugger with unwinding := true } }, ?_, hheap, hdepth,
      hquiet.paused, hquiet.user.imp_left fun h => ⟨h.interactive, h.singleStep, h.stepOutOf⟩⟩
    simp only [bind_apply, display, Run.modify, Plan.bind_stop_ok, ht,
      takeSubstitute_none hsubstitute]
    rfl
  · exact ⟨s, rfl, rfl, rfl, hs⟩

lemma endsQuietly_hold (expr : Value) (frame : FrameId) :
    EndsQuietly leader (.ok none) (hold leader expr frame) := by
  intro s hs
  unfold hold
  rw [bind_apply]
  simp only [view, Plan.bind_stop_ok]
  split
  · next hheld =>
    have hlines : ∀ line ∈ s.terminal.input, inspects leader line = true := by
      refine hs.user.resolve_left fun h => ?_
      simp [isHeld, h.singleStep, h.stepOutOf] at hheld
    let held := Event.held expr (s.heap.render expr)
    obtain ⟨t, ht, hheap, hdepth, hsubstitute, hquiet⟩ :
        ∃ t, converse leader frame
          { s with debugger := s.debugger.clearSteps, terminal := s.terminal.display held } = _ ∧
            _ :=
      converse_inspects hs.paused fun line hline => hlines line (by
        rwa [Terminal.input_display] at hline)
    refine ⟨t, ?_, hheap, hdepth, hquiet⟩
    simp only [bind_apply, changeDebugger, display, Run.modify, view, Plan.bind_stop_ok]
    change (converse leader frame { s with
      debugger := s.debugger.clearSteps, terminal := s.terminal.display held }).bind _ = _
    rw [ht, Plan.bind_stop_ok, takeSubstitute_none hsubstitute]
  · exact ⟨s, rfl, rfl, rfl, hs⟩

lemma endsQuietly_pause (m : Machine) (frame : FrameId) :
    EndsQuietly m.config.leader (.ok .nil) (m.serve (.pause frame)) := by
  intro s hs
  unfold serve
  dsimp only
  rw [bind_apply]
  simp only [view, Plan.bind_stop_ok]
  split
  · next hinteractive =>
    have hlines : ∀ line ∈ s.terminal.input, inspects m.config.leader line = true := by
      refine hs.user.resolve_left fun h => ?_
      rw [h.interactive] at hinteractive
      cases hinteractive
    obtain ⟨t, ht, hheap, hdepth, hsubstitute, hquiet⟩ :
        ∃ t, converse m.config.leader frame s = _ ∧ _ := converse_inspects hs.paused hlines
    refine ⟨t, ?_, hheap, hdepth, hquiet⟩
    simp only [bind_apply, Plan.bind_stop_ok, ht, takeSubstitute_none hsubstitute]
    rfl
  · exact ⟨s, rfl, rfl, rfl, hs⟩

lemma endsQuietly_print (m : Machine) (text : String) :
    EndsQuietly leader (.ok .nil) (m.serve (.print text)) := by
  intro s hs
  refine ⟨_, rfl, rfl, rfl, hs.paused, hs.user.imp_right fun h line hline => h line ?_⟩
  rwa [Terminal.input_display] at hline

lemma endsQuietly_isPaused (m : Machine) :
    EndsQuietly leader (.ok (.bool false)) (m.serve .isPaused) := by
  intro s hs
  refine ⟨s, ?_, rfl, rfl, hs⟩
  change Plan.stop (.ok (Value.bool s.debugger.paused.isSome)) s = _
  rw [hs.paused]
  rfl

/-! ### Quiet runs side by side -/

/-- The same heap and as many evaluations under way, with quiet users on both sides. -/
structure QuietTwins (leader leader' : Char) (s t : State) : Prop where
  heap : t.heap = s.heap
  depth : t.depth = s.depth
  left : Quiet leader s
  right : Quiet leader' t

variable {leader' : Char}

lemma coupling_quietTwins : Coupling (QuietTwins leader leader') where
  heap h := h.heap
  depth h := h.depth
  setHeap h _ := ⟨rfl, h.depth, ⟨h.left.paused, h.left.user⟩, ⟨h.right.paused, h.right.user⟩⟩
  setDepth h _ := ⟨h.heap, rfl, ⟨h.left.paused, h.left.user⟩, ⟨h.right.paused, h.right.user⟩⟩

lemma EndsQuietly.matches {α : Type} {result : Except Halt α} {x y : Run α}
    (hx : EndsQuietly leader result x) (hy : EndsQuietly leader' result y) :
    x.Matches (QuietTwins leader leader') y := by
  intro s t hst
  obtain ⟨s', hs, hheap, hdepth, hquiet⟩ := hx s hst.left
  obtain ⟨t', ht, hheap', hdepth', hquiet'⟩ := hy t hst.right
  rw [hs, ht]
  exact .stop ⟨hheap'.trans (hst.heap.trans hheap.symm),
    hdepth'.trans (hst.depth.trans hdepth.symm), hquiet, hquiet'⟩

lemma quiet_begin {s : State} (hs : Quiet leader s) : Quiet leader (begin s) := by
  unfold begin
  split
  · exact ⟨hs.paused, hs.user.imp_left fun h => ⟨h.interactive, h.singleStep, h.stepOutOf⟩⟩
  · exact hs

lemma begin_heap (s : State) : (begin s).heap = s.heap ∧ (begin s).depth = s.depth := by
  unfold begin
  split <;> exact ⟨rfl, rfl⟩

/-- Requests that neither read nor change a setting. -/
def LeavesSettings : Request → Prop
  | .setting .. => False
  | _ => True

/-- Machines with the same primitives and the same limit mirror each other while their users are
quiet and programs leave the settings alone. -/
theorem mirrors_of_quiet {m m' : Machine} (hbodies : m'.bodies = m.bodies)
    (hmaxDepth : m'.config.maxDepth = m.config.maxDepth) :
    Mirrors (QuietTwins m.config.leader m'.config.leader) LeavesSettings m m' where
  coupling := coupling_quietTwins
  bodies := hbodies
  maxDepth := hmaxDepth
  begin s t hst :=
    ⟨(begin_heap t).1.trans (hst.heap.trans (begin_heap s).1.symm),
      (begin_heap t).2.trans (hst.depth.trans (begin_heap s).2.symm),
      quiet_begin hst.left, quiet_begin hst.right⟩
  trace mark value :=
    (endsQuietly_traceValue mark value).matches (endsQuietly_traceValue mark value)
  offer error frame := (endsQuietly_offer error frame).matches (endsQuietly_offer error frame)
  hold expr frame := (endsQuietly_hold expr frame).matches (endsQuietly_hold expr frame)
  debugger r hr hallowed := by
    cases r with
    | pause frame => exact (endsQuietly_pause m frame).matches (endsQuietly_pause m' frame)
    | setting which change => exact hallowed.elim
    | print text => exact (endsQuietly_print m text).matches (endsQuietly_print m' text)
    | isPaused => exact (endsQuietly_isPaused m).matches (endsQuietly_isPaused m')
    | _ => exact hr.elim

/-- While a user is quiet, a name is looked up without asking for anything. -/
lemma stops_at_name {m : Machine} {s : State} (hs : Quiet m.config.leader s) (name : Symbol)
    (frame : FrameId) : ∃ result t, m.serve (.eval (.sym name) frame) s = .stop result t := by
  have hbegin := quiet_begin hs
  change ∃ result t, m.evaluate (.sym name) frame s = _
  unfold evaluate
  dsimp only
  split
  · exact ⟨_, _, rfl⟩
  · obtain ⟨t, ht, -, -, hquiet⟩ := endsQuietly_hold (.sym name) frame
      { begin s with depth := (begin s).depth + 1 } ⟨hbegin.paused, hbegin.user⟩
    rw [evalWithin, bind_apply, ht, Plan.bind_stop_ok]
    dsimp only
    rw [bind_apply]
    simp only [view, Plan.bind_stop_ok]
    cases t.heap.lookup? frame name with
    | some value => exact ⟨_, _, rfl⟩
    | none =>
      obtain ⟨u, hu, -⟩ := endsQuietly_offer (.unbound name.name) frame t hquiet
      dsimp only
      rw [hu]
      exact ⟨_, _, rfl⟩

/-- So it leaves the settings alone. -/
lemma leavesSettings_of_name {m : Machine} {s : State} (hs : Quiet m.config.leader s)
    (name : Symbol) (frame : FrameId) (y : Request × State)
    (hy : m.Reaches ((Program.eval (.sym name) frame).run s) y) : LeavesSettings y.1 := by
  obtain ⟨⟨r, u⟩, ⟨fuel, hx⟩, hxy⟩ := hy
  obtain ⟨rfl, rfl⟩ | ⟨a, t, -, hnext⟩ := hx
  · obtain rfl | ⟨z, ⟨fuel', hz⟩, -⟩ := Relation.ReflTransGen.cases_head hxy
    · trivial
    · obtain ⟨result, t, hserve⟩ := stops_at_name hs name frame
      rw [hserve] at hz
      exact hz.elim
  · cases a <;> cases hnext

end Machine

namespace Interpreter

/-- Inspection does not show. A program that leaves the settings alone is run twice from the same
heap: without a user, and with one who writes only blank lines, malformed commands and commands
that inspect, whatever is traced, offered or held up for that. The result and the heap are the
same, with any stock of fuel. -/
theorem run_inspected {α : Type} {i j : Interpreter} (p : Program α)
    (hbodies : j.machine.bodies = i.machine.bodies)
    (hmaxDepth : j.machine.config.maxDepth = i.machine.config.maxDepth)
    (hheap : j.state.heap = i.state.heap) (hdepth : j.state.depth = i.state.depth)
    (hi : i.state.debugger.paused = none) (hj : j.state.debugger.paused = none)
    (hunattended : i.state.debugger.Unattended)
    (hlines : ∀ line ∈ j.state.terminal.input, inspects j.machine.config.leader line = true)
    (hp : ∀ y, i.machine.Reaches (p.run i.state) y → Machine.LeavesSettings y.1) (fuel : Nat) :
    (j.run fuel p).1 = (i.run fuel p).1 ∧
      (j.run fuel p).2.state.heap = (i.run fuel p).2.state.heap := by
  have hmirrors := Machine.mirrors_of_quiet hbodies hmaxDepth
  have hstart :
      Machine.QuietTwins i.machine.config.leader j.machine.config.leader i.state j.state :=
    ⟨hheap, hdepth, ⟨hi, Or.inl hunattended⟩, ⟨hj, Or.inr hlines⟩⟩
  have hplans := Run.Matches.program hmirrors.coupling p i.state j.state hstart
  obtain ⟨hresult, hend⟩ := hmirrors.execute fuel hplans (fun _ _ _ h => h) hp
  exact ⟨hresult.symm, hend.heap⟩

/-- An interpreter with a user who will look at frames, make a mistake and ask to step. -/
def inspected : Interpreter :=
  let i := full .standard
  { i with state := { i.state with
      debugger := { i.state.debugger with interactive := true, trace := true, singleStep := true }
      terminal := .ofLines [":b", "", ":x", ":s", ":u", ":e off"] } }

lemma full_unattended : (full .standard).state.debugger.Unattended := ⟨rfl, rfl, rfl⟩

lemma inspected_lines :
    ∀ line ∈ inspected.state.terminal.input,
      inspects inspected.machine.config.leader line = true := by
  change ∀ line ∈ [":b", "", ":x", ":s", ":u", ":e off"], inspects ':' line = true
  decide

/-- The user does not show in what comes of evaluating a name. -/
theorem run_inspected_name :
    (full .standard).state.debugger.Unattended ∧
      (∀ line ∈ inspected.state.terminal.input,
        inspects inspected.machine.config.leader line = true) ∧
      (inspected.run 1 (.eval (.sym ⟨"x"⟩) .global)).1 =
        ((full .standard).run 1 (.eval (.sym ⟨"x"⟩) .global)).1 ∧
      (inspected.run 1 (.eval (.sym ⟨"x"⟩) .global)).2.state.heap =
        ((full .standard).run 1 (.eval (.sym ⟨"x"⟩) .global)).2.state.heap := by
  have hquiet : Quiet (full .standard).machine.config.leader (full .standard).state :=
    ⟨rfl, Or.inl full_unattended⟩
  exact ⟨full_unattended, inspected_lines,
    run_inspected (i := full .standard) (j := inspected) (.eval (.sym ⟨"x"⟩) .global)
      rfl rfl rfl rfl rfl rfl full_unattended inspected_lines
      (Machine.leavesSettings_of_name hquiet ⟨"x"⟩ .global) 1⟩

end Interpreter

end HostedLisp
