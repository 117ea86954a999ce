import HostedLisp.Proofs.Debugger.Display
import HostedLisp.Proofs.Debugger.Stages
import HostedLisp.Proofs.Machine.Termination

/-!
# A failure is offered once

A failure that the user lets pass ends the evaluation of the host, and is its error. Up to then
every failure is offered, if failures are to be, and the user puts a value in its place:
`Interpreter.eval_offers_once`.
-/

namespace HostedLisp

open Debugger

variable {missed : State → Prop} {s t : State}

namespace Machine

open Run

variable {m : Machine} {leader : Char} {frame : FrameId}

/-! ### Evaluation -/

/-- What a list does with an error of its call: it shows where it comes from and offers it. If it
was offered before, it leaves it as it is. -/
lemma offer_located {e : Error} {k : Value → Run Value} (hk : ∀ value, (k value).Abides Unwatched)
    (expr : Value) (frame : FrameId)
    (h : Follows (fun _ => True) s (.error e : Except Error Value) t) (hs : s.Ready) :
    ((offer leader (locate t.heap expr e) frame >>= k) t).Meets offering (Follows Unwatched s) := by
  have hoffer : (offer leader (locate t.heap expr e) frame >>= k).Abides Unwatched :=
    Abides.bind (offer_abides (fun h' expr' => locate_locate _ h' _ expr' e) frame) hk
  have hready (hstep : Follows Unwatched s (.ok ()) t) :
      ((offer leader (locate t.heap expr e) frame >>= k) t).Meets offering (Follows Unwatched s) :=
    (hoffer t (hstep.ready hs)).post_mono fun _ _ h => hstep.trans h
  obtain hfree | hheld := hs
  · obtain ⟨hdepth, ⟨hend, -⟩ | hpassing⟩ := h.free hfree
    -- It was not let pass inside, so this is where it is offered.
    · exact hready ⟨fun hheld => absurd hheld hfree.not_held, fun _ => ⟨hdepth, hend⟩⟩
    -- On its way out it is not offered again, and its message shows a call already.
    · have hbreaks : t.debugger.breaks = false := by simp [Controller.breaks, hpassing.unwinding]
      rw [bind_apply, offer_of_not_breaks _ hbreaks, hpassing.located]
      exact ⟨fun hheld => absurd hheld hfree.not_held, fun _ => ⟨hdepth, Or.inr hpassing⟩⟩
  · exact hready ⟨h.held, fun hfree => absurd hheld hfree.not_held⟩

lemma evalList_abides (id : CellId) (frame : FrameId) :
    (m.evalList id frame).Abides Unwatched := by
  have hlast (value : Value) : (do traceValue "=> " value; pure value : Run Value).Abides
      Unwatched := Abides.bind (traceValue_abides _ _) fun _ => Abides.pure value
  refine Abides.bind (Abides.changeHeap _) fun _ => ?_
  refine Abides.bind (traceValue_abides _ _) fun _ => ?_
  -- The error of the call is looked at here, so `Abides.bind` does not apply: it would pass it on.
  intro s hs
  have hpair := abides_compositional.evalPair m id frame s hs
  have hattempt : (attempt (m.evalPair id frame) s).Meets offering fun result t =>
      ∃ r, result = .ok r ∧ Follows (fun _ => True) s r t :=
    Plan.Meets.attempt (hpair.post_mono fun r _ h => ⟨r, rfl, h⟩)
  refine hattempt.bind ?_ fun _ _ h => absurd h.choose_spec.1 (by simp)
  rintro result t ⟨_, hresult, hstep⟩
  cases hresult
  cases result with
  | ok value =>
    have hvalue : Follows Unwatched s (.ok value) t := ⟨hstep.held, hstep.free⟩
    exact (hlast value t (hvalue.ready hs)).post_mono fun _ _ h => hvalue.trans h
  | error e => exact offer_located hlast (.pair id) frame hstep hs

lemma evalWithin_abides (expr : Value) (frame : FrameId) :
    (m.evalWithin expr frame).Abides Unwatched := by
  refine Abides.bind (hold_abides expr frame) fun held => ?_
  cases held with
  | some value => exact Abides.pure value
  | none =>
    cases expr with
    | sym name =>
      refine Abides.bind (Abides.view _) fun value => ?_
      cases value with
      | some value => exact Abides.pure value
      | none => exact offer_abides (fun _ _ => rfl) frame
    | pair id => exact evalList_abides id frame
    | _ => exact Abides.pure _

lemma evaluate_abides (expr : Value) (frame : FrameId) :
    (m.evaluate expr frame).Abides fun _ => True := by
  intro s hs
  have hbegin : begin s = s := if_neg (State.Ready.depth hs).ne'
  unfold evaluate
  rw [hbegin]
  dsimp only
  split
  -- At the limit an evaluation fails without a pause: the list around it offers the failure.
  · exact Follows.error _ trivial
  · refine Plan.Meets.atEnd ?_
    have hinner : State.Ready { s with depth := s.depth + 1 } :=
      hs.imp (.setDepth s.depth.succ_pos) (.setDepth s.depth.succ_pos)
    refine (evalWithin_abides expr frame _ hinner).post_mono fun result t h => ⟨?_, ?_⟩
    · intro hheld
      obtain ⟨hfrozen, hsubstitute⟩ := h.held (.setDepth s.depth.succ_pos hheld)
      have hdepth : t.depth - 1 = s.depth := by
        rw [hfrozen.depth]
        exact Nat.add_sub_cancel s.depth 1
      exact ⟨⟨⟨hdepth, hfrozen.paused, hfrozen.evaluatingLine, hfrozen.interactive,
        hfrozen.unwinding, hfrozen.broken⟩, hfrozen.input, hfrozen.log⟩, hsubstitute⟩
    · intro hfree
      obtain ⟨hdepth, hafter⟩ := h.free (.setDepth s.depth.succ_pos hfree)
      have hback : t.depth - 1 = s.depth := by
        rw [hdepth]
        exact Nat.add_sub_cancel s.depth 1
      have hpos : 0 < t.depth - 1 := hback ▸ hfree.depth
      refine ⟨hback, ?_⟩
      cases result with
      | ok value => exact State.Free.setDepth hpos hafter
      | error e =>
        exact hafter.imp (fun h => ⟨State.Free.setDepth hpos h.1, trivial⟩)
          (State.Passing.setDepth _)

/-- An evaluation of the host is let in, forgets what was let pass in the one before, and ends with
the failure that is let pass in it. -/
lemma evaluate_meets (hlimit : 1 ≤ m.config.maxDepth) (expr : Value) (frame : FrameId)
    (hs : s.Start) : (m.evaluate expr frame s).Meets offering State.Finishes := by
  have hbegin : begin s = { s with debugger := { s.debugger with unwinding := false } } :=
    if_pos hs.depth
  have hdepth : (begin s).depth = 0 := by
    rw [hbegin]
    exact hs.depth
  unfold evaluate
  dsimp only
  rw [hdepth, if_neg (by omega)]
  refine Plan.Meets.atEnd ?_
  have hfree : State.Free { begin s with depth := 0 + 1 } := by
    rw [hbegin]
    exact ⟨⟨Nat.one_pos, hs.paused, hs.evaluatingLine, hs.interactive, rfl, hs.working,
      hs.passed⟩, congrArg Log.pending hs.log⟩
  refine (evalWithin_abides expr frame _ (Or.inl hfree)).post_mono fun result t h => ?_
  obtain ⟨hone, hafter⟩ := h.free hfree
  have hback : t.depth - 1 = 0 := congrArg (· - 1) hone
  cases result with
  | ok value =>
    exact ⟨⟨hback, hafter.paused, hafter.evaluatingLine⟩, hafter.interactive,
      fun _ _ => hafter.passed, by simp⟩
  | error e =>
    obtain ⟨hend, hoff⟩ | hpassing := hafter
    · refine ⟨⟨hback, hend.paused, hend.evaluatingLine⟩, hend.interactive, by simp, ?_⟩
      exact fun _ _ => Or.inl ⟨hend.passed, hoff⟩
    · refine ⟨⟨hback, hpassing.paused, hpassing.evaluatingLine⟩, hpassing.interactive, by simp, ?_⟩
      rintro _ ⟨⟩
      exact Or.inr (State.Passing.setDepth _ hpassing)

lemma serve_abides (r : Request) : (m.serve r).Abides fun _ => True := by
  cases r with
  | eval expr frame => exact evaluate_abides expr frame
  | apply func args frame => exact abides_compositional.applyTo m func args frame
  | call func operands frame => exact abides_compositional.call m func operands frame
  | pause frame =>
    refine Abides.bind (Abides.view _) fun interactive => ?_
    split
    · refine Abides.bind converse_abides fun _ => ?_
      exact Abides.bind takeSubstitute_abides fun _ => Abides.pure _
    · exact Abides.pure _
  | setting which change =>
    have hread : (do pure (Value.bool (← view (·.debugger.setting which)))).Abides fun _ => True :=
      Abides.bind (Abides.view _) fun _ => Abides.pure _
    cases change with
    | none => exact hread
    | some on =>
      refine Abides.bind (Abides.modify (fun s _ => Frozen.set s which on) ?_) fun _ => hread
      intro s hs
      cases which <;> exact hs
  | print text => exact Abides.bind (Abides.display fun _ => rfl) fun _ => Abides.pure _
  | isPaused | depth => exact Abides.bind (Abides.view _) fun _ => Abides.pure _

/-- Every request is served as the stages of the evaluation say. -/
theorem serve_offering (hlimit : 1 ≤ m.config.maxDepth) (r : Request) (s : State)
    (h : offering.may r s) : (m.serve r s).Meets offering (offering.gives r s) := by
  obtain hready | ⟨hstart, expr, frame, rfl⟩ := h
  · refine (serve_abides r s hready).post_mono fun a t h => ⟨h, fun hstart => ?_⟩
    exact absurd hstart.depth (State.Ready.depth hready).ne'
  · refine (evaluate_meets hlimit expr frame hstart).post_mono fun a t h => ⟨⟨?_, ?_⟩, fun _ => h⟩
    · exact fun hheld => absurd hstart.depth hheld.depth.ne'
    · exact fun hfree => absurd hstart.depth hfree.depth.ne'

end Machine

/-- Whatever is asked, no failure was let pass before. -/
lemma offering_passed {r : Request} (h : offering.may r s) : s.passed = [] := by
  obtain (h | h) | ⟨h, -⟩ := h
  · exact h.passed
  · exact h.passed
  · exact h.passed

/-- An evaluation of the host finishes, unless it runs out of fuel before any failure is let
pass. -/
theorem Machine.perform_finishes {m : Machine} {natives : List Native} (hm : m.Provides natives)
    (hlimit : 1 ≤ m.config.maxDepth) {expr : Value} {frame : FrameId}
    (hexpr : expr.Over (Provided natives)) (hover : s.Over (Provided natives)) (hs : s.Start)
    (fuel : Nat) :
    (∃ answer t, m.perform fuel (.eval expr frame) s = .answered answer t ∧ t.Finishes answer) ∨
      ∃ t, m.perform fuel (.eval expr frame) s = (.error .exhausted, t) ∧ t.passed = [] := by
  have hmay : offering.may (.eval expr frame) s := Or.inr ⟨hs, expr, frame, rfl⟩
  obtain ⟨answer, t, h⟩ | ⟨t, h⟩ | ⟨t, h⟩ := (m.perform fuel (.eval expr frame) s).cases
  · have hgives := perform_meets (serve_offering hlimit) fuel _ s hmay
    rw [h, Outcome.meets_answered] at hgives
    exact Or.inl ⟨answer, t, h, hgives.2 hs⟩
  · have hfault := perform_meets (serve_order hm) fuel (.eval expr frame) s ⟨hexpr, hover⟩
    rw [h] at hfault
    exact hfault.elim
  · obtain ⟨q, hq⟩ := may_of_exhausted (serve_offering hlimit) hmay h
    exact Or.inr ⟨t, h, offering_passed hq⟩

/-- The last failure of the events is offered by the last pause, and none was let pass before. -/
def Debugger.LastOffered (e : Error) (events : List Event) : Prop :=
  ∃ before header leader after, events = before ++ .pause header leader :: after ∧
    (Log.ofEvents before).pending = some e ∧ (Log.ofEvents before).passed = [] ∧
    ∀ event ∈ after, ¬event.Opens

lemma State.Passing.passed {e : Error} (h : s.Passing e) : s.passed = [e] := by
  obtain ⟨p, ps, hlog, hp, hps⟩ := h.log
  rw [State.passed_of_unpaused h.paused, hlog, Log.passed, List.filterMap_cons_some hp, hps]

lemma State.Passing.lastOffered {e : Error} (h : s.Passing e) :
    LastOffered e s.terminal.events.toList := by
  obtain ⟨p, ps, hlog, hp, hps⟩ := h.log
  obtain ⟨before, header, after, hevents, hbefore, hafter⟩ := Log.exists_of_ofEvents hlog
  have hoffered : p.offered = some e := by
    rw [Pause.passed] at hp
    split at hp
    · cases hp
    · exact hp
  refine ⟨before, header, p.leader, after, hevents, ?_, ?_, hafter⟩
  · rw [hbefore, hoffered]
  · rw [hbefore]
    exact hps

namespace Interpreter

variable {i : Interpreter} {expr : Value}

lemma Has.facing {natives : List Native} (hi : i.Has natives) (lines : List String) :
    (i.facing lines).Has natives :=
  ⟨hi.bodies, hi.state.heap, hi.state.substitute⟩

lemma watched_start (htop : i.state.AtTop) (hinteractive : i.state.debugger.interactive = true) :
    i.watched.state.Start :=
  ⟨⟨htop.depth, htop.paused, htop.evaluatingLine⟩, hinteractive, rfl, rfl⟩

/-- How an evaluation of the host ends, seen at a display that works. -/
lemma watched_finishes (hi : i.Has standardNatives) (hexpr : expr.Over (Provided standardNatives))
    (frame : FrameId) (hstart : i.watched.state.Start) (hlimit : 1 ≤ i.machine.config.maxDepth)
    (fuel : Nat) :
    (∃ answer : Except Error Value, (i.eval fuel expr frame).1 = answer.mapError Halt.error ∧
        State.Finishes answer (i.watched.eval fuel expr frame).2.state) ∨
      (i.eval fuel expr frame).1 = .error .exhausted ∧
        (i.watched.eval fuel expr frame).2.state.passed = [] := by
  have hm : i.machine.Provides standardNatives := hi.provides
  have hresult := (i.run_watched (Program.eval expr frame) fuel).1.trans
    (i.watched.eval_result fuel expr frame)
  have hstate := i.watched.eval_state fuel expr frame
  obtain ⟨answer, t, h, hfinish⟩ | ⟨t, h, hpassed⟩ :=
    Machine.perform_finishes hm hlimit hexpr (hi.facing _).state hstart fuel
  · have ho : i.watched.machine.perform fuel (.eval expr frame) i.watched.state =
        .answered answer t := h
    rw [ho] at hresult hstate
    exact Or.inl ⟨answer, hresult, hstate ▸ hfinish⟩
  · have ho : i.watched.machine.perform fuel (.eval expr frame) i.watched.state =
        (.error .exhausted, t) := h
    rw [ho] at hresult hstate
    exact Or.inr ⟨hresult, hstate ▸ hpassed⟩

/-- An evaluation of the host that ends leaves no evaluation and no pause under way, and the user
where they are. -/
theorem eval_atTop (hi : i.Has standardNatives) (hexpr : expr.Over (Provided standardNatives))
    (frame : FrameId) (htop : i.state.AtTop)
    (hinteractive : i.state.debugger.interactive = true)
    (hlimit : 1 ≤ i.machine.config.maxDepth) (fuel : Nat)
    (hended : (i.eval fuel expr frame).1 ≠ .error .exhausted) :
    (i.eval fuel expr frame).2.state.AtTop ∧
      (i.eval fuel expr frame).2.state.debugger.interactive = true := by
  have hshows := (i.run_watched (Program.eval expr frame) fuel).2
  obtain ⟨answer, -, hfinish⟩ | ⟨hexhausted, -⟩ :=
    watched_finishes hi hexpr frame (watched_start htop hinteractive) hlimit fuel
  · refine ⟨⟨hshows.depth.trans hfinish.top.depth, ?_, ?_⟩, ?_⟩
    · exact (congrArg Controller.paused hshows.debugger).trans hfinish.top.paused
    · exact (congrArg Controller.evaluatingLine hshows.debugger).trans hfinish.top.evaluatingLine
    · exact (congrArg Controller.interactive hshows.debugger).trans hfinish.interactive
  · exact absurd hexhausted hended

/-- At most one failure is let pass in an evaluation of the host. It is the last one that is shown,
it is the error of the evaluation, and every request was asked before. If failures are offered at
the end of the evaluation, then an error of the evaluation is one that was let pass. -/
theorem eval_offers_once (hi : i.Has standardNatives) (hexpr : expr.Over (Provided standardNatives))
    (frame : FrameId) (htop : i.state.AtTop)
    (hinteractive : i.state.debugger.interactive = true)
    (hlimit : 1 ≤ i.machine.config.maxDepth) (fuel : Nat) :
    let result := (i.eval fuel expr frame).1
    let s := (i.watched.eval fuel expr frame).2.state
    Shows i.state.terminal.events.toList i.state.terminal.broken s
        (i.eval fuel expr frame).2.state ∧
      (s.passed = [] ∨ ∃ e, s.passed = [e] ∧ result = .error (.error e) ∧
        LastOffered e s.terminal.events.toList) ∧
      (∀ y, i.machine.Reaches ((Program.eval expr frame).run i.watched.state) y →
        y.2.passed = []) ∧
      ∀ e, result = .error (.error e) → s.debugger.breakOnError = true → s.passed = [e] := by
  intro result s
  have hstart := watched_start htop hinteractive
  refine ⟨(i.run_watched (Program.eval expr frame) fuel).2, ?_, fun y hy => ?_, fun e he hon => ?_⟩
  · obtain ⟨answer, hresult, hfinish⟩ | ⟨-, hpassed⟩ :=
      watched_finishes hi hexpr frame hstart hlimit fuel
    · cases answer with
      | ok value => exact Or.inl (hfinish.value value rfl)
      | error e =>
        obtain ⟨hpassed, -⟩ | hpassing := hfinish.error e rfl
        · exact Or.inl hpassed
        · exact Or.inr ⟨e, hpassing.passed, hresult, hpassing.lastOffered⟩
    · exact Or.inl hpassed
  · have hmeets : ((Program.eval expr frame).run i.watched.state).Meets offering
        fun _ _ => True := by
      rw [Program.run_eval]
      exact Run.request_meets (Or.inr ⟨hstart, expr, frame, rfl⟩) fun _ _ _ => trivial
    exact offering_passed (hy.may hmeets (Machine.serve_offering hlimit))
  · obtain ⟨answer, hresult, hfinish⟩ | ⟨hresult, -⟩ :=
      watched_finishes hi hexpr frame hstart hlimit fuel
    · have hanswer : answer = .error e := by
        cases answer with
        | ok value => cases hresult.symm.trans he
        | error error =>
          cases hresult.symm.trans he
          rfl
      obtain ⟨-, hoff⟩ | hpassing := hfinish.error e hanswer
      · exact absurd (hoff.symm.trans hon) Bool.false_ne_true
      · exact hpassing.passed
    · cases hresult.symm.trans he

/-- An interpreter with all libraries and with a user who writes the lines. A list that calls a
number is written down. -/
def attended (lines : List String) : Interpreter :=
  ((full { Config.standard with interactive := true }).facing lines).changeHeap
    fun h => (h.newChain [.int 5] .nil).2

lemma attended_has (lines : List String) : (attended lines).Has standardNatives := by
  have h := (full_has { Config.standard with interactive := true }).facing lines
  have hitems : AllOver (Provided standardNatives) [.int 5] :=
    AllOver.cons_iff.2 ⟨Value.over_int 5, AllOver.nil⟩
  exact h.changeHeap (h.state.heap.newChain hitems Value.over_nil).2

/-- The user looks at the frames and goes on: the failure of the call is the one that is let
pass. -/
theorem eval_offers_once_call :
    let i := attended [":b", ":c"]
    i.Has standardNatives ∧ (Value.pair ⟨0⟩).Over (Provided standardNatives) ∧ i.state.AtTop ∧
      i.state.debugger.interactive = true ∧ 1 ≤ i.machine.config.maxDepth ∧
      (i.watched.eval 2 (.pair ⟨0⟩) .global).2.state.passed =
        [.type "not a function: 5\n  Context: while evaluating: (5)"] := by
  intro i
  have hi : i.Has standardNatives := attended_has _
  have htop : i.state.AtTop := ⟨rfl, rfl, rfl⟩
  have hlimit : 1 ≤ i.machine.config.maxDepth := by decide
  refine ⟨hi, Value.over_pair _, htop, rfl, hlimit, ?_⟩
  obtain ⟨-, -, -, hlast⟩ := eval_offers_once hi (Value.over_pair ⟨0⟩) .global htop rfl hlimit 2
  exact hlast _ (by decide +kernel) (by decide +kernel)

/-- A failure that a value is put in the place of is not let pass. -/
example :
    let outcome := (attended ["(5)", ":r (5)", ":r 42"]).watched.eval 4 (.pair ⟨0⟩) .global
    outcome.1 = .ok (.int 42) ∧ outcome.2.state.passed = [] := by
  decide +kernel

end Interpreter

end HostedLisp
