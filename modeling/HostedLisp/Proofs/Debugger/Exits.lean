import HostedLisp.Interpreter
import HostedLisp.Proofs.Debugger.Alike

/-!
# Ways to leave a pause

A pause ends when the user resumes or quits, or when no line is left. Resuming forgets what pauses
were asked for; the other two do not. So they leave the same state behind exactly if nothing was
asked for when the pause began: `Machine.converse_exits`.
-/

namespace HostedLisp

open Debugger

/-- A pause is asked for before some evaluation to come. -/
def Debugger.Controller.Pending (c : Controller) : Prop :=
  c.singleStep = true ∨ c.stepOutOf ≠ none

lemma clearSteps_eq_iff {c : Controller} : c.clearSteps = c ↔ ¬ c.Pending := by
  obtain ⟨trace, breakOnError, interactive, singleStep, stepOutOf, evaluatingLine, paused,
    substitute, unwinding⟩ := c
  simp only [Controller.clearSteps, Controller.Pending, Controller.mk.injEq, not_or, not_not,
    Bool.not_eq_true, true_and, and_true]
  tauto

namespace State

/-- The state in which other lines wait to be read. -/
def reading (s : State) (lines : List String) : State :=
  { s with terminal := { s.terminal with input := lines } }

/-- The state after a line was read. -/
def afterLine (s : State) : State := { s with terminal := s.terminal.readLine.2 }

end State

/-- These lines wait on the two sides. -/
def Lines (left right : List String) (l r : List String) : Prop := l = left ∧ r = right

lemma Alike.afterLine {K : Controller → Prop} {line line' : String} {left right : List String}
    {s t : State} (h : Alike (Lines (line :: left) (line' :: right)) K s t) :
    Alike (Lines left right) K s.afterLine t.afterLine := by
  obtain ⟨hleft, hright⟩ := h.input
  refine ⟨h.heap, h.depth, h.debugger, ?_, ⟨?_, ?_⟩, h.known⟩
  · simp only [State.afterLine, Terminal.readLine, hleft, hright]
    exact h.broken
  · simp only [State.afterLine, Terminal.input_readLine, hleft, List.tail_cons]
  · simp only [State.afterLine, Terminal.input_readLine, hright, List.tail_cons]

namespace Machine

open Run

variable {leader : Char} {frame : FrameId} {s t : State}

/-- The controller during a pause in a frame, with these requests for pauses to come. -/
def HeldIn (frame : FrameId) (singleStep : Bool) (stepOutOf : Option FrameId)
    (c : Controller) : Prop :=
  c.paused = some frame ∧ c.singleStep = singleStep ∧ c.stepOutOf = stepOutOf

/-- During a pause any lines may wait. -/
lemma steady_heldIn {I : List String → List String → Prop} {singleStep : Bool}
    {stepOutOf : Option FrameId} : Steady I (HeldIn frame singleStep stepOutOf) where
  evaluatingLine _ _ h := h
  substitute _ _ h := h
  unwinding _ _ h := h
  set _ which _ h := by cases which <;> exact h
  free c h hnone := by
    rw [h.1] at hnone
    cases hnone

lemma converseFor_end (hs : s.terminal.input = []) (lines : Nat) :
    converseFor leader frame (lines + 1) s =
      .stop (.ok ()) { s with terminal := s.terminal.record (.prompt none) } := by
  rw [converseFor, bind_apply, readLine_apply]
  simp only [Terminal.readLine, hs]
  rfl

lemma converseFor_line {line : String} {rest : List String} (hs : s.terminal.input = line :: rest)
    (lines : Nat) :
    converseFor leader frame (lines + 1) s =
      (obeyLine leader frame line s.afterLine).bind fun flow =>
        match flow with
        | .resume => pure ()
        | .stay => converseFor leader frame lines := by
  have hline : s.terminal.readLine.1 = some line := by simp only [Terminal.readLine, hs]
  rw [converseFor, bind_apply, readLine_apply, hline]
  rfl

lemma obeyLine_command {line : String} {command : Command}
    (hread : Command.read leader line.toList = .ok command)
    (hne : ∀ source, command ≠ .evaluate source) :
    obeyLine leader frame line = obey leader frame command := by
  have hblank : (Text.trim line.toList).isEmpty = false := by
    cases htrim : Text.trim line.toList with
    | nil =>
      rw [Command.read, htrim] at hread
      exact absurd (Except.ok.inj hread).symm (hne [])
    | cons => rfl
  rw [obeyLine, hblank, hread]
  rfl

/-- Lines obeyed during a pause in states that differ in the lines that follow: the outcome is the
same, and so is the rest of what is known unless the pause is over. -/
lemma obeyLine_execute (m : Machine) (fuel : Nat) {singleStep : Bool} {stepOutOf : Option FrameId}
    {first : String} {left right : List String} {flow : Flow} {u : State}
    (h : Alike (Lines (first :: left) (first :: right)) (HeldIn frame singleStep stepOutOf) s t)
    (hu : (obeyLine leader frame first s.afterLine).execute (m.perform fuel) = (.ok flow, u)) :
    ∃ v, (obeyLine leader frame first t.afterLine).execute (m.perform fuel) = (.ok flow, v) ∧
      AfterCommand (Lines left right) (HeldIn frame singleStep stepOutOf) (.ok flow) u v := by
  have hmatches : (obeyLine leader frame first s.afterLine).Matches _ _
      (obeyLine leader frame first t.afterLine) :=
    obeyLine_alike steady_heldIn first h.afterLine
  obtain ⟨hresult, hafter⟩ := (mirrors_alike steady_heldIn m).execute fuel hmatches
    (fun _ _ _ => Alike.command) fun _ _ => trivial
  rw [hu] at hresult hafter
  have hv : (obeyLine leader frame first t.afterLine).execute (m.perform fuel) =
      (.ok flow, ((obeyLine leader frame first t.afterLine).execute (m.perform fuel)).2) :=
    Prod.ext hresult.symm rfl
  exact ⟨_, hv, hafter⟩

lemma Alike.stay {I : List String → List String → Prop} {K : Controller → Prop}
    (h : AfterCommand I K (.ok .stay) s t) : Alike I K s t :=
  ⟨h.heap, h.depth, h.debugger, h.broken, h.input, h.known.resolve_left nofun⟩

/-- If a pause leaves only the lines after some line, that line was read while the pause was still
on. Up to there it makes no difference which lines follow. -/
lemma converseFor_reaches {m : Machine} {fuel : Nat} {singleStep : Bool}
    {stepOutOf : Option FrameId} {ls rest : List String} {line : String} {n : Nat} {t : State}
    (hinput : s.terminal.input = ls ++ line :: rest)
    (hheld : HeldIn frame singleStep stepOutOf s.debugger)
    (hs : (converseFor leader frame (ls.length + n) s).execute (m.perform fuel) = (.ok (), t))
    (hrest : t.terminal.input = rest) :
    ∃ s₁, s₁.terminal.input = line :: rest ∧ HeldIn frame singleStep stepOutOf s₁.debugger ∧
      (converseFor leader frame n s₁).execute (m.perform fuel) = (.ok (), t) ∧
      ∀ more k t, Alike (Lines (ls ++ line :: rest) (ls ++ more))
          (HeldIn frame singleStep stepOutOf) s t →
        ∃ t₁, Alike (Lines (line :: rest) more) (HeldIn frame singleStep stepOutOf) s₁ t₁ ∧
          (converseFor leader frame (ls.length + k) t).execute (m.perform fuel) =
            (converseFor leader frame k t₁).execute (m.perform fuel) := by
  induction ls generalizing s with
  | nil =>
    rw [List.length_nil, Nat.zero_add] at hs
    refine ⟨s, hinput, hheld, hs, fun more k t h => ⟨t, h, ?_⟩⟩
    rw [List.length_nil, Nat.zero_add]
  | cons first ls ih =>
    rw [List.length_cons, Nat.add_right_comm, converseFor_line hinput] at hs
    obtain ⟨flow, u, hu, hend⟩ := Plan.exists_of_execute_bind hs
    have hself : Alike (Lines (first :: (ls ++ line :: rest)) (first :: (ls ++ line :: rest)))
        (HeldIn frame singleStep stepOutOf) s s :=
      ⟨rfl, rfl, rfl, rfl, ⟨hinput, hinput⟩, hheld⟩
    obtain ⟨v, -, hafter⟩ := obeyLine_execute m fuel hself hu
    cases flow with
    | resume =>
      -- Resuming here would leave more lines than `rest`.
      obtain rfl : u = t := congrArg Prod.snd hend
      have hlength := congrArg List.length (hafter.input.1.symm.trans hrest)
      simp only [List.length_append, List.length_cons] at hlength
      omega
    | stay =>
      have hstay := Alike.stay hafter
      obtain ⟨s₁, hinput₁, hheld₁, hs₁, hall⟩ := ih hstay.input.1 hstay.known hend
      refine ⟨s₁, hinput₁, hheld₁, hs₁, fun more k t h => ?_⟩
      obtain ⟨v, hv, hafter'⟩ := obeyLine_execute m fuel h hu
      obtain ⟨t₁, h₁, ht₁⟩ := hall more k v (Alike.stay hafter')
      refine ⟨t₁, h₁, ?_⟩
      have hline : t.terminal.input = first :: (ls ++ more) := h.input.2
      rw [List.length_cons, Nat.add_right_comm, converseFor_line hline, Plan.execute_bind hv]
      exact ht₁

/-! ### The whole pause -/

/-- The state in which the first line of a pause is read. -/
def opened (leader : Char) (frame : FrameId) (s : State) : State :=
  { s with
    debugger := { s.debugger with paused := some frame, substitute := none }
    terminal := s.terminal.display (.pause (s.heap.header frame) leader) }

/-- Opening a pause uses up no line. -/
lemma rounds_opened (leader : Char) (frame : FrameId) (s : State) :
    rounds (opened leader frame s) = rounds s := by
  rw [rounds, rounds, opened, Terminal.input_display]

/-- Lines in front of the others take a round each. -/
lemma rounds_reading_append (ls more : List String) :
    rounds (s.reading (ls ++ more)) = ls.length + rounds (s.reading more) := by
  simp only [rounds, State.reading, List.length_append]
  omega

/-- The rounds of a pause are enough for the lines that wait. -/
lemma length_opened_lt_rounds :
    (opened leader frame s).terminal.input.length < rounds s := by
  rw [← rounds_opened leader frame, rounds]
  omega

lemma converse_eq (hs : s.debugger.paused = none) : converse leader frame s =
    (converseFor leader frame (rounds s) (opened leader frame s)).bind
      fun _ => changeDebugger fun c => { c with paused := none } := by
  rw [← rounds_opened leader frame, converse, bind_apply]
  simp only [view, Plan.bind_stop_ok, hs]
  rfl

/-- A pause that is asked for during another one is refused. -/
lemma converse_of_paused (hs : s.debugger.paused.isSome = true) :
    converse leader frame s = displayLine "Debugger already active." s := by
  rw [converse, bind_apply]
  simp only [view, Plan.bind_stop_ok, hs]
  rfl

/-- The state after a pause. -/
def closed (s : State) : State := { s with debugger := { s.debugger with paused := none } }

lemma converse_execute {m : Machine} {fuel : Nat} (hs : s.debugger.paused = none)
    (ht : (converseFor leader frame (rounds s) (opened leader frame s)).execute (m.perform fuel) =
      (.ok (), t)) :
    (converse leader frame s).execute (m.perform fuel) = (.ok (), closed t) := by
  rw [converse_eq hs, Plan.execute_bind ht]
  rfl

lemma opened_alike (left right : List String) :
    Alike (Lines left right) (HeldIn frame s.debugger.singleStep s.debugger.stepOutOf)
      (opened leader frame (s.reading left)) (opened leader frame (s.reading right)) := by
  refine ⟨rfl, rfl, rfl, ?_, ⟨?_, ?_⟩, rfl, rfl, rfl⟩
  · unfold opened State.reading Terminal.display
    dsimp only
    split <;> rfl
  · exact Terminal.input_display _ _
  · exact Terminal.input_display _ _

/-- A pause that leaves only the lines after some line is still on when that line is read, and
comes as far with any other lines in its place. -/
lemma converse_reaches {m : Machine} {fuel : Nat} {ls rest : List String} {line : String}
    (hs : s.debugger.paused = none)
    (ht : (converse leader frame (s.reading (ls ++ line :: rest))).execute (m.perform fuel) =
      (.ok (), t))
    (hrest : t.terminal.input = rest) :
    ∃ s₁ w, s₁.terminal.input = line :: rest ∧
      HeldIn frame s.debugger.singleStep s.debugger.stepOutOf s₁.debugger ∧
      (converseFor leader frame (rounds (s.reading (line :: rest))) s₁).execute (m.perform fuel) =
        (.ok (), w) ∧
      t = closed w ∧
      ∀ more, ∃ t₁, Alike (Lines (line :: rest) more)
          (HeldIn frame s.debugger.singleStep s.debugger.stepOutOf) s₁ t₁ ∧
        ∀ u, converseFor leader frame (rounds (s.reading more)) t₁ = .stop (.ok ()) u →
          (converse leader frame (s.reading (ls ++ more))).execute (m.perform fuel) =
            (.ok (), closed u) := by
  rw [converse_eq (s := s.reading (ls ++ line :: rest)) hs, rounds_reading_append] at ht
  obtain ⟨⟨⟩, w, hw, hclosed⟩ := Plan.exists_of_execute_bind ht
  obtain rfl : closed w = t := congrArg Prod.snd hclosed
  have hopened : Alike _ _ (opened leader frame (s.reading (ls ++ line :: rest)))
      (opened leader frame (s.reading (ls ++ line :: rest))) := opened_alike _ _
  obtain ⟨s₁, hinput, hheld, hs₁, hall⟩ :=
    converseFor_reaches hopened.input.1 hopened.known hw hrest
  refine ⟨s₁, w, hinput, hheld, hs₁, rfl, fun more => ?_⟩
  obtain ⟨t₁, h₁, ht₁⟩ := hall more (rounds (s.reading more)) _ (opened_alike _ (ls ++ more))
  refine ⟨t₁, h₁, fun u hu => converse_execute (s := s.reading (ls ++ more)) hs ?_⟩
  rw [rounds_reading_append, ht₁, hu]
  rfl

/-! ### The three exits -/

/-- After a line that resumes. -/
def resumed (s : State) : State :=
  closed { s.afterLine with debugger := s.debugger.clearSteps }

/-- After a line that quits, when the host goes on. -/
def quitted (s : State) : State :=
  closed { s.afterLine with terminal := s.afterLine.terminal.record .quit }

/-- After the end of the input. -/
def ended (s : State) : State := closed { s with terminal := s.terminal.record (.prompt none) }

lemma converseFor_resume {line : String} {rest : List String} (k : Nat)
    (hs : s.terminal.input = line :: rest) (hc : Command.read leader line.toList = .ok .resume) :
    converseFor leader frame (k + 1) s =
      .stop (.ok ()) { s.afterLine with debugger := s.debugger.clearSteps } := by
  rw [converseFor_line hs, obeyLine_command hc nofun]
  rfl

lemma converseFor_quit {line : String} {rest : List String} (k : Nat)
    (hs : s.terminal.input = line :: rest) (hq : Command.read leader line.toList = .ok .quit) :
    converseFor leader frame (k + 1) s =
      .stop (.ok ()) { s.afterLine with terminal := s.afterLine.terminal.record .quit } := by
  rw [converseFor_line hs, obeyLine_command hq nofun]
  rfl

/-- With nothing to forget, resuming is the same as quitting. -/
lemma quitted_alike {K : Controller → Prop} {c q : String} {rest : List String}
    (h : Alike (Lines (c :: rest) (q :: rest)) K s t) (hs : ¬ s.debugger.Pending) :
    Alike Eq (fun _ => True) (resumed s) (quitted t) := by
  have hline := h.afterLine
  refine ⟨h.heap, h.depth, ?_, hline.broken, hline.input.1.trans hline.input.2.symm, trivial⟩
  have hsteps : s.debugger.clearSteps = s.debugger := clearSteps_eq_iff.2 hs
  change { t.debugger with paused := none } = { s.debugger.clearSteps with paused := none }
  rw [h.debugger, hsteps]

/-- With nothing to forget, resuming is the same as coming to the end of the input, if the lines
that follow come later. -/
lemma ended_alike {K : Controller → Prop} {c : String} {rest : List String}
    (h : Alike (Lines (c :: rest) []) K s t) (hs : ¬ s.debugger.Pending) :
    Alike Eq (fun _ => True) (resumed s) ((ended t).reading rest) := by
  refine ⟨h.heap, h.depth, ?_, ?_, ?_, trivial⟩
  · have hsteps : s.debugger.clearSteps = s.debugger := clearSteps_eq_iff.2 hs
    change { t.debugger with paused := none } = { s.debugger.clearSteps with paused := none }
    rw [h.debugger, hsteps]
  · change t.terminal.broken = s.terminal.readLine.2.broken
    rw [h.broken, Terminal.readLine]
    split <;> rfl
  · change s.terminal.readLine.2.input = rest
    rw [Terminal.input_readLine, h.input.1, List.tail_cons]

/-- Later runs do the same after states that are alike. -/
lemma later_alike (m : Machine) (h : Alike Eq (fun _ => True) s t) {α : Type} (p : Program α)
    (k : Nat) :
    Outcome.Matches (fun _ => Alike Eq fun _ => True) ((p.run s).execute (m.perform k))
      ((p.run t).execute (m.perform k)) :=
  (mirrors_alike steady_eq m).execute k (Matches.program coupling_alike p s t h)
    (fun _ _ _ h => h) fun _ _ => trivial

/-- Three ways to leave a pause after the same lines: by a line that resumes, by one that quits, and
because no line is left. The last two leave the controller in the same state, and resuming does so
too exactly if no pause was asked for when this one began. Then all later runs have the same
outcome, whichever way was taken. -/
theorem converse_exits {m : Machine} {fuel : Nat} {ls rest : List String} {c q : String}
    (hs : s.debugger.paused = none) (hc : Command.read leader c.toList = .ok .resume)
    (hq : Command.read leader q.toList = .ok .quit)
    (ht : (converse leader frame (s.reading (ls ++ c :: rest))).execute (m.perform fuel) =
      (.ok (), t))
    (hrest : t.terminal.input = rest) :
    ∃ u e, (converse leader frame (s.reading (ls ++ q :: rest))).execute (m.perform fuel) =
        (.ok (), u) ∧ u.terminal.events.back? = some .quit ∧
      (converse leader frame (s.reading ls)).execute (m.perform fuel) = (.ok (), e) ∧
        e.terminal.events.back? = some (.prompt none) ∧
      u.debugger = e.debugger ∧ t.debugger = e.debugger.clearSteps ∧
      (t.debugger = e.debugger ↔ ¬ s.debugger.Pending) ∧
      (¬ s.debugger.Pending → ∀ {α : Type} (p : Program α) (k : Nat),
        Outcome.Matches (fun _ => Alike Eq fun _ => True) ((p.run t).execute (m.perform k))
            ((p.run u).execute (m.perform k)) ∧
          Outcome.Matches (fun _ => Alike Eq fun _ => True) ((p.run t).execute (m.perform k))
            ((p.run (e.reading rest)).execute (m.perform k))) := by
  obtain ⟨s₁, w, hinput, hheld, hw, rfl, hall⟩ := converse_reaches hs ht hrest
  rw [rounds, converseFor_resume _ hinput hc] at hw
  obtain rfl : { s₁.afterLine with debugger := s₁.debugger.clearSteps } = w :=
    congrArg Prod.snd hw
  obtain ⟨t₁, h₁, hu⟩ := hall (q :: rest)
  obtain ⟨t₂, h₂, he⟩ := hall []
  rw [List.append_nil] at he
  have hpending : s₁.debugger.Pending ↔ s.debugger.Pending := by
    rw [Controller.Pending, Controller.Pending, hheld.2.1, hheld.2.2]
  have hended : (ended t₂).debugger = { s₁.debugger with paused := none } :=
    congrArg ({ · with paused := none }) h₂.debugger
  have hquitted : (quitted t₁).debugger = { s₁.debugger with paused := none } :=
    congrArg ({ · with paused := none }) h₁.debugger
  refine ⟨quitted t₁, ended t₂, hu _ (converseFor_quit _ h₁.input.2 hq), ?_,
    he _ (converseFor_end h₂.input.2 _), ?_, hquitted.trans hended.symm, ?_, ?_, ?_⟩
  · exact Array.back?_push
  · exact Array.back?_push
  · rw [hended]
    rfl
  · rw [hended, ← hpending]
    exact clearSteps_eq_iff (c := { s₁.debugger with paused := none })
  · intro hfree
    rw [← hpending] at hfree
    exact fun p k =>
      ⟨later_alike m (quitted_alike h₁ hfree) p k, later_alike m (ended_alike h₂ hfree) p k⟩

end Machine

namespace Interpreter

/-- An interpreter with a user who writes the lines, and a host that asks for a pause before the
next evaluation. -/
def stepping (lines : List String) : Interpreter :=
  let i := bare { Config.standard with interactive := true }
  { i with state := { i.state with
      debugger := { i.state.debugger with singleStep := true }
      terminal := .ofLines lines } }

/-- The step that the host asked for outlives a pause that is not left by resuming. -/
theorem converse_exits_stepping :
    let pause (lines : List String) :=
      (Machine.converse ':' .global ((stepping []).state.reading lines)).execute
        ((stepping []).machine.perform 0)
    ∃ t u e, pause [":b", ":c"] = (.ok (), t) ∧ pause [":b", ":q"] = (.ok (), u) ∧
      pause [":b"] = (.ok (), e) ∧ t.debugger ≠ e.debugger ∧ u.debugger = e.debugger := by
  intro pause
  have hpaused : (stepping []).state.debugger.paused = none := rfl
  have hc : Command.read ':' ":c".toList = .ok .resume := by decide +kernel
  have hq : Command.read ':' ":q".toList = .ok .quit := by decide +kernel
  have ht : pause ([":b"] ++ ":c" :: []) = (.ok (), (pause [":b", ":c"]).2) := rfl
  have hrest : (pause [":b", ":c"]).2.terminal.input = [] := by decide +kernel
  obtain ⟨u, e, hu, -, he, -, hue, -, hte, -⟩ :=
    Machine.converse_exits hpaused hc hq ht hrest
  exact ⟨_, u, e, ht, hu, he, fun heq => hte.1 heq (Or.inl rfl), hue⟩

/-- The interpreter after the evaluation of a name without a binding. -/
def afterName (lines : List String) : Interpreter :=
  ((stepping lines).run 1 (.eval (.sym ⟨"x"⟩) .global)).2

/-- Whether anything is shown when the interpreter evaluates a number. -/
def interrupts (i : Interpreter) : Bool :=
  i.state.terminal.events.size < (i.run 1 (.eval (.int 7) .global)).2.state.terminal.events.size

/-- A user asks for a step before a name is evaluated, which fails. If the pause at the failure is
left by the end of the input or by quitting, the next evaluation is still held up. It is not if
the pause is left by resuming. -/
theorem step_outlives_pause :
    (afterName [":s"]).state.debugger.singleStep = true ∧
      (afterName [":s", ":q"]).state.debugger.singleStep = true ∧
      (afterName [":s", ":c"]).state.debugger.singleStep = false ∧
      (afterName [":s"]).interrupts = true ∧ (afterName [":s", ":q"]).interrupts = true ∧
      (afterName [":s", ":c"]).interrupts = false := by
  decide +kernel

end Interpreter

end HostedLisp
