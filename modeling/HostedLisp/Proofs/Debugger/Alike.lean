import HostedLisp.Proofs.Machine.Mirroring

/-!
# States that differ in the terminal only

What has been shown on the terminal has no effect on what is done next, and while a pause is under
way the lines that wait have none on evaluations. `Alike` relates states that differ in these, and
a machine mirrors itself under it: `Machine.mirrors_alike`.
-/

namespace HostedLisp

open Debugger

/-- States that agree but for what has been shown and for the lines that wait, of which `I` holds.
Of the debugger `K` is known. -/
structure Alike (I : List String → List String → Prop) (K : Controller → Prop) (s t : State) :
    Prop where
  heap : t.heap = s.heap
  depth : t.depth = s.depth
  debugger : t.debugger = s.debugger
  broken : t.terminal.broken = s.terminal.broken
  input : I s.terminal.input t.terminal.input
  known : K s.debugger

/-- What is known of the debugger remains so during a pause. If no pause is under way, nothing is
known, and the same lines wait. -/
structure Steady (I : List String → List String → Prop) (K : Controller → Prop) : Prop where
  evaluatingLine : ∀ c on, K c → K { c with evaluatingLine := on }
  substitute : ∀ c value, K c → K { c with substitute := value }
  unwinding : ∀ c on, K c → K { c with unwinding := on }
  set : ∀ c which on, K c → K (c.set which on)
  free : ∀ c, K c → c.paused = none → I = Eq ∧ ∀ c, K c

/-- The same lines wait, and nothing is known of the debugger. -/
lemma steady_eq : Steady Eq fun _ => True :=
  ⟨fun _ _ _ => trivial, fun _ _ _ => trivial, fun _ _ _ => trivial, fun _ _ _ _ => trivial,
    fun _ _ _ => ⟨rfl, fun _ => trivial⟩⟩

namespace Machine

open Run

variable {I : List String → List String → Prop} {K : Controller → Prop} {α : Type}
  {leader : Char} {frame : FrameId}

lemma coupling_alike : Coupling (Alike I K) where
  heap h := h.heap
  depth h := h.depth
  setHeap h _ := ⟨rfl, h.depth, h.debugger, h.broken, h.input, h.known⟩
  setDepth h _ := ⟨h.heap, rfl, h.debugger, h.broken, h.input, h.known⟩

/-! ### Steps of the debugger -/

lemma display_alike (event : Event) : (display event).Matches (Alike I K) (display event) := by
  refine Matches.modify fun s t h => ⟨h.heap, h.depth, h.debugger, ?_, ?_, h.known⟩
  · simp only [Terminal.display, h.broken]
    split <;> exact h.broken
  · simpa only [Terminal.input_display] using h.input

lemma record_alike (event : Event) : (record event).Matches (Alike I K) (record event) :=
  Matches.modify fun _ _ h => ⟨h.heap, h.depth, h.debugger, h.broken, h.input, h.known⟩

lemma displayView_alike (text : Heap → String) :
    (displayView text).Matches (Alike I K) (displayView text) :=
  Matches.bind (Matches.viewHeap coupling_alike fun heap => heap) fun _ => display_alike _

lemma viewDebugger_alike (f : Controller → α) :
    (view (f ·.debugger)).Matches (Alike I K) (view (f ·.debugger)) :=
  Matches.view fun _ _ h => congrArg f h.debugger

lemma changeDebugger_alike {f : Controller → Controller} (hf : ∀ c, K c → K (f c)) :
    (changeDebugger f).Matches (Alike I K) (changeDebugger f) :=
  Matches.modify fun _ _ h =>
    ⟨h.heap, h.depth, congrArg f h.debugger, h.broken, h.input, hf _ h.known⟩

lemma traceValue_alike (mark : String) (value : Value) :
    (traceValue mark value).Matches (Alike I K) (traceValue mark value) := by
  refine Matches.bind (viewDebugger_alike (·.trace)) fun on => ?_
  cases on with
  | false => exact Matches.pure ()
  | true =>
    refine Matches.bind (Matches.view fun _ _ h => h.depth) fun depth => ?_
    exact Matches.bind (Matches.viewHeap coupling_alike (·.render value)) fun _ => display_alike _

/-- The states after a command: what was known is known still, unless the command resumes. -/
def AfterCommand (I : List String → List String → Prop) (K : Controller → Prop)
    (result : Except Halt Flow) : State → State → Prop :=
  Alike I fun c => result = .ok .resume ∨ K c

lemma Alike.command {result : Except Halt Flow} {s t : State} (h : Alike I K s t) :
    AfterCommand I K result s t :=
  ⟨h.heap, h.depth, h.debugger, h.broken, h.input, Or.inr h.known⟩

lemma Matches.command {x : Run Flow} (hx : x.Matches (Alike I K) x) {s t : State}
    (h : Alike I K s t) : (x s).Matches (Alike I K) (AfterCommand I K) (x t) :=
  (hx s t h).post_mono fun _ _ _ h => Alike.command h

/-- A command that resumes may change the debugger in any way. -/
lemma resume_alike (f : Controller → Controller) {s t : State} (h : Alike I K s t) :
    ((changeDebugger f >>= fun _ => pure Flow.resume) s).Matches (Alike I K) (AfterCommand I K)
      ((changeDebugger f >>= fun _ => pure Flow.resume) t) :=
  .stop ⟨h.heap, h.depth, congrArg f h.debugger, h.broken, h.input, Or.inl rfl⟩

variable (hK : Steady I K)

include hK

lemma evalLine_alike (source : List Char) (frame : FrameId) :
    (evalLine source frame).Matches (Alike I K) (evalLine source frame) := by
  unfold evalLine
  cases Datum.read (String.ofList source) with
  | error e => exact Matches.pure _
  | ok d =>
    refine Matches.bind (Matches.program coupling_alike _) fun expr => ?_
    refine Matches.bind (viewDebugger_alike (·.evaluatingLine)) fun outer => ?_
    refine Matches.bind (changeDebugger_alike fun c => hK.evaluatingLine c true) fun _ => ?_
    refine Matches.bind (Matches.attempt (Matches.request _)) fun result => ?_
    refine Matches.bind (changeDebugger_alike fun c => hK.evaluatingLine c outer) fun _ => ?_
    exact Matches.pure result

lemma takeSubstitute_alike : takeSubstitute.Matches (Alike I K) takeSubstitute := by
  refine Matches.bind (viewDebugger_alike (·.substitute)) fun value => ?_
  refine Matches.bind (changeDebugger_alike fun c => hK.substitute c none) fun _ => ?_
  exact Matches.pure value

lemma obey_alike (command : Command) {s t : State} (h : Alike I K s t) :
    (obey leader frame command s).Matches (Alike I K) (AfterCommand I K)
      (obey leader frame command t) := by
  cases command with
  | help => exact Matches.command (Matches.bind (display_alike _) fun _ => Matches.pure _) h
  | backtrace | dump | frame =>
    exact Matches.command (Matches.bind (displayView_alike _) fun _ => Matches.pure _) h
  | breakOnError on | trace on =>
    refine Matches.command
      (Matches.bind (changeDebugger_alike fun c => hK.set c _ on) fun _ => ?_) h
    exact Matches.bind (display_alike _) fun _ => Matches.pure _
  | quit => exact Matches.command (Matches.bind (record_alike _) fun _ => Matches.pure _) h
  | resume | step => exact resume_alike _ h
  | stepOut =>
    rw [obey, bind_apply, bind_apply]
    refine (Matches.viewHeap coupling_alike (·.parent? frame) s t h).bind ?_ fun _ _ _ =>
      Alike.command
    intro parent s t h
    cases parent with
    | none => exact Matches.command (Matches.bind (display_alike _) fun _ => Matches.pure _) h
    | some _ => exact resume_alike _ h
  | resumeWith source =>
    refine (evalLine_alike hK source frame s t h).bind ?_ fun _ _ _ => Alike.command
    intro result s t h
    cases result with
    | ok value => exact resume_alike _ h
    | error e => exact Matches.command (Matches.bind (display_alike _) fun _ => Matches.pure _) h
  | evaluate source =>
    refine Matches.command (Matches.bind (evalLine_alike hK source frame) fun result => ?_) h
    cases result with
    | ok value => exact Matches.bind (displayView_alike _) fun _ => Matches.pure _
    | error e => exact Matches.bind (display_alike _) fun _ => Matches.pure _

lemma obeyLine_alike (line : String) {s t : State} (h : Alike I K s t) :
    (obeyLine leader frame line s).Matches (Alike I K) (AfterCommand I K)
      (obeyLine leader frame line t) := by
  unfold obeyLine
  split
  · exact Matches.command (Matches.pure _) h
  · cases Command.read leader line.toList with
    | error refusal =>
      exact Matches.command (Matches.bind (display_alike _) fun _ => Matches.pure _) h
    | ok command => exact obey_alike hK command h

/-! ### Pauses -/

omit hK in
lemma readLine_alike (hI : I = Eq) : readLine.Matches (Alike I K) readLine := by
  subst hI
  intro s t h
  have hinput : t.terminal.input = s.terminal.input := h.input.symm
  have hline : t.terminal.readLine.1 = s.terminal.readLine.1 := by
    unfold Terminal.readLine
    rw [hinput]
    cases s.terminal.input <;> rfl
  have hbroken (u : State) : u.terminal.readLine.2.broken = u.terminal.broken := by
    unfold Terminal.readLine
    cases u.terminal.input <;> rfl
  rw [readLine_apply, readLine_apply, hline]
  refine .stop ⟨h.heap, h.depth, h.debugger, ?_, ?_, h.known⟩
  · exact (hbroken t).trans (h.broken.trans (hbroken s).symm)
  · dsimp only
    rw [Terminal.input_readLine, Terminal.input_readLine, hinput]

lemma converseFor_alike (hI : I = Eq) (hall : ∀ c, K c) (lines : Nat) :
    (converseFor leader frame lines).Matches (Alike I K) (converseFor leader frame lines) := by
  induction lines with
  | zero => exact Matches.pure ()
  | succ lines ih =>
    refine Matches.bind (readLine_alike hI) fun line => ?_
    cases line with
    | none => exact Matches.pure ()
    | some line =>
      refine Matches.bind (fun s t h => (obeyLine_alike hK line h).post_mono ?_) fun flow => ?_
      · exact fun _ _ _ h => ⟨h.heap, h.depth, h.debugger, h.broken, h.input, hall _⟩
      · cases flow with
        | resume => exact Matches.pure ()
        | stay => exact ih

lemma converse_alike : (converse leader frame).Matches (Alike I K) (converse leader frame) := by
  intro s t h
  by_cases hpaused : s.debugger.paused = none
  · obtain ⟨hI, hall⟩ := hK.free _ h.known hpaused
    have hrun : (converse leader frame).Matches (Alike I K) (converse leader frame) := by
      refine Matches.bind (viewDebugger_alike (·.paused)) fun paused => ?_
      split
      · exact display_alike _
      · refine Matches.bind (changeDebugger_alike fun _ _ => hall _) fun _ => ?_
        refine Matches.bind (Matches.viewHeap coupling_alike (·.header frame)) fun _ => ?_
        refine Matches.bind (display_alike _) fun _ => ?_
        refine Matches.bind (Matches.view fun s t h => ?_) fun lines => ?_
        · have hinput := h.input
          rw [hI] at hinput
          rw [rounds, rounds, h.debugger, hinput]
        · refine Matches.bind (converseFor_alike hK hI hall _) fun _ => ?_
          exact changeDebugger_alike fun _ _ => hall _
    exact hrun s t h
  · have hsome : s.debugger.paused.isSome = true := Option.isSome_iff_ne_none.2 hpaused
    rw [converse, bind_apply, bind_apply]
    simp only [view, Plan.bind_stop_ok, h.debugger]
    rw [if_pos hsome]
    exact display_alike _ s t h

lemma offer_alike (error : Error) (frame : FrameId) :
    (offer leader error frame).Matches (Alike I K) (offer leader error frame) := by
  refine Matches.bind (viewDebugger_alike (·.breaks)) fun breaks => ?_
  cases breaks with
  | false => exact Matches.raise error
  | true =>
    refine Matches.bind (display_alike _) fun _ => ?_
    refine Matches.bind (converse_alike hK) fun _ => ?_
    refine Matches.bind (takeSubstitute_alike hK) fun value => ?_
    cases value with
    | some value => exact Matches.pure value
    | none =>
      refine Matches.bind (changeDebugger_alike fun c => hK.unwinding c true) fun _ => ?_
      exact Matches.raise error

lemma hold_alike (expr : Value) (frame : FrameId) :
    (hold leader expr frame).Matches (Alike I K) (hold leader expr frame) := by
  intro s t h
  have hheld : isHeld t frame = isHeld s frame := by
    unfold isHeld
    rw [h.debugger, h.heap]
  rw [hold, bind_apply, bind_apply]
  simp only [view, Plan.bind_stop_ok, hheld]
  split
  · next hs =>
    have hpaused : s.debugger.paused = none := by
      simp only [isHeld, Bool.and_eq_true, Option.isNone_iff_eq_none] at hs
      exact hs.1.2
    obtain ⟨-, hall⟩ := hK.free _ h.known hpaused
    refine Matches.bind (changeDebugger_alike fun _ _ => hall _) (fun _ => ?_) s t h
    refine Matches.bind (Matches.viewHeap coupling_alike (·.render expr)) fun _ => ?_
    refine Matches.bind (display_alike _) fun _ => ?_
    exact Matches.bind (converse_alike hK) fun _ => takeSubstitute_alike hK
  · exact .stop h

lemma debugger_alike (m : Machine) {r : Request} (hr : r.ToDebugger) :
    (m.serve r).Matches (Alike I K) (m.serve r) := by
  cases r with
  | pause frame =>
    refine Matches.bind (viewDebugger_alike (·.interactive)) fun interactive => ?_
    cases interactive with
    | false => exact Matches.pure _
    | true =>
      refine Matches.bind (converse_alike hK) fun _ => ?_
      exact Matches.bind (takeSubstitute_alike hK) fun _ => Matches.pure _
  | setting which change =>
    have hread : (do pure (Value.bool (← view (·.debugger.setting which)))).Matches (Alike I K) _ :=
      Matches.bind (viewDebugger_alike (·.setting which)) fun _ => Matches.pure _
    cases change with
    | none => exact hread
    | some on => exact Matches.bind (changeDebugger_alike fun c => hK.set c which on) fun _ => hread
  | print text => exact Matches.bind (display_alike _) fun _ => Matches.pure _
  | isPaused => exact Matches.bind (viewDebugger_alike (·.paused)) fun _ => Matches.pure _
  | _ => exact hr.elim

/-- A machine does the same in states that differ in the terminal only. -/
theorem mirrors_alike (m : Machine) : Mirrors (Alike I K) (fun _ => True) m m where
  coupling := coupling_alike
  bodies := rfl
  maxDepth := rfl
  begin s t h := by
    unfold begin
    rw [h.depth]
    split
    · exact ⟨h.heap, rfl, congrArg ({ · with unwinding := false }) h.debugger, h.broken, h.input,
        hK.unwinding _ false h.known⟩
    · exact h
  trace := traceValue_alike
  offer := offer_alike hK
  hold := hold_alike hK
  debugger _ hr _ := debugger_alike hK m hr

end Machine

end HostedLisp
