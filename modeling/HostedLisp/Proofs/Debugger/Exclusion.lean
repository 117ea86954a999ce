import HostedLisp.Proofs.Debugger.Exits
import HostedLisp.Proofs.Machine.Compositional
import HostedLisp.Proofs.Plan.Service

/-!
# One pause at a time

While a pause is under way, nothing that its lines evaluate can begin another one: failures are not
offered, evaluations are not held up, and a pause that is asked for is refused. So it is the pause
itself that reads the lines, each of them once and in their order: `Machine.converse_alone`. This
holds whatever the switches of the debugger are and however deep evaluations are nested, also for
code of a host that pauses by itself.
-/

namespace HostedLisp

variable {α β : Type}

namespace Debugger

/-- What was read, if anything was: a line, or the end of the input. -/
def Event.reading? : Event → Option (Option String)
  | .prompt line => some line
  | _ => none

/-- An event that can happen without a pause being begun. -/
def Event.Continues : Event → Prop
  | .prompt _ | .quit | .output _ => True
  | .failure _ | .held .. | .pause .. => False

/-- What is read from the first terminal to the second, while no pause begins. -/
structure Terminal.Reads (lines : List (Option String)) (t t' : Terminal) : Prop where
  input : t.input = lines.filterMap id ++ t'.input
  events : ∃ new, t'.events.toList = t.events.toList ++ new ∧
    new.filterMap Event.reading? = lines ∧ ∀ e ∈ new, e.Continues

namespace Terminal.Reads

variable {t t' t'' : Terminal} {lines lines' : List (Option String)}

lemma refl (t : Terminal) : Reads [] t t := ⟨rfl, [], by simp, rfl, by simp⟩

lemma trans (h : Reads lines t t') (h' : Reads lines' t' t'') : Reads (lines ++ lines') t t'' := by
  obtain ⟨new, hnew, hread, hall⟩ := h.events
  obtain ⟨new', hnew', hread', hall'⟩ := h'.events
  refine ⟨?_, new ++ new', ?_, ?_, ?_⟩
  · rw [h.input, h'.input, List.filterMap_append, List.append_assoc]
  · rw [hnew', hnew, List.append_assoc]
  · rw [List.filterMap_append, hread, hread']
  · exact List.forall_mem_append.2 ⟨hall, hall'⟩

lemma record {e : Event} (hread : e.reading? = none) (he : e.Continues) :
    Reads [] t (t.record e) :=
  ⟨rfl, [e], by simp, by simp [hread], by simpa using he⟩

lemma output (text : String) : Reads [] t (t.display (.output text)) := by
  unfold display
  split
  · exact refl t
  · exact record rfl trivial

/-- A line is taken from the input, and that is recorded even if the display is broken. -/
lemma readLine (t : Terminal) : Reads [t.readLine.1] t t.readLine.2 := by
  refine ⟨?_, [.prompt t.readLine.1], ?_, rfl, by simp [Event.Continues]⟩
  · cases hinput : t.input <;> simp [Terminal.readLine, hinput]
  · cases hinput : t.input <;> simp [Terminal.readLine, hinput]

end Terminal.Reads

end Debugger

open Debugger

/-! ### During a pause -/

/-- The pause that is under way is still the same, and nothing is read. -/
structure Spared (s t : State) : Prop where
  paused : t.debugger.paused = s.debugger.paused
  terminal : Terminal.Reads [] s.terminal t.terminal

namespace Spared

variable {s t u : State}

lemma refl (s : State) : Spared s s := ⟨rfl, .refl s.terminal⟩

lemma trans (h : Spared s t) (h' : Spared t u) : Spared s u :=
  ⟨h'.paused.trans h.paused, h.terminal.trans h'.terminal⟩

end Spared

/-- States during a pause, among them all that the pause is spared in. -/
structure DuringPause (P : State → Prop) : Prop where
  paused : ∀ s, P s → s.debugger.paused.isSome = true
  spared : ∀ s t, P s → Spared s t → P t

lemma duringPause_spared {s : State} (hs : s.debugger.paused.isSome = true) :
    DuringPause (Spared s) where
  paused t ht := by rw [ht.paused, hs]
  spared _ _ := Spared.trans

/-- Requests are asked in such states, and the pause is spared in answering them. -/
def hush (P : State → Prop) : Contract where
  may _ s := P s
  gives _ s _ t := Spared s t
  faults := True

/-- During a pause a run asks and ends so that the pause is spared, and ends with an error only if
it may fail. -/
def Run.Hushed (fails : Prop) (x : Run α) : Prop :=
  ∀ P, DuringPause P → ∀ s, P s →
    (x s).Meets (hush P) fun result t => Spared s t ∧ ∀ e, result = .error e → fails

lemma DuringPause.chained {P : State → Prop} (hP : DuringPause P) : Chained P Spared where
  refl s _ := Spared.refl s
  trans _ _ _ := Spared.trans
  fit := hP.spared

namespace Run.Hushed

variable {fails : Prop} {x : Run α}

lemma pure (a : α) : (Pure.pure a : Run α).Hushed fails := fun _ hP => Leads.pure hP.chained a

lemma raise (e : Error) : (Run.raise e : Run α).Hushed True := fun _ hP => Leads.raise hP.chained e

lemma fault : (Run.halt .fault : Run α).Hushed fails := fun _ _ => Leads.fault trivial

lemma bind {f : α → Run β} (hx : x.Hushed fails) (hf : ∀ a, (f a).Hushed fails) :
    (x >>= f).Hushed fails :=
  fun P hP => Leads.bind hP.chained (hx P hP) fun a => hf a P hP

lemma attempt (hx : x.Hushed True) : (Run.attempt x).Hushed fails :=
  fun P hP => Leads.attempt (hx P hP)

lemma request (r : Request) : (Run.request r).Hushed True :=
  fun _ _ => Leads.request (fun _ hs => hs) fun _ _ _ h => h

lemma view (f : State → α) : (Run.view f).Hushed fails := fun _ hP => Leads.view hP.chained f

lemma modify {f : State → State} (hf : ∀ s, Spared s (f s)) : (Run.modify f).Hushed fails :=
  fun _ _ => Leads.modify fun s _ => hf s

lemma changeHeap (f : Heap → Heap) : (Run.changeHeap f).Hushed fails :=
  modify fun s => ⟨rfl, .refl s.terminal⟩

lemma changeDebugger {f : Controller → Controller} (hf : ∀ c, (f c).paused = c.paused) :
    (Run.changeDebugger f).Hushed fails :=
  modify fun s => ⟨hf s.debugger, .refl s.terminal⟩

lemma set (which : Setting) (on : Bool) : (Run.changeDebugger (·.set which on)).Hushed fails := by
  cases which <;> exact changeDebugger fun _ => rfl

lemma output (text : String) : (Run.display (.output text)).Hushed fails :=
  modify fun _ => ⟨rfl, .output text⟩

lemma displayLine (text : String) : (Run.displayLine text).Hushed fails := output _

lemma quit : (Run.record .quit).Hushed fails := modify fun _ => ⟨rfl, .record rfl trivial⟩

end Run.Hushed

lemma hushed_compositional : Run.Compositional (Run.Hushed True) where
  pure := .pure
  raise := .raise
  fault := .fault
  bind := .bind
  view := .view
  change := Run.Compositional.of_changeHeap (P := Run.Hushed True) .pure .bind .view .changeHeap
  displayLine := .displayLine
  request := .request

namespace Machine

open Run

variable {leader : Char} {frame : FrameId} {fails : Prop}

/-! ### What a line does -/

lemma hushed_obedient : Run.Obedient (Run.Hushed fails) where
  pure := .pure
  bind := .bind
  view := .view
  output := .output
  quit := .quit
  set := .set
  clearSteps := .changeDebugger fun _ => rfl
  singleStep := .changeDebugger fun _ => rfl
  stepOutOf _ := .changeDebugger fun _ => rfl
  evalLine source _ := by
    refine Run.evalLine_of (P := Hushed fails) .pure .bind .view (fun d => ?_)
      (fun _ => .changeDebugger fun _ => rfl) (fun _ => .attempt (.request _)) source
    exact Compositional.of_changeHeap (P := Hushed fails) .pure .bind .view .changeHeap _

lemma obeyLine_hushed (line : String) : (obeyLine leader frame line).Hushed fails :=
  hushed_obedient.obeyLine (fun _ => .changeDebugger fun _ => rfl) line

/-! ### The three ways into a pause -/

/-- A pause that is asked for during another one is refused. -/
lemma converse_hushed : (converse leader frame).Hushed fails := by
  intro P hP s hs
  rw [converse_of_paused (hP.paused s hs)]
  exact Hushed.displayLine _ P hP s hs

lemma takeSubstitute_hushed : takeSubstitute.Hushed fails := by
  refine Hushed.bind (Hushed.view _) fun value => ?_
  exact Hushed.bind (Hushed.changeDebugger fun _ => rfl) fun _ => Hushed.pure value

/-- A failure during a pause is not offered. -/
lemma offer_hushed (e : Error) (frame : FrameId) : (offer leader e frame).Hushed True := by
  intro P hP s hs
  rw [offer, bind_apply]
  simp only [view, Plan.bind_stop_ok, Controller.breaks_eq_false_of_paused (hP.paused s hs)]
  exact Hushed.raise e P hP s hs

/-- No evaluation is held up during a pause, whatever steps are asked for. -/
lemma hold_hushed (expr : Value) (frame : FrameId) : (hold leader expr frame).Hushed fails := by
  intro P hP s hs
  have hheld : isHeld s frame = false := by
    have hpaused := hP.paused s hs
    cases hp : s.debugger.paused with
    | none => simp [hp] at hpaused
    | some other => simp [isHeld, hp]
  rw [hold, bind_apply]
  simp only [view, Plan.bind_stop_ok, hheld]
  exact Hushed.pure none P hP s hs

end Machine

/-! ### Code of the host -/

/-- Code of a host that uses the terminal only to write on it. -/
inductive GuestCode (leader : Char) : {α : Type} → Run α → Prop
  | pure {α : Type} (a : α) : GuestCode leader (pure a : Run α)
  | raise {α : Type} (e : Error) : GuestCode leader (Run.raise e : Run α)
  | fault {α : Type} : GuestCode leader (Run.halt .fault : Run α)
  | bind {α β : Type} {x : Run α} {f : α → Run β} (hx : GuestCode leader x)
      (hf : ∀ a, GuestCode leader (f a)) : GuestCode leader (x >>= f)
  | attempt {α : Type} {x : Run α} (hx : GuestCode leader x) : GuestCode leader x.attempt
  | view {α : Type} (f : State → α) : GuestCode leader (Run.view f)
  | changeHeap (f : Heap → Heap) : GuestCode leader (Run.changeHeap f)
  | output (text : String) : GuestCode leader (Run.display (.output text))
  | set (which : Debugger.Setting) (on : Bool) :
      GuestCode leader (Run.changeDebugger (·.set which on))
  | setInteractive (on : Bool) :
      GuestCode leader (Run.changeDebugger fun c => { c with interactive := on })
  | setSingleStep (on : Bool) :
      GuestCode leader (Run.changeDebugger fun c => { c with singleStep := on })
  | request (r : Request) : GuestCode leader (Run.request r)
  | offer (e : Error) (frame : FrameId) : GuestCode leader (Machine.offer leader e frame)
  | converse (frame : FrameId) : GuestCode leader (Machine.converse leader frame)

theorem GuestCode.hushed {leader : Char} {x : Run α} (hx : GuestCode leader x) :
    x.Hushed True := by
  open Run in
  induction hx with
  | pure a => exact Hushed.pure a
  | raise e => exact Hushed.raise e
  | fault => exact Hushed.fault
  | bind _ _ ihx ihf => exact Hushed.bind ihx ihf
  | attempt _ ih => exact Hushed.attempt ih
  | view f => exact Hushed.view f
  | changeHeap f => exact Hushed.changeHeap f
  | output text => exact Hushed.output text
  | set which on => exact Hushed.set which on
  | setInteractive on | setSingleStep on => exact Hushed.changeDebugger fun _ => rfl
  | request r => exact Hushed.request r
  | offer e frame => exact Machine.offer_hushed e frame
  | converse frame => exact Machine.converse_hushed

namespace Machine

open Run

variable {m : Machine}

/-- The runs of the machine, and such code of the host for the primitives. -/
inductive Guests (m : Machine) : Service
  | own (r : Request) : m.Guests r (m.serve r)
  | guest {x : Run Value} (hx : GuestCode m.config.leader x) (p : Primitive) (args : List Value)
      (frame : FrameId) : m.Guests (.apply (.primitive p) args frame) x

/-! ### The evaluator -/

lemma hushed_thorough : Run.Thorough m (Run.Hushed True) where
  toCompositional := hushed_compositional
  attempt := .attempt
  setCode _ _ := .changeHeap _
  output := .output
  set := .set
  offer := offer_hushed
  hold := hold_hushed
  converse _ := converse_hushed
  takeSubstitute := takeSubstitute_hushed

lemma begin_spared (s : State) : Spared s (begin s) := by
  unfold begin
  split
  · exact ⟨rfl, .refl s.terminal⟩
  · exact Spared.refl s

lemma evaluate_hushed (expr : Value) (frame : FrameId) : (m.evaluate expr frame).Hushed True :=
  fun P hP => Leads.evaluate hP.chained (fun s _ => begin_spared s)
    (fun _ _ _ h => ⟨h.paused, h.terminal⟩) (hushed_thorough.evalWithin expr frame P hP)

lemma serve_hushed (r : Request) : (m.serve r).Hushed True := by
  cases r with
  | eval expr frame => exact evaluate_hushed expr frame
  | _ => exact hushed_thorough.serve nofun

/-- Whatever serves a request during a pause, the pause is spared. -/
theorem Guests.hushed {r : Request} {x : Run Value} (hx : m.Guests r x) : x.Hushed True := by
  cases hx with
  | own => exact serve_hushed r
  | guest hx => exact hx.hushed

lemma Guests.meets {P : State → Prop} (hP : DuringPause P) (r : Request) (x : Run Value)
    (s : State) (hx : m.Guests r x) (hs : (hush P).may r s) :
    (x s).Meets (hush P) ((hush P).gives r s) :=
  (hx.hushed P hP s hs).post_mono fun _ _ ht => ht.1

/-! ### The pause itself -/

/-- From the beginning of a pause in `frame` it has come so far that these lines were read. -/
structure Attended (frame : FrameId) (lines : List (Option String)) (s t : State) : Prop where
  paused : t.debugger.paused = some frame
  terminal : Terminal.Reads lines s.terminal t.terminal

/-- The pause goes on. -/
def Waiting (frame : FrameId) (s t : State) : Prop :=
  ∃ lines : List String, Attended frame (lines.map some) s t

/-- The pause is at its end. The last that was read is a line, or else no line is left. -/
def Over (frame : FrameId) (s t : State) : Prop :=
  ∃ lines : List String, Attended frame (lines.map some) s t ∨
    Attended frame (lines.map some ++ [none]) s t ∧ t.terminal.input = []

lemma duringPause_waiting (frame : FrameId) (s : State) : DuringPause (Waiting frame s) where
  paused := by
    rintro t ⟨lines, ht⟩
    rw [ht.paused]
    rfl
  spared := by
    rintro t u ⟨lines, ht⟩ hu
    have hreads := ht.terminal.trans hu.terminal
    rw [List.append_nil] at hreads
    exact ⟨lines, hu.paused.trans ht.paused, hreads⟩

lemma Waiting.over {frame : FrameId} {s t : State} (h : Waiting frame s t) : Over frame s t := by
  obtain ⟨lines, ht⟩ := h
  exact ⟨lines, .inl ht⟩

lemma converseFor_waits {s : State} (lines : Nat) {t : State} (ht : Waiting frame s t) :
    (converseFor leader frame lines t).Meets (hush (Waiting frame s)) fun result u =>
      result = .ok () ∧ Over frame s u := by
  induction lines generalizing t with
  | zero => exact ⟨rfl, ht.over⟩
  | succ lines ih =>
    obtain ⟨read, hread⟩ := ht
    cases hinput : t.terminal.input with
    | nil =>
      rw [converseFor_end hinput]
      have hline := Terminal.Reads.readLine t.terminal
      simp only [Terminal.readLine, hinput] at hline
      exact ⟨rfl, read, .inr ⟨⟨hread.paused, hread.terminal.trans hline⟩, hinput⟩⟩
    | cons line rest =>
      rw [converseFor_line hinput]
      have hline := Terminal.Reads.readLine t.terminal
      have hfirst : t.terminal.readLine.1 = some line := by simp only [Terminal.readLine, hinput]
      rw [hfirst] at hline
      have hafter : Waiting frame s t.afterLine := by
        refine ⟨read ++ [line], hread.paused, ?_⟩
        rw [List.map_append]
        exact hread.terminal.trans hline
      have hduring := duringPause_waiting frame s
      have hobeyed : (obeyLine leader frame line).Hushed False := obeyLine_hushed line
      refine (hobeyed _ hduring _ hafter).bind ?_ ?_
      · intro flow u hu
        have hwaiting := hduring.spared _ u hafter hu.1
        cases flow with
        | resume => exact ⟨rfl, hwaiting.over⟩
        | stay => exact ih hwaiting
      · exact fun e u hu => (hu.2 e rfl).elim

/-- A whole pause waits while requests are asked, and ends when its own loop does. -/
lemma converse_waits {s : State} (hs : s.debugger.paused = none) :
    (converse leader frame s).Meets (hush (Waiting frame (opened leader frame s)))
      fun result t => result = .ok () ∧ ∃ u, Over frame (opened leader frame s) u ∧ t = closed u := by
  rw [converse_eq hs]
  have hopened : Waiting frame (opened leader frame s) (opened leader frame s) :=
    ⟨[], rfl, .refl _⟩
  refine (converseFor_waits _ hopened).bind ?_ ?_
  · rintro ⟨⟩ u ⟨-, hu⟩
    exact ⟨rfl, u, hu, rfl⟩
  · rintro e u ⟨h, -⟩
    cases h

/-- From the moment that a pause begins, whatever is asked for in it, directly or inside of other
requests, finds the same pause under way, with some of the lines read one after the other and no
other pause begun. What serves such a request reads nothing and begins no pause, up to its answer
and wherever it asks something itself. The pause ends with its last line or with the input, after
it has read each line once and in their order. -/
theorem converse_alone {s : State} (hs : s.debugger.paused = none) :
    (∀ y, m.Guests.Asked (converse m.config.leader frame s) y →
      Waiting frame (opened m.config.leader frame s) y.2 ∧
      ∀ x, m.Guests y.1 x →
        (∀ z, m.Guests.Asked (x y.2) z → Spared y.2 z.2) ∧
        ∀ answer t, m.Guests.Yields (x y.2) answer t → Spared y.2 t) ∧
    ∀ result t, m.Guests.Yields (converse m.config.leader frame s) result t →
      result = .ok () ∧ ∃ u, Over frame (opened m.config.leader frame s) u ∧ t = closed u := by
  have hwaits : (converse m.config.leader frame s).Meets _ _ := converse_waits hs
  have hduring := duringPause_waiting frame (opened m.config.leader frame s)
  refine ⟨fun y hy => ?_, fun result t h => h.meets (Guests.meets hduring) hwaits⟩
  have hwaiting : Waiting frame (opened m.config.leader frame s) y.2 :=
    hy.may (Guests.meets hduring) hwaits
  have hspared := duringPause_spared (hduring.paused y.2 hwaiting)
  refine ⟨hwaiting, fun x hx => ?_⟩
  have hmeets := Guests.meets hspared y.1 x y.2 hx (Spared.refl y.2)
  exact ⟨fun z hz => hz.may (Guests.meets hspared) hmeets,
    fun answer t h => h.meets (Guests.meets hspared) hmeets⟩

end Machine

namespace Interpreter

open Machine (Guests Over opened closed)

/-- Lines that fail in a pause, while a step is asked for. -/
def failingLines : Interpreter := stepping ["y", ":r y", ":c", "z"]

/-- The pause in which these lines are written. -/
def failingPause : Plan Unit := Machine.converse ':' .global failingLines.state

/-- Neither failure is offered, nothing is held up, and the last line is left in the input. -/
theorem converse_alone_failing :
    failingLines.state.debugger.paused = none ∧
      ∃ t, failingLines.machine.Guests.Yields failingPause (.ok ()) t ∧
        t.terminal.input = ["z"] ∧
        ∃ u, Over .global (opened ':' .global failingLines.state) u ∧ t = closed u := by
  have hpaused : failingLines.state.debugger.paused = none := rfl
  have hvalue : (failingPause.execute (failingLines.machine.perform 1)).1 =
      (Except.ok ()).mapError .error := by decide +kernel
  have hinput : (failingPause.execute (failingLines.machine.perform 1)).2.terminal.input =
      ["z"] := by decide +kernel
  have hyields : failingLines.machine.Guests.Yields failingPause (.ok ()) _ :=
    .of_execute Guests.own (Outcome.eq_answered hvalue)
  exact ⟨hpaused, _, hyields, hinput, ((Machine.converse_alone hpaused).2 _ _ hyields).2⟩

end Interpreter

end HostedLisp
