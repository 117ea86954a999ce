import HostedLisp.Proofs.Debugger.Exits
import HostedLisp.Proofs.Machine.Compositional
import HostedLisp.Proofs.Machine.HostCode

/-!
# Balance

Three parts of the state are changed and put back by hand: the number of evaluations under way, the
pause, and the mark of a line that is being evaluated. Whatever is asked for, by programs, by lines
of the user or by code of the host, they are back in place when it is answered, with a value or with
an error: `Serves.balances`. Where something is put back after a run, that run never ends with an
error, which would pass it by; hence the condition in `Run.Balances`. Only a host that replaces a
debugger or an interpreter in which something is under way can put them out of balance:
`Interpreter.calls_unbalanced_replaced`.
-/

namespace HostedLisp

variable {α β : Type}

/-- The parts of the state that are put back. -/
structure Balanced (s t : State) : Prop where
  depth : t.depth = s.depth
  paused : t.debugger.paused = s.debugger.paused
  evaluatingLine : t.debugger.evaluatingLine = s.debugger.evaluatingLine

namespace Balanced

variable {s t u : State}

lemma refl (s : State) : Balanced s s := ⟨rfl, rfl, rfl⟩

lemma trans (h : Balanced s t) (h' : Balanced t u) : Balanced s u where
  depth := h'.depth.trans h.depth
  paused := h'.paused.trans h.paused
  evaluatingLine := h'.evaluatingLine.trans h.evaluatingLine

end Balanced

/-- Requests are asked while there is room for the evaluations under way, and are answered in
balance. -/
def balance (room : Nat → Prop) : Contract where
  may _ s := room s.depth
  gives _ s _ t := Balanced s t
  faults := True

/-- From every state with room for its evaluations, a run meets that contract and ends in balance,
and with an error only if it may fail. -/
def Run.Balances (room : Nat → Prop) (fails : Prop) (x : Run α) : Prop :=
  ∀ s : State, room s.depth →
    (x s).Meets (balance room) fun result t => Balanced s t ∧ ∀ e, result = .error e → fails

lemma chained_balanced (room : Nat → Prop) : Chained (room ·.depth) Balanced where
  refl s _ := Balanced.refl s
  trans _ _ _ := Balanced.trans
  fit _ _ hs h := h.depth ▸ hs

namespace Run.Balances

variable {room : Nat → Prop} {fails : Prop} {x : Run α}

lemma pure (a : α) : (Pure.pure a : Run α).Balances room fails :=
  Leads.pure (chained_balanced room) a

lemma raise (e : Error) : (Run.raise e : Run α).Balances room True :=
  Leads.raise (chained_balanced room) e

lemma fault : (Run.halt .fault : Run α).Balances room fails := Leads.fault trivial

lemma bind {f : α → Run β} (hx : x.Balances room fails)
    (hf : ∀ a, (f a).Balances room fails) : (x >>= f).Balances room fails :=
  Leads.bind (chained_balanced room) hx hf

lemma attempt (hx : x.Balances room True) : (Run.attempt x).Balances room fails :=
  Leads.attempt hx

lemma request (r : Request) : (Run.request r).Balances room True :=
  Leads.request (fun _ hs => hs) fun _ _ _ h => h

lemma view (f : State → α) : (Run.view f).Balances room fails :=
  Leads.view (chained_balanced room) f

lemma modify {f : State → State} (hf : ∀ s, Balanced s (f s)) :
    (Run.modify f).Balances room fails :=
  Leads.modify fun s _ => hf s

lemma changeHeap (f : Heap → Heap) : (Run.changeHeap f).Balances room fails :=
  modify fun _ => ⟨rfl, rfl, rfl⟩

lemma changeDebugger {f : Debugger.Controller → Debugger.Controller}
    (hpaused : ∀ c, (f c).paused = c.paused)
    (hline : ∀ c, (f c).evaluatingLine = c.evaluatingLine) :
    (Run.changeDebugger f).Balances room fails :=
  modify fun s => ⟨rfl, hpaused s.debugger, hline s.debugger⟩

lemma display (event : Debugger.Event) : (Run.display event).Balances room fails :=
  modify fun _ => ⟨rfl, rfl, rfl⟩

lemma displayLine (text : String) : (Run.displayLine text).Balances room fails := display _

lemma record (event : Debugger.Event) : (Run.record event).Balances room fails :=
  modify fun _ => ⟨rfl, rfl, rfl⟩

lemma readLine : Run.readLine.Balances room fails := fun _ _ => ⟨⟨rfl, rfl, rfl⟩, nofun⟩

lemma set (which : Debugger.Setting) (on : Bool) :
    (Run.changeDebugger (·.set which on)).Balances room fails := by
  cases which <;> exact changeDebugger (fun _ => rfl) fun _ => rfl

/-- After a run that does not fail, something is put back that was changed before it. -/
lemma restore {f : α → Run β} {s t : State} (hx : x.Balances room False) (ht : room t.depth)
    (hf : ∀ a u, Balanced t u → ∃ b v, f a u = .stop (.ok b) v ∧ Balanced s v) :
    ((x t).bind f).Meets (balance room) fun result u =>
      Balanced s u ∧ ∀ e, result = .error e → fails := by
  refine (hx t ht).bind (fun a u hu => ?_) fun e u hu => (hu.2 e rfl).elim
  obtain ⟨b, v, hv, hbalanced⟩ := hf a u hu.1
  rw [hv]
  exact ⟨hbalanced, nofun⟩

end Run.Balances

namespace Machine

open Run Debugger

variable {room : Nat → Prop} {fails : Prop} {leader : Char} {frame : FrameId}

/-! ### The debugger -/

lemma evalLine_balances (source : List Char) :
    (evalLine source frame).Balances room fails := by
  intro s hs
  cases hread : Datum.read (String.ofList source) with
  | error e =>
    simp only [evalLine, hread]
    exact ⟨Balanced.refl s, nofun⟩
  | ok d =>
    let placed := s.heap.apply (.place d)
    let inner : State :=
      { s with heap := placed.2, debugger := { s.debugger with evaluatingLine := true } }
    have heq : evalLine source frame s = (attempt (request (.eval placed.1 frame)) inner).bind
        (fun result => (do
          changeDebugger fun c => { c with evaluatingLine := s.debugger.evaluatingLine }
          pure result : Run (Except Error Value))) := by
      simp only [evalLine, hread]
      rfl
    rw [heq]
    refine Balances.restore (Balances.attempt (Balances.request _)) hs fun result u hu => ?_
    exact ⟨result, _, rfl, hu.depth, hu.paused, rfl⟩

lemma balances_obedient : Run.Obedient (Run.Balances room fails) where
  pure := .pure
  bind := .bind
  view := .view
  output _ := .display _
  quit := .record _
  set := .set
  clearSteps := .changeDebugger (fun _ => rfl) fun _ => rfl
  singleStep := .changeDebugger (fun _ => rfl) fun _ => rfl
  stepOutOf _ := .changeDebugger (fun _ => rfl) fun _ => rfl
  evalLine source _ := evalLine_balances source

lemma converseFor_balances (lines : Nat) :
    (converseFor leader frame lines).Balances room fails :=
  balances_obedient.converseFor (fun _ => .changeDebugger (fun _ => rfl) fun _ => rfl) .readLine
    lines

/-- A pause is over when it ends, whatever the lines were. If one was under way before, none
begins. -/
lemma converse_balances : (converse leader frame).Balances room fails := by
  intro s hs
  cases hpaused : s.debugger.paused with
  | none =>
    rw [converse_eq hpaused]
    refine Balances.restore (converseFor_balances _) hs fun _ u hu => ?_
    exact ⟨(), _, rfl, hu.depth, hpaused.symm, hu.evaluatingLine⟩
  | some other =>
    rw [converse_of_paused (by rw [hpaused]; rfl)]
    exact Balances.displayLine _ s hs

lemma takeSubstitute_balances : takeSubstitute.Balances room fails := by
  refine Balances.bind (Balances.view _) fun value => ?_
  refine Balances.bind (Balances.changeDebugger (fun _ => rfl) fun _ => rfl) fun _ => ?_
  exact Balances.pure value

lemma balances_attentive : Run.Attentive leader (Run.Balances room True) where
  pure := .pure
  raise := .raise
  bind := .bind
  view := .view
  display := .display
  clearSteps := .changeDebugger (fun _ => rfl) fun _ => rfl
  unwind := .changeDebugger (fun _ => rfl) fun _ => rfl
  takeSubstitute := takeSubstitute_balances
  converse _ := converse_balances

end Machine

/-- Where nothing is under way, a replacement loses nothing. -/
lemma Replacement.balanced {r : Replacement} {s : State} (h : r.isIdle s = true) :
    Balanced s (r.apply s) := by
  cases r with
  | debugger c =>
    simp only [isIdle, Debugger.Controller.isIdle, Bool.and_eq_true, Option.isNone_iff_eq_none,
      Bool.not_eq_true'] at h
    obtain ⟨⟨hpaused, hline⟩, hpaused', hline'⟩ := h
    exact ⟨rfl, hpaused'.trans hpaused.symm, hline'.trans hline.symm⟩
  | interpreter t =>
    simp only [isIdle, State.isIdle, Debugger.Controller.isIdle, Bool.and_eq_true, beq_iff_eq,
      Option.isNone_iff_eq_none, Bool.not_eq_true'] at h
    obtain ⟨⟨hdepth, hpaused, hline⟩, hdepth', hpaused', hline'⟩ := h
    exact ⟨hdepth'.trans hdepth.symm, hpaused'.trans hpaused.symm, hline'.trans hline.symm⟩

lemma Run.Balances.replace {room : Nat → Prop} {fails : Prop} (r : Replacement) :
    (Run.replace Replacement.isIdle r).Balances room fails :=
  Leads.replace trivial fun _ => Replacement.balanced

/-- Apart from such replacements code of the host has no means to put anything out of balance. -/
theorem HostCode.balances {x : Run α} (hx : HostCode Replacement.isIdle x) (room : Nat → Prop) :
    x.Balances room True := by
  open Run in
  induction hx with
  | pure a => exact Balances.pure a
  | raise e => exact Balances.raise e
  | fault => exact Balances.fault
  | bind _ _ ihx ihf => exact Balances.bind ihx ihf
  | attempt _ ih => exact Balances.attempt ih
  | view f => exact Balances.view f
  | changeHeap f => exact Balances.changeHeap f
  | changeTerminal f => exact Balances.modify fun _ => ⟨rfl, rfl, rfl⟩
  | set which on => exact Balances.set which on
  | setInteractive on | setSingleStep on =>
    exact Balances.changeDebugger (fun _ => rfl) fun _ => rfl
  | replace r => exact Balances.replace r
  | request r => exact Balances.request r
  | offer leader e frame => exact Machine.balances_attentive.offer e frame
  | converse leader frame => exact Machine.converse_balances

namespace Machine

open Run

variable {m : Machine} {room : Nat → Prop}

/-! ### The evaluator -/

lemma balances_thorough : Run.Thorough m (Run.Balances room True) where
  pure := .pure
  raise := .raise
  fault := .fault
  bind := .bind
  view := .view
  change := Run.Compositional.of_changeHeap (P := Run.Balances room True) .pure .bind .view
    .changeHeap
  displayLine := .displayLine
  request := .request
  attempt := .attempt
  setCode _ _ := .changeHeap _
  output _ := .display _
  set := .set
  offer := balances_attentive.offer
  hold := balances_attentive.hold
  converse _ := converse_balances
  takeSubstitute := takeSubstitute_balances

lemma begin_balanced (s : State) : Balanced s (begin s) := by
  unfold begin
  split
  · exact ⟨rfl, rfl, rfl⟩
  · exact Balanced.refl s

/-- There is room for all evaluations that a machine lets in. -/
def FitsIn (m : Machine) (room : Nat → Prop) : Prop := ∀ depth < m.config.maxDepth, room (depth + 1)

/-- An evaluation that is let in asks with one more under way, which there is room for. -/
lemma evaluate_balances (hm : m.FitsIn room) (expr : Value) (frame : FrameId) :
    (m.evaluate expr frame).Balances room True := by
  intro s hs
  have hbegin := begin_balanced s
  unfold evaluate
  dsimp only
  split
  · exact ⟨hbegin, fun _ _ => trivial⟩
  · next hlimit =>
    refine Plan.Meets.atEnd ?_
    have hroom : room ((begin s).depth + 1) := hm _ (Nat.lt_of_not_le hlimit)
    have hwithin : (m.evalWithin expr frame).Balances room True :=
      balances_thorough.evalWithin expr frame
    refine (hwithin _ hroom).post_mono fun result t ht => ⟨⟨?_, ?_, ?_⟩, ?_⟩
    · change t.depth - 1 = s.depth
      rw [ht.1.depth, ← hbegin.depth]
      exact Nat.add_sub_cancel _ 1
    · exact ht.1.paused.trans hbegin.paused
    · exact ht.1.evaluatingLine.trans hbegin.evaluatingLine
    · exact ht.2

lemma serve_balances (hm : m.FitsIn room) (r : Request) : (m.serve r).Balances room True := by
  cases r with
  | eval expr frame => exact evaluate_balances hm expr frame
  | _ => exact balances_thorough.serve nofun

/-- A request that the machine answers is answered in balance. -/
lemma perform_balanced {fuel : Nat} {r : Request} {s t : State} {a : Except Error Value}
    (h : m.perform fuel r s = .answered a t) : Balanced s t := by
  have hmeets := perform_meets (m := m) (c := balance fun _ => True)
    (fun r u hu => (serve_balances (fun _ _ => trivial) r u hu).post_mono fun _ _ ht => ht.1)
    fuel r s trivial
  rwa [h, Outcome.meets_answered] at hmeets

end Machine

section Serves

variable {room : Nat → Prop} {runsOn : Machine → Prop} (hroom : ∀ m, runsOn m → m.FitsIn room)

include hroom

/-- Whatever serves a request, it is answered in balance. -/
theorem Serves.balances {r : Request} {x : Run Value} (hx : Serves Replacement.isIdle runsOn r x) :
    x.Balances room True := by
  cases hx with
  | own hm => exact Machine.serve_balances (hroom _ hm) r
  | host hx => exact hx.balances room

lemma Serves.meets (r : Request) (x : Run Value) (s : State)
    (hx : Serves Replacement.isIdle runsOn r x) (hs : (balance room).may r s) :
    (x s).Meets (balance room) ((balance room).gives r s) :=
  (hx.balances hroom s hs).post_mono fun _ _ ht => ht.1

end Serves

/-- Code of the host that ends, whatever serves its requests, ends in balance. -/
lemma HostCode.balanced {runsOn : Machine → Prop} {x : Run α} (hx : HostCode Replacement.isIdle x)
    {s t : State} {result : Except Error α}
    (h : (Serves Replacement.isIdle runsOn).Yields (x s) result t) : Balanced s t := by
  -- How many evaluations are under way does not matter to the end, so there is room for all.
  have hroom (m : Machine) (_ : runsOn m) : m.FitsIn fun _ => True := fun _ _ => trivial
  exact (h.meets (Serves.meets hroom) (hx.balances _ s trivial)).1

namespace Machine

open Run

/-- Calls of a host from any state, which may make any replacement in which nothing is under way:
what it evaluates, calls, offers to the user or pauses for, and what its code makes of that, leaves
the number of evaluations under way, the pause and the mark of a line of the user as they were, if
it ends at all, with a value or with an error. In an evaluation that begins with no others under
way, no request is ever asked with more under way than the limit allows, and an evaluation that
would be one too many is not let in. -/
theorem calls_balanced (limit : Nat) (s : State) :
    (∀ (α : Type) (x : Run α) (result : Except Error α) (t : State),
      HostCode Replacement.isIdle x →
      (Serves Replacement.isIdle fun _ => True).Yields (x s) result t → Balanced s t) ∧
    (s.depth = 0 → ∀ expr frame y,
      (Serves Replacement.isIdle (·.config.maxDepth = limit)).Asked
        (request (.eval expr frame) s) y →
      y.2.depth ≤ limit ∧
        ∀ (m : Machine) expr frame, m.config.maxDepth = limit → y.1 = .eval expr frame →
          y.2.depth < limit ∨ m.serve y.1 y.2 = raise (tooDeep limit) (begin y.2)) := by
  refine ⟨fun α x result t hx h => hx.balanced h, fun hs expr frame y hy => ⟨?_, ?_⟩⟩
  · have hroom (m : Machine) (hm : m.config.maxDepth = limit) : m.FitsIn (· ≤ limit) :=
      fun depth hdepth => hm ▸ hdepth
    have hstart : s.depth ≤ limit := hs ▸ Nat.zero_le _
    exact hy.may (Serves.meets hroom) (Balances.request _ s hstart)
  · rintro m expr frame rfl hy
    obtain hlt | hle := Nat.lt_or_ge y.2.depth m.config.maxDepth
    · exact Or.inl hlt
    · exact Or.inr (hy ▸ serve_eval_of_full hle expr frame)

/-- Code of a host that asks for the value of a name and goes on if it has none. Then it puts a new
debugger with another leader in place, and pauses. -/
def guardCode : Run Value := do
  let _ ← attempt (request (.eval (.sym ⟨"y"⟩) .global))
  replace Replacement.isIdle (.debugger (Interpreter.initialDebugger Config.standard))
  converse '!' .global
  pure .nil

lemma guardCode_hostCode : HostCode Replacement.isIdle guardCode :=
  .bind (.attempt (.request _)) fun _ => .bind (.replace _) fun _ =>
    .bind (.converse '!' .global) fun _ => .pure Value.nil

/-- Code of a host that puts other lines into the input. -/
def feedCode : Run Value := do
  modify fun s => { s with terminal := { s.terminal with input := ["(y)", "7", ":c", "!c"] } }
  pure .nil

lemma feedCode_hostCode (allows : Replacement → State → Bool) : HostCode allows feedCode :=
  .bind (.changeTerminal fun t => { t with input := ["(y)", "7", ":c", "!c"] }) fun _ =>
    .pure Value.nil

/-- Code of a host that makes a replacement, whatever is under way. -/
def replaceCode (r : Replacement) : Run Value := do
  replace (fun _ _ => true) r
  pure .nil

lemma replaceCode_hostCode (r : Replacement) : HostCode (fun _ _ => true) (replaceCode r) :=
  .bind (.replace r) fun _ => .pure Value.nil

end Machine

namespace Interpreter

open Machine (guardCode feedCode replaceCode)

/-- What a host does with an interpreter leaves it in balance. -/
theorem carryOut_balanced {i : Interpreter} {x : Run α} (hx : HostCode Replacement.isIdle x)
    {fuel : Nat} {result : Except Error α} (h : (i.carryOut fuel x).1 = result.mapError .error) :
    Balanced i.state (i.carryOut fuel x).2.state := by
  have hyields : (Serves Replacement.isIdle fun _ => True).Yields (x i.state) result
      (i.carryOut fuel x).2.state := .of_execute (.own trivial) (Outcome.eq_answered h)
  exact hx.balanced hyields

/-- Two primitives that are code of the host. -/
def guard : Primitive := ⟨0, "guard", .exactly 0, .function⟩

def feed : Primitive := ⟨1, "feed", .exactly 0, .function⟩

/-- An interpreter with these primitives and with a user, who lets the host write the lines of the
pause that a failure leads to. -/
def guarded : Interpreter :=
  let i := (bare { Config.standard with interactive := true }).registerAll
    [.function "guard" (.exactly 0) fun args frame => .apply (.primitive guard) args frame,
      .function "feed" (.exactly 0) fun args frame => .apply (.primitive feed) args frame]
  { i with state := { i.state with
      debugger := { i.state.debugger with spare := 2 }
      terminal := .ofLines ["(feed)"] } }

/-- Serves the requests of this interpreter. -/
def serveGuarded : Request → Run Value
  | .apply (.primitive p) args frame =>
    if p = guard then guardCode
    else if p = feed then feedCode
    else guarded.machine.serve (.apply (.primitive p) args frame)
  | r => guarded.machine.serve r

lemma serves_serveGuarded (r : Request) :
    Serves Replacement.isIdle (fun _ => True) r (serveGuarded r) := by
  unfold serveGuarded
  split
  · split
    · exact .host Machine.guardCode_hostCode _ _ _
    · split
      · exact .host (Machine.feedCode_hostCode _) _ _ _
      · exact .own trivial _
  · exact .own trivial _

/-- Through two pauses, of which the host prolongs the first by other lines, two failures and a new
debugger everything is back in place after a call of the primitive; and the limit holds for all that
is asked while the name is evaluated. -/
theorem calls_balanced_guard :
    HostCode Replacement.isIdle (Run.request (.call (.primitive guard) [] .global)) ∧
      (∃ t, (Serves Replacement.isIdle fun _ => True).Yields
          (Run.request (.call (.primitive guard) [] .global) guarded.state) (.ok .nil) t ∧
        t.terminal.input = [] ∧ Balanced guarded.state t) ∧
      guarded.state.depth = 0 ∧
      ∀ y, (Serves Replacement.isIdle (·.config.maxDepth = 256)).Asked
          (Run.request (.eval (.sym ⟨"y"⟩) .global) guarded.state) y →
        y.2.depth ≤ 256 := by
  obtain ⟨hbalanced, hdepth⟩ := Machine.calls_balanced 256 guarded.state
  have hcode : HostCode Replacement.isIdle (Run.request (.call (.primitive guard) [] .global)) :=
    .request _
  let outcome := (Run.request (.call (.primitive guard) [] .global) guarded.state).execute
    (Service.answers serveGuarded 8)
  have hvalue : outcome.1 = (Except.ok Value.nil).mapError .error := by decide +kernel
  have hinput : outcome.2.terminal.input = [] := by decide +kernel
  have hyields : (Serves Replacement.isIdle fun _ => True).Yields
      (Run.request (.call (.primitive guard) [] .global) guarded.state) (.ok .nil) outcome.2 :=
    .of_execute_answers serves_serveGuarded (Outcome.eq_answered hvalue)
  have hstart : guarded.state.depth = 0 := rfl
  exact ⟨hcode, ⟨_, hyields, hinput, hbalanced _ _ _ _ hcode hyields⟩, hstart,
    fun y hy => (hdepth hstart _ _ y hy).1⟩

/-! ### Replacements of what is in use -/

/-- A line of a pause is being evaluated. -/
def duringLine : State :=
  { guarded.state with
    debugger := { guarded.state.debugger with paused := some .global, evaluatingLine := true }
    depth := 1 }

/-- A primitive that is called from the line and puts a new debugger in place ends the pause and the
line, and one that puts a new interpreter in place ends the evaluation as well. -/
theorem calls_unbalanced_replaced :
    HostCode (fun _ _ => true) (Run.request (.apply (.primitive guard) [] .global)) ∧
      (∃ t, (Serves (fun _ _ => true) fun m => m = guarded.machine).Yields
          (Run.request (.apply (.primitive guard) [] .global) duringLine) (.ok .nil) t ∧
        t.debugger = initialDebugger Config.standard ∧ ¬ Balanced duringLine t) ∧
      ∃ t, (Serves (fun _ _ => true) fun m => m = guarded.machine).Yields
          (Run.request (.apply (.primitive guard) [] .global) duringLine) (.ok .nil) t ∧
        t.depth = 0 ∧ ¬ Balanced duringLine t := by
  have hreplaced (r : Replacement) : (Serves (fun _ _ => true) fun m => m = guarded.machine).Yields
      (Run.request (.apply (.primitive guard) [] .global) duringLine) (.ok .nil)
      (r.apply duringLine) :=
    .ask (.host (Machine.replaceCode_hostCode r) _ _ _) (.value _ _) (.value _ _)
  refine ⟨.request _, ⟨_, hreplaced (.debugger (initialDebugger Config.standard)), rfl, ?_⟩,
    _, hreplaced (.interpreter (bare Config.standard).state), rfl, ?_⟩
  · intro h
    cases h.paused
  · intro h
    cases h.depth

end Interpreter

end HostedLisp
