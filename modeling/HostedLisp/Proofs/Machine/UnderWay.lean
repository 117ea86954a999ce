import HostedLisp.Proofs.Debugger.Inspection
import HostedLisp.Proofs.Debugger.Solitude
import HostedLisp.Proofs.Debugger.Substitution
import HostedLisp.Proofs.Heap.PlainText
import HostedLisp.Proofs.Machine.Termination

/-!
# Evaluations under way when an error arises

An error ends every request that it is the answer of, so the evaluations that are under way when it
arises are those of the requests asked last, one inside the other: `Machine.underWay`. All of them
began below the limit and fail, `Machine.mem_underWay`, and each adds itself to a message that shows
no expression yet. In a vocabulary of texts on single lines a message shows one only if it was
added, so it shows the innermost: `Machine.perform_tells`, and for the standard libraries
`Interpreter.error_shows_innermost`.
-/

namespace HostedLisp

open Debugger Vocabulary

variable {V : Vocabulary} {m : Machine} {α : Type}

namespace Machine

/-- The list expression whose evaluation a request begins below the limit. -/
def begun (m : Machine) : Request → State → List CellId
  | .eval (.pair id) _, s => if s.depth < m.config.maxDepth then [id] else []
  | _, _ => []

lemma mem_begun {r : Request} {s : State} {cell : CellId} (h : cell ∈ m.begun r s) :
    (∃ frame, r = .eval (.pair cell) frame) ∧ s.depth < m.config.maxDepth := by
  unfold begun at h
  split at h
  · next id frame =>
    split at h
    · next hbelow =>
      cases List.mem_singleton.1 h
      exact ⟨⟨frame, rfl⟩, hbelow⟩
    · cases h
  · cases h

/-- What is known of the request that a plan fails by. -/
def beneath (answer : Answer) (cells : Request → State → List CellId) (p : Plan α) : List CellId :=
  match p.failing? answer with
  | some (r, s) => cells r s
  | none => []

lemma beneath_congr {β : Type} {answer : Answer} {cells : Request → State → List CellId}
    {p : Plan α} {q : Plan β} (h : p.last? answer = q.last? answer) :
    beneath answer cells p = beneath answer cells q := by
  rw [beneath, Plan.failing?, h, beneath, Plan.failing?]

/-- The list expressions whose evaluations are under way when the error arises that a request is
answered with, from the innermost on. -/
def underWay (m : Machine) : Nat → Request → State → List CellId
  | 0, _, _ => []
  | fuel + 1, r, s => beneath (m.perform fuel) (m.underWay fuel) (m.serve r s) ++ m.begun r s

/-- Whatever is under way when a request fails was asked for on its behalf, began below the limit
and fails as well. -/
theorem mem_underWay {fuel : Nat} {r : Request} {s : State} {cell : CellId}
    (hfails : (m.perform fuel r s).fails = true) (h : cell ∈ m.underWay fuel r s) :
    ∃ frame u, Relation.ReflTransGen m.Asks (r, s) (.eval (.pair cell) frame, u) ∧
      u.depth < m.config.maxDepth ∧
      ∃ rest, (m.perform rest (.eval (.pair cell) frame) u).fails = true := by
  induction fuel generalizing r s with
  | zero => cases h
  | succ fuel ih =>
    obtain hinner | hown := List.mem_append.1 h
    · rw [beneath] at hinner
      split at hinner
      · next q t heq =>
        obtain ⟨hasks, hq⟩ := Plan.asks_of_failing? heq
        obtain ⟨frame, u, hreach, hrest⟩ := ih hq hinner
        exact ⟨frame, u, .head ⟨fuel, hasks⟩ hreach, hrest⟩
      · cases hinner
    · obtain ⟨⟨frame, rfl⟩, hbelow⟩ := mem_begun hown
      exact ⟨frame, s, .refl, hbelow, fuel + 1, hfails⟩

/-! ### Messages that show an expression -/

/-- The message of an error shows the first of some list expressions behind a text of the
vocabulary. If there are none, it is such a text. -/
def Names (V : Vocabulary) (h : Heap) : List CellId → Error → Prop
  | [], e => e.In V
  | cell :: _, e => ∀ text, e = .eval text ∨ e = .type text →
      ∃ body, V.text body ∧
        text = body ++ contextMark ++ "while evaluating: " ++ h.render (.pair cell)

/-- The mark begins a new line. -/
lemma not_occurs_contextMark {t : List Char} (h : '\n' ∉ t) :
    Text.occurs contextMark.toList t = false := by
  rw [Bool.eq_false_iff, ne_eq, Text.occurs_iff]
  exact fun hmark => h (hmark.subset (by decide))

lemma names_unbound (h : Heap) (cells : List CellId) (name : String) :
    Names V h cells (.unbound name) := by
  cases cells with
  | nil => exact trivial
  | cons cell rest => exact fun text htext => by rcases htext with htext | htext <;> cases htext

/-- What is shown behind a mark stays, and what was not shown yet is shown. -/
lemma Names.locate (hline : ∀ t, V.text t → '\n' ∉ t.toList) {h : Heap} {cells : List CellId}
    {e : Error} (he : Names V h cells e) (id : CellId) :
    Names V h (cells ++ [id]) (locate h (.pair id) e) := by
  cases cells with
  | nil =>
    have hnew {text : String} (ht : V.text text) : addContext h (.pair id) text =
        text ++ contextMark ++ "while evaluating: " ++ h.render (.pair id) := by
      rw [addContext, not_occurs_contextMark (hline text ht)]
      rfl
    intro text htext
    cases e with
    | eval body | type body =>
      refine ⟨body, he, ?_⟩
      rw [← hnew he]
      simpa [Machine.locate, eq_comm] using htext
    | _ => rcases htext with htext | htext <;> cases htext
  | cons cell rest =>
    have hkept {text : String} (ht : ∃ body, V.text body ∧
        text = body ++ contextMark ++ "while evaluating: " ++ h.render (.pair cell)) :
        addContext h (.pair id) text = text := by
      obtain ⟨body, -, rfl⟩ := ht
      refine if_pos ((Text.occurs_iff _ _).2 ⟨body.toList, ?_⟩)
      refine ⟨("while evaluating: " ++ h.render (.pair cell)).toList, ?_⟩
      simp only [String.toList_append, List.append_assoc]
    have hsame : Machine.locate h (.pair id) e = e := by
      cases e with
      | eval text => exact congrArg Error.eval (hkept (he text (.inl rfl)))
      | type text => exact congrArg Error.type (hkept (he text (.inr rfl)))
      | _ => rfl
    rw [hsame]
    exact he

end Machine

/-! ### Answers that name an expression -/

/-- A result without a user, within the vocabulary except that an error names the first of some list
expressions. -/
structure Told (V : Vocabulary) (d : Nat) (cells : List CellId) (post : α → Prop)
    (result : Except Error α) (t : State) : Prop where
  state : t.In V
  depth : t.depth = d
  alone : t.debugger.Alone
  value : ∀ a, result = .ok a → post a
  error : ∀ e, result = .error e → Machine.Names V t.heap cells e

/-- Requests of the vocabulary are answered within it, and their errors name expressions. -/
def Answer.Tells (V : Vocabulary) (answer : Answer) (cells : Request → State → List CellId) :
    Prop :=
  ∀ q u, q.In V → u.In V → u.debugger.Alone → ∀ a t, answer q u = .answered a t →
    Told V u.depth (cells q u) (Value.In V) a t

namespace Told

open Machine

variable {answer : Answer} {names : Request → State → List CellId} {d : Nat} {s t : State}
  {may : Request → Prop} {post : α → Prop} {result : Except Error α} {cells : List CellId}

lemma of_value {a : α} (hs : s.In V) (hd : s.depth = d) (halone : s.debugger.Alone) (ha : post a) :
    Told V d cells post (.ok a) s :=
  ⟨hs, hd, halone, fun _ heq => Except.ok.inj heq ▸ ha, nofun⟩

lemma of_error {e : Error} (hs : s.In V) (hd : s.depth = d) (halone : s.debugger.Alone)
    (he : Names V s.heap cells e) : Told V d cells post (.error e) s :=
  ⟨hs, hd, halone, nofun, fun _ heq => Except.error.inj heq ▸ he⟩

/-- The error of a plan that relays errors is one of its own or that of the request that it fails
by. -/
theorem of_relays {p : Plan α} (hp : p.Relays Controller.Alone)
    (hmeets : p.Meets (speaking V d may) (Spoken V d post)) (hanswer : answer.Tells V names)
    (h : p.execute answer = .answered result t) :
    Told V d (beneath answer names p) post result t := by
  have hvalue (q : Request) (u : State) (v : Value) (w : State)
      (hq : (speaking V d may).may q u) (hu : u.debugger.Alone) (ha : answer q u = (.ok v, w)) :
      Spoken V u.depth (Value.In V) (.ok v) w ∧ w.debugger.Alone := by
    have htold := hanswer q u hq.1.1 hq.1.2 hu (.ok v) w ha
    exact ⟨⟨htold.state, htold.depth, htold.value, nofun⟩, htold.alone⟩
  obtain ⟨hfailing, hown, halone⟩ | ⟨q, u, e, hfailing, hq, hu, ha, rfl⟩ :=
    hp.execute hmeets hvalue h
  · refine ⟨hown.state, hown.depth, halone, hown.value, fun e he => ?_⟩
    rw [beneath, hfailing]
    exact hown.error e he
  · have htold := hanswer q u hq.1.1 hq.1.2 hu (.error e) t ha
    refine ⟨htold.state, htold.depth.trans hq.2.2, htold.alone, nofun, fun e' he' => ?_⟩
    cases he'
    rw [beneath, hfailing]
    exact htold.error e rfl

end Told

namespace Machine

open Run

variable {answer : Answer} {names : Request → State → List CellId} {d : Nat} {s t : State}
  {leader : Char} {frame : FrameId} [V.Coherent]

/-- A pause before an evaluation ends in a state like the one before, whatever the lines of the user
are answered with. -/
lemma hold_told {expr : Value} {a : Except Error (Option Value)}
    (hanswer : answer.Tells V names) (hs : s.In V) (halone : s.debugger.Alone)
    (h : (hold leader expr frame s).execute answer = .answered a t) :
    ∃ held, a = .ok held ∧ t.In V ∧ t.depth = s.depth ∧ t.debugger.Alone ∧
      ∀ v, held = some v → v.In V := by
  have hspeaks : (hold leader expr frame).Speaks V.free s.depth (fun _ => True)
      fun held => ∀ v, held = some v → v.In V.free :=
    hold_speaks (fun _ _ => trivial) fun _ hv => hv
  let c : Contract := { (speaking V.free s.depth fun _ => True).both solitude with faults := True }
  have hmeets : (hold leader expr frame s).Meets c _ :=
    ((hspeaks s (hs.mono within_free) rfl).both (hold_staysAlone s halone)).mono
      (fun _ _ hr => hr) (fun _ _ _ _ ha => ha) (fun _ => trivial) fun _ _ ht => ht
  have hanswered (q : Request) (u : State) (hq : c.may q u) :
      (answer q u).Meets c.faults (c.gives q u) := by
    obtain ⟨b, w, hb⟩ | ⟨w, hb⟩ | ⟨w, hb⟩ := (answer q u).cases
    · have htold := hanswer q u (hq.1.1.1.mono free_within) (hq.1.1.2.mono free_within) hq.2 b w hb
      rw [hb, Outcome.meets_answered]
      exact ⟨⟨htold.state.mono within_free, htold.depth,
        fun v hv => (htold.value v hv).mono within_free, fun e _ => e.in_free⟩, htold.alone⟩
    · rw [hb]
      exact trivial
    · rw [hb]
      exact trivial
  have hend := hmeets.execute hanswered
  rw [h, Outcome.meets_answered] at hend
  obtain ⟨hspoken, hquiet, hnone⟩ := hend
  cases a with
  | ok held =>
    refine ⟨held, rfl, hspoken.state.mono free_within, hspoken.depth, hquiet, fun v hv => ?_⟩
    exact (hspoken.value held rfl v hv).mono free_within
  | error e => exact (hnone e rfl).elim

/-- Traces change nothing but what is shown. -/
lemma traceValue_apply (mark : String) (value : Value) (s : State) :
    ∃ terminal, traceValue mark value s = .stop (.ok ()) { s with terminal := terminal } := by
  unfold traceValue
  rw [bind_apply]
  simp only [view, Plan.bind_stop_ok]
  split
  · exact ⟨_, rfl⟩
  · exact ⟨s.terminal, rfl⟩

/-- What is done about the end of a list: its value is traced, its failure is offered. -/
def concludeList (m : Machine) (id : CellId) (frame : FrameId) (result : Except Error Value) :
    Run Value := do
  let value ← match result with
    | .ok value => pure value
    | .error e => offer m.config.leader (locate (← view State.heap) (.pair id) e) frame
  traceValue "=> " value
  pure value

lemma concludeList_ok (m : Machine) (id : CellId) (frame : FrameId) (value : Value) (s : State) :
    ∃ terminal, m.concludeList id frame (.ok value) s =
      .stop (.ok value) { s with terminal := terminal } := by
  obtain ⟨terminal, htrace⟩ := traceValue_apply "=> " value s
  refine ⟨terminal, ?_⟩
  change (traceValue "=> " value s).bind _ = _
  rw [htrace]
  rfl

lemma concludeList_error (m : Machine) (id : CellId) (frame : FrameId) (e : Error)
    (hs : s.debugger.Alone) : m.concludeList id frame (.error e) s =
      .stop (.error (.error (locate s.heap (.pair id) e))) s := by
  change ((offer m.config.leader (locate s.heap (.pair id) e) frame s).bind _) = _
  rw [offer_of_alone _ hs]
  rfl

/-- The evaluation of a list is noted in the frame and traced before its elements are evaluated. -/
lemma evalList_eq (m : Machine) (id : CellId) (frame : FrameId) (s : State) : ∃ terminal,
    m.evalList id frame s = ((m.evalPair id frame { s with
      heap := s.heap.setCode frame (.pair id)
      terminal := terminal }).attempt).bind (m.concludeList id frame) := by
  obtain ⟨terminal, htrace⟩ := traceValue_apply "" (.pair id)
    { s with heap := s.heap.setCode frame (.pair id) }
  refine ⟨terminal, ?_⟩
  change (traceValue "" (.pair id) _).bind _ = _
  rw [htrace, Plan.bind_stop_ok]
  refine congrArg (Plan.bind _) (funext fun result => ?_)
  cases result <;> rfl

/-- The head of a list is always asked for. -/
lemma isSome_last?_evalPair (id : CellId) :
    ((m.evalPair id frame s).last? answer).isSome = true :=
  Plan.isSome_last?_ask

variable (hm : m.Knows V) (hline : ∀ t, V.text t → '\n' ∉ t.toList)
  (hanswer : answer.Tells V names)

include hm hline hanswer

/-- The error of a list shows the innermost of the lists in it, or else the list itself. -/
lemma evalList_told {id : CellId} {result : Except Error Value} (hs : s.In V)
    (halone : s.debugger.Alone) (h : (m.evalList id frame s).execute answer = .answered result t) :
    ((m.evalList id frame s).last? answer).isSome = true ∧
      Told V s.depth (beneath answer names (m.evalList id frame s) ++ [id]) (Value.In V) result
        t := by
  obtain ⟨terminal, heq⟩ := evalList_eq m id frame s
  rw [heq] at h ⊢
  generalize hbegun : ({ s with
    heap := s.heap.setCode frame (.pair id)
    terminal := terminal } : State) = u at h ⊢
  have hu : u.In V := hbegun ▸ ⟨hs.heap.setCode frame _, hs.substitute⟩
  have hdepth : u.depth = s.depth := hbegun ▸ rfl
  have hquiet : u.debugger.Alone := hbegun ▸ halone
  obtain ⟨attempted, w, hfirst, hend⟩ | ⟨e, hfirst, -⟩ := Plan.answered_bind h
  · obtain ⟨_, ⟨⟩, hpair⟩ := Plan.answered_attempt (b := .ok attempted) hfirst
    have htold : Told V s.depth (beneath answer names (m.evalPair id frame u)) (Value.In V)
        attempted w :=
      .of_relays ((relays_compositional _).evalPair m id frame u hquiet)
        (evalPair_speaks hm u hu hdepth) hanswer hpair
    -- nothing is asked for after the elements
    have hlast (hnone : (m.concludeList id frame attempted w).last? answer = none) :
        ((m.evalPair id frame u).attempt.bind (m.concludeList id frame)).last? answer =
          (m.evalPair id frame u).last? answer := by
      rw [Plan.last?_bind hfirst, hnone, Option.none_or, Plan.last?_attempt]
    cases attempted with
    | ok value =>
      obtain ⟨shown, hconclude⟩ := concludeList_ok m id frame value w
      rw [hlast (by rw [hconclude]; rfl)]
      rw [hconclude] at hend
      cases result with
      | ok v =>
        cases hend
        refine ⟨isSome_last?_evalPair id, ?_⟩
        exact .of_value ⟨htold.state.heap, htold.state.substitute⟩ htold.depth htold.alone
          (htold.value value rfl)
      | error e => cases hend
    | error e =>
      have hconclude := concludeList_error m id frame e htold.alone
      have hsame := hlast (by rw [hconclude]; rfl)
      rw [hsame, beneath_congr hsame]
      rw [hconclude] at hend
      cases result with
      | ok v => cases hend
      | error e' =>
        cases hend
        refine ⟨isSome_last?_evalPair id, ?_⟩
        exact .of_error htold.state htold.depth htold.alone ((htold.error e rfl).locate hline id)
  · obtain ⟨_, h, -⟩ := Plan.answered_attempt hfirst
    cases h

/-- An expression that is not held up: the failure of a name shows no expression. -/
lemma evalFree_told {expr : Value} {result : Except Error Value} {cells : List CellId}
    (he : expr.In V) (hs : s.In V) (halone : s.debugger.Alone)
    (hcells : ∀ id, expr = .pair id →
      cells = beneath answer names (m.evalFree expr frame s) ++ [id])
    (h : (m.evalFree expr frame s).execute answer = .answered result t) :
    Told V s.depth cells (Value.In V) result t := by
  have hown (value : Value) (hv : value.In V)
      (h : (Plan.stop (.ok value) s : Plan Value).execute answer = .answered result t) :
      Told V s.depth cells (Value.In V) result t := by
    cases result with
    | ok v =>
      cases h
      exact .of_value hs rfl halone hv
    | error e => cases h
  cases expr with
  | sym name =>
    rw [evalFree, bind_apply] at h
    simp only [view, Plan.bind_stop_ok] at h
    cases hlookup : s.heap.lookup? frame name with
    | some value =>
      rw [hlookup] at h
      exact hown value (hs.heap.lookup? hlookup) h
    | none =>
      rw [hlookup] at h
      dsimp only at h
      rw [offer_of_alone _ halone] at h
      cases result with
      | ok v => cases h
      | error e =>
        cases h
        exact .of_error hs rfl halone (names_unbound _ _ _)
  | pair id =>
    rw [hcells id rfl]
    exact (evalList_told hm hline hanswer hs halone h).2
  | _ => exact hown _ he h

/-- A pause before the evaluation plays no part in its error. -/
lemma evalWithin_told {expr : Value} {result : Except Error Value} {cells : List CellId}
    (he : expr.In V) (hs : s.In V) (halone : s.debugger.Alone)
    (hcells : ∀ id, expr = .pair id →
      cells = beneath answer names (m.evalWithin expr frame s) ++ [id])
    (h : (m.evalWithin expr frame s).execute answer = .answered result t) :
    Told V s.depth cells (Value.In V) result t := by
  rw [evalWithin_eq, bind_apply] at h hcells
  obtain ⟨held, u, hhold, hrest⟩ | ⟨e, hhold, -⟩ := Plan.answered_bind h
  · obtain ⟨_, ⟨⟩, hu, hdepth, hquiet, hin⟩ :=
      hold_told (a := .ok held) hanswer hs halone hhold
    cases held with
    | some value =>
      cases result with
      | ok v =>
        cases hrest
        exact .of_value hu hdepth hquiet (hin value rfl)
      | error e => cases hrest
    | none =>
      rw [← hdepth]
      refine evalFree_told hm hline hanswer he hu hquiet (fun id hid => ?_) hrest
      subst hid
      rw [hcells id rfl]
      -- a list always asks for something, so its own requests are the last ones
      have hsome := (evalList_told hm hline hanswer hu hquiet hrest).1
      have hlast := Plan.last?_bind (f := fun held : Option Value =>
        held.elim (m.evalFree (.pair id) frame) pure) hhold
      rw [beneath_congr (hlast.trans (Option.or_of_isSome hsome))]
      rfl
  · obtain ⟨_, h, -⟩ := hold_told (a := .error e) hanswer hs halone hhold
    cases h

omit [V.Coherent] hm hline hanswer in
lemma begin_in (hs : s.In V) : (begin s).In V := by
  unfold begin
  split
  · exact ⟨hs.heap, hs.substitute⟩
  · exact hs

omit hm hline hanswer in
lemma begin_alone (hs : s.debugger.Alone) : (begin s).debugger.Alone := by
  unfold begin
  split <;> exact hs

omit hm hline hanswer in
lemma tooDeep_in (limit : Nat) : (tooDeep limit).In V := by
  refine Coherent.append (Coherent.append (Coherent.line (by decide)) (Coherent.line fun h => ?_))
    (Coherent.line (by decide))
  rw [Nat.toString_eq_repr, Nat.toList_repr] at h
  exact absurd (Nat.isDigit_of_mem_toDigits (by decide) (by decide) h) (by decide)

/-- If what a request asks for is answered with errors that name expressions, so is the request. -/
lemma serve_told {r : Request} {result : Except Error Value} (hr : r.In V) (hs : s.In V)
    (halone : s.debugger.Alone) (h : (m.serve r s).execute answer = .answered result t) :
    Told V s.depth (beneath answer names (m.serve r s) ++ m.begun r s) (Value.In V) result t := by
  by_cases heval : ∃ expr frame, r = .eval expr frame
  · obtain ⟨expr, frame, rfl⟩ := heval
    have hstart := begin_heap s
    by_cases hfull : m.config.maxDepth ≤ s.depth
    · rw [serve_eval_of_full hfull] at h ⊢
      have hbegun : m.begun (.eval expr frame) s = [] := by
        cases expr <;> first | rfl | exact if_neg (Nat.not_lt.2 hfull)
      rw [hbegun]
      cases result with
      | ok v => cases h
      | error e =>
        cases h
        exact .of_error (begin_in hs) hstart.2 (begin_alone halone) (tooDeep_in _)
    · have hbelow : ¬m.config.maxDepth ≤ (begin s).depth := by rwa [hstart.2]
      let inner : State := { begin s with depth := (begin s).depth + 1 }
      have hserve : m.serve (.eval expr frame) s =
          (m.evalWithin expr frame inner).atEnd fun t => { t with depth := t.depth - 1 } :=
        if_neg hbelow
      rw [hserve] at h ⊢
      rw [beneath_congr (Plan.last?_atEnd _ _)]
      obtain ⟨u, hwithin, rfl⟩ := Plan.answered_atEnd h
      have hinner : inner.In V := ⟨(begin_in hs).heap, (begin_in hs).substitute⟩
      have hbegun (id : CellId) (hid : expr = .pair id) : m.begun (.eval expr frame) s = [id] := by
        subst hid
        exact if_pos (Nat.not_le.1 hfull)
      have htold := evalWithin_told hm hline hanswer hr hinner (begin_alone halone)
        (fun id hid => congrArg _ (hbegun id hid)) hwithin
      have hdepth : u.depth - 1 = s.depth := by rw [htold.depth, Nat.add_sub_cancel, hstart.2]
      exact ⟨⟨htold.state.heap, htold.state.substitute⟩, hdepth, htold.alone, htold.value,
        htold.error⟩
  · have hne (expr : Value) (frame : FrameId) : r ≠ .eval expr frame :=
      fun heq => heval ⟨expr, frame, heq⟩
    have hbegun : m.begun r s = [] := by
      cases r <;> first | rfl | exact absurd rfl (hne _ _)
    rw [hbegun, List.append_nil]
    exact .of_relays (serve_relays hne s halone) (serve_speaks hm hr hne s hs rfl) hanswer h

omit hanswer in
/-- On a machine that knows the vocabulary, without a user, the error of every answer shows the
innermost of the lists under way when it arose, once. -/
theorem perform_tells (fuel : Nat) : (m.perform fuel).Tells V (m.underWay fuel) := by
  induction fuel with
  | zero =>
    intro r s _ _ _ a t h
    cases a <;> cases h
  | succ fuel ih =>
    intro r s hr hs halone a t h
    exact serve_told hm hline ih hr hs halone h

end Machine

/-! ### The standard libraries -/

namespace Interpreter

open Machine

variable {i : Interpreter}

/-- The primitives that an interpreter has can be met in its state, and no others. -/
lemma Has.knows {natives : List Native} (hi : i.Has natives)
    (hspeaks : ∀ n ∈ natives, n.Speaks (V.restrict (Provided natives))) :
    i.machine.Knows (V.restrict (Provided natives)) :=
  knows_of_provided hi.bodies (fun _ hp => hp.2) hspeaks

lemma Has.in_restrict {natives : List Native} (hi : i.Has natives) (hV : i.state.In V) :
    i.state.In (V.restrict (Provided natives)) where
  heap := hV.heap.restrict hi.state.heap
  substitute v hv := Value.in_restrict.2 ⟨hV.substitute v hv, hi.state.substitute v hv⟩

/-- Where nothing else breaks the line, the mark stands only once. -/
lemma contextMark_unique {body rest front back : String} (hbody : '\n' ∉ body.toList)
    (hrest : '\n' ∉ rest.toList)
    (h : body ++ contextMark ++ rest = front ++ contextMark ++ back) : front = body := by
  have hmark : contextMark.toList = '\n' :: "  Context: ".toList := by decide
  have hchars := congrArg String.toList h
  simp only [String.toList_append, hmark, List.append_assoc, List.cons_append] at hchars
  have hafter : '\n' ∉ "  Context: ".toList ++ rest.toList :=
    List.mem_append.not.2 (not_or.2 ⟨by decide, hrest⟩)
  exact String.toList_inj.1 ((List.append_cons_inj_of_notMem hbody hafter).1 hchars).1.symm

/-- With the standard libraries and words without line breaks, and without a user: if the evaluation
of a list begins below the limit and its error shows an expression, then the message is a text
without the mark, the mark, and the innermost of the list expressions that were under way when the
error arose. The mark occurs nowhere else. -/
theorem error_shows_innermost (hi : i.Has standardNatives) (hplain : i.state.In .plain)
    (halone : i.state.debugger.interactive = false)
    (hbelow : i.state.depth < i.machine.config.maxDepth) {fuel : Nat} {id : CellId}
    {frame : FrameId} {e : Error} {text : String}
    (h : (i.eval fuel (.pair id) frame).1 = .error (.error e))
    (htext : e = .eval text ∨ e = .type text) :
    ∃ body cell outer,
      i.machine.underWay fuel (.eval (.pair id) frame) i.state = cell :: outer ∧
        text = body ++ contextMark ++ ("while evaluating: " ++
          (i.eval fuel (.pair id) frame).2.state.heap.render (.pair cell)) ∧
        Text.occurs contextMark.toList body.toList = false ∧
        ∀ front back, text = front ++ contextMark ++ back → front = body := by
  let V : Vocabulary := .restrict .plain (Provided standardNatives)
  have hline (t : String) (ht : V.text t) : '\n' ∉ t.toList := ht
  have hstart : i.state.In V := hi.in_restrict hplain
  rw [eval_result] at h
  rw [eval_state]
  generalize hend : (i.machine.perform fuel (.eval (.pair id) frame) i.state).2 = t
  have hanswer : i.machine.perform fuel (.eval (.pair id) frame) i.state =
      .answered (.error e) t := Prod.ext h hend
  have htold := perform_tells (hi.knows standardNatives_speaks) hline fuel
    (.eval (.pair id) frame) i.state trivial hstart halone (.error e) t hanswer
  have hshown := htold.error e rfl
  have hsome : i.machine.underWay fuel (.eval (.pair id) frame) i.state ≠ [] := by
    cases fuel with
    | zero => cases h
    | succ fuel =>
      have hbegun : i.machine.begun (.eval (.pair id) frame) i.state = [id] := if_pos hbelow
      rw [underWay, hbegun]
      exact List.append_ne_nil_of_right_ne_nil _ (List.cons_ne_nil _ _)
  obtain ⟨cell, outer, hcells⟩ := List.exists_cons_of_ne_nil hsome
  rw [hcells] at hshown ⊢
  obtain ⟨body, hbody, rfl⟩ := hshown text htext
  have hrender : '\n' ∉ (t.heap.render (.pair cell)).toList :=
    Heap.newline_not_mem_render (htold.state.heap.mono restrict_within) (Value.in_pair cell)
  have hrest : '\n' ∉ ("while evaluating: " ++ t.heap.render (.pair cell)).toList := by
    rw [String.toList_append, List.mem_append]
    exact not_or.2 ⟨by decide, hrender⟩
  have hshape : body ++ contextMark ++ "while evaluating: " ++ t.heap.render (.pair cell) =
      body ++ contextMark ++ ("while evaluating: " ++ t.heap.render (.pair cell)) :=
    String.append_assoc
  refine ⟨body, cell, outer, rfl, hshape, not_occurs_contextMark hbody, fun front back heq => ?_⟩
  exact contextMark_unique hbody hrest (hshape.symm.trans heq)

/-! #### A callback that fails -/

lemma registerAll_plain (h : i.state.In .plain) (library : List Native)
    (hnames : ∀ n ∈ library, '\n' ∉ n.name.toList) : (i.registerAll library).state.In .plain := by
  induction library generalizing i with
  | nil => exact h
  | cons n rest ih =>
    rw [List.forall_mem_cons] at hnames
    exact ih (register_in h hnames.1) hnames.2

lemma full_plain (config : Config) : (full config).state.In .plain := by
  have hbare : (bare config).state.In .plain := bare_in config List.not_mem_nil
  have hcore := registerAll_plain hbare Form.core (by decide +kernel)
  have hminimal := registerAll_plain hcore Debugging.library (by decide +kernel)
  have hnumbers := registerAll_plain hminimal Arithmetic.library (by decide +kernel)
  have hlists := registerAll_plain hnumbers Lists.library (by decide +kernel)
  have hvectors := registerAll_plain hlists Vectors.library (by decide +kernel)
  exact registerAll_plain hvectors DeviceFields.library (by decide +kernel)

/-- An interpreter in which a text is written down. -/
def writing (i : Interpreter) (text : String) : Interpreter :=
  i.changeHeap fun h =>
    match Datum.read text with
    | .ok d => (h.place d).2
    | .error _ => h

lemma Has.writing {natives : List Native} (hi : i.Has natives) (text : String) :
    (i.writing text).Has natives := by
  refine hi.changeHeap ?_
  split
  · next d _ => exact (hi.state.heap.apply (c := .place d) trivial).2
  · exact hi.state.heap

lemma writing_in [V.Coherent] (h : i.state.In V) (text : String) :
    (i.writing text).state.In V := by
  refine ⟨?_, h.substitute⟩
  unfold Interpreter.writing Interpreter.changeHeap
  dsimp only
  split
  · next hread => exact (h.heap.place (Coherent.read hread)).2
  · exact h.heap

/-- The callback fails inside the call of the function that calls it. Its own expression is shown,
and only once. -/
theorem error_shows_innermost_callback :
    let i := (full .standard).writing "(map (lambda (x) (car x)) (list 1))"
    let message := "car needs a pair, but got 1\n  Context: while evaluating: (car x)"
    i.Has standardNatives ∧ i.state.In .plain ∧ i.state.debugger.interactive = false ∧
      i.state.depth < i.machine.config.maxDepth ∧
      (i.eval 5 (.pair ⟨10⟩) .global).1 = .error (.error (.type message)) ∧
      i.machine.underWay 5 (.eval (.pair ⟨10⟩) .global) i.state = [⟨2⟩, ⟨10⟩] ∧
      ∀ front back, message = front ++ Machine.contextMark ++ back →
        front = "car needs a pair, but got 1" := by
  intro i message
  have hi : i.Has standardNatives := (full_has _).writing _
  have hplain : i.state.In .plain := writing_in (full_plain _) _
  have hbelow : i.state.depth < i.machine.config.maxDepth := by decide +kernel
  have hresult : (i.eval 5 (.pair ⟨10⟩) .global).1 = .error (.error (.type message)) := by
    decide +kernel
  obtain ⟨body, cell, outer, -, -, -, hunique⟩ :=
    error_shows_innermost hi hplain rfl hbelow hresult (.inr rfl)
  have hbody : "car needs a pair, but got 1" = body :=
    hunique _ "while evaluating: (car x)" (by decide +kernel)
  refine ⟨hi, hplain, rfl, hbelow, hresult, by decide +kernel, fun front back h => ?_⟩
  rw [hbody]
  exact hunique front back h

end Interpreter

end HostedLisp
