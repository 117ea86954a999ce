import HostedLisp.Proofs.Plan.Contract
import HostedLisp.Proofs.Program.Speech

/-!
# Runs that stay within a vocabulary

A run speaks a vocabulary if it never lets go of other words, words its errors in it, leaves as many
evaluations under way as there were and ends without a fault. The rules follow the steps of which
runs are made, `Run.Speaks.program` those of the programs of the host. The debugger speaks the
vocabulary whatever the user writes: `converse_speaks`, `offer_speaks`, `hold_speaks`.
-/

namespace HostedLisp

variable {V : Vocabulary} {d : Nat} {may may' : Request → Prop} {α β : Type}

/-- All words that a run can take out of the state are in the vocabulary. -/
structure State.In (V : Vocabulary) (s : State) : Prop where
  heap : s.heap.In V
  substitute : ∀ v, s.debugger.substitute = some v → v.In V

lemma State.In.mono {W : Vocabulary} (hVW : V.Within W) {s : State} (hs : s.In V) : s.In W :=
  ⟨hs.heap.mono hVW, fun v hv => (hs.substitute v hv).mono hVW⟩

/-- A result of the vocabulary: what is known of a value is `post`. -/
structure Spoken (V : Vocabulary) (d : Nat) (post : α → Prop) (result : Except Error α)
    (s : State) : Prop where
  state : s.In V
  depth : s.depth = d
  value : ∀ a, result = .ok a → post a
  error : ∀ e, result = .error e → e.In V

/-- Requests of the vocabulary are answered in it, with as many evaluations under way as before, and
without faults. -/
def speech (V : Vocabulary) : Contract where
  may r s := r.In V ∧ s.In V
  gives _ s answer t := Spoken V s.depth (Value.In V) answer t
  faults := False

/-- Requests of the vocabulary that `may` allows, with `d` evaluations under way. -/
def speaking (V : Vocabulary) (d : Nat) (may : Request → Prop) : Contract :=
  (speech V).within fun r s => may r ∧ s.depth = d

/-- From a state of the vocabulary with `d` evaluations under way, a run asks only what it may and
ends in such a state, in an error of the vocabulary or with `post`. -/
def Run.Speaks (V : Vocabulary) (d : Nat) (may : Request → Prop) (post : α → Prop)
    (x : Run α) : Prop :=
  ∀ s : State, s.In V → s.depth = d → (x s).Meets (speaking V d may) (Spoken V d post)

namespace Run.Speaks

variable {post : α → Prop} {x : Run α}

lemma mono {post' : α → Prop} (hx : x.Speaks V d may post) (hmay : ∀ r, may r → may' r)
    (hpost : ∀ a, post a → post' a) : x.Speaks V d may' post' :=
  fun s hs hd => (hx s hs hd).mono (fun _ _ h => ⟨h.1, hmay _ h.2.1, h.2.2⟩)
    (fun _ _ _ _ h => h) (fun h => h)
    fun _ _ h => ⟨h.state, h.depth, fun a ha => hpost a (h.value a ha), h.error⟩

lemma pure {a : α} (h : post a) : (Pure.pure a : Run α).Speaks V d may post :=
  fun _ hs hd => ⟨hs, hd, fun _ heq => Except.ok.inj heq ▸ h, nofun⟩

lemma raise {e : Error} (he : e.In V) : (Run.raise e : Run α).Speaks V d may post :=
  fun _ hs hd => ⟨hs, hd, nofun, fun _ heq => Except.error.inj heq ▸ he⟩

lemma bind {post : β → Prop} {f : α → Run β}
    (hx : x.Speaks V d may fun a => (f a).Speaks V d may post) : (x >>= f).Speaks V d may post := by
  intro s hs hd
  refine (hx s hs hd).bind (fun a t ht => ?_) fun e t ht => ⟨ht.state, ht.depth, nofun, ?_⟩
  · exact ht.value a rfl t ht.state ht.depth
  · exact fun e' heq => ht.error e' (Except.error.inj heq ▸ rfl)

lemma view {f : State → α} (h : ∀ s : State, s.In V → post (f s)) :
    (Run.view f).Speaks V d may post :=
  fun s hs hd => ⟨hs, hd, fun _ heq => Except.ok.inj heq ▸ h s hs, nofun⟩

lemma modify {f : State → State} {post : Unit → Prop} (hf : ∀ s : State, s.In V → (f s).In V)
    (hdepth : ∀ s, (f s).depth = s.depth) (h : post ()) : (Run.modify f).Speaks V d may post :=
  fun s hs hd => ⟨hf s hs, (hdepth s).trans hd, fun _ _ => h, nofun⟩

lemma changeHeap {f : Heap → Heap} {post : Unit → Prop} (hf : ∀ h : Heap, h.In V → (f h).In V)
    (h : post ()) : (Run.changeHeap f).Speaks V d may post :=
  modify (fun s hs => ⟨hf s.heap hs.heap, hs.substitute⟩) (fun _ => rfl) h

lemma changeDebugger {f : Debugger.Controller → Debugger.Controller} {post : Unit → Prop}
    (hf : ∀ c v, (f c).substitute = some v → c.substitute = some v ∨ v.In V) (h : post ()) :
    (Run.changeDebugger f).Speaks V d may post := by
  refine modify (fun s hs => ⟨hs.heap, fun v hv => ?_⟩) (fun _ => rfl) h
  obtain hold | hin := hf s.debugger v hv
  · exact hs.substitute v hold
  · exact hin

lemma display {event : Debugger.Event} {post : Unit → Prop} (h : post ()) :
    (Run.display event).Speaks V d may post :=
  modify (fun _ hs => ⟨hs.heap, hs.substitute⟩) (fun _ => rfl) h

lemma displayLine {text : String} {post : Unit → Prop} (h : post ()) :
    (Run.displayLine text).Speaks V d may post :=
  display h

lemma record {event : Debugger.Event} {post : Unit → Prop} (h : post ()) :
    (Run.record event).Speaks V d may post :=
  modify (fun _ hs => ⟨hs.heap, hs.substitute⟩) (fun _ => rfl) h

lemma readLine {post : Option String → Prop} (h : ∀ line, post line) :
    Run.readLine.Speaks V d may post :=
  fun _ hs hd => ⟨⟨hs.heap, hs.substitute⟩, hd, fun _ _ => h _, nofun⟩

lemma request {r : Request} {post : Value → Prop} (hr : may r) (hin : r.In V)
    (h : ∀ v, v.In V → post v) : (Run.request r).Speaks V d may post := by
  intro s hs hd
  refine Run.request_meets ⟨⟨hin, hs⟩, hr, hd⟩ fun a t ht => ?_
  exact ⟨ht.state, ht.depth.trans hd, fun v hv => h v (ht.value v hv), ht.error⟩

lemma attempt {post : Except Error α → Prop} (hx : x.Speaks V d may fun a => post (.ok a))
    (herr : ∀ e, e.In V → post (.error e)) : (Run.attempt x).Speaks V d may post := by
  intro s hs hd
  refine ((hx s hs hd).post_mono fun result t ht => ?_).attempt
  refine ⟨ht.state, ht.depth, fun a ha => ?_, nofun⟩
  cases ha
  cases result with
  | ok a => exact ht.value a rfl
  | error e => exact herr e (ht.error e rfl)

/-- A program of the vocabulary speaks it when it is carried out. -/
theorem program {p : Program α} (hp : p.Speaks V may post) : p.run.Speaks V d may post := by
  induction p with
  | done a => exact pure hp
  | fail e => exact raise hp
  | fault => exact hp.elim
  | look next ih => exact fun s hs hd => ih s.heap (hp s.heap hs.heap) s hs hd
  | change c next ih =>
    intro s hs hd
    have hchange := hs.heap.apply hp.1
    exact ih _ (hp.2 _ hchange.1) _ ⟨hchange.2, hs.substitute⟩ hd
  | ask r next ih =>
    exact bind (request hp.1.1 hp.1.2 fun v hv => ih v (hp.2 v hv))

end Run.Speaks

/-! ### The debugger -/

namespace Machine

open Run Debugger Vocabulary

variable [V.Coherent] {leader : Char} {frame : FrameId} {source : List Char}

lemma evalLine_speaks (heval : Program.Evals may) :
    (evalLine source frame).Speaks V d may fun result => ∀ v, result = .ok v → v.In V := by
  unfold evalLine
  split
  · exact Speaks.pure nofun
  · next datum hread =>
    have hplace : (Program.perform (.place datum)).Speaks V may (Value.In V) :=
      ⟨Coherent.read hread, fun _ h => h⟩
    refine Speaks.bind (Speaks.program (hplace.imp fun expr he => ?_))
    refine Speaks.bind (Speaks.view fun s _ => ?_)
    refine Speaks.bind (Speaks.changeDebugger (fun _ _ h => .inl h) ?_)
    have hlast (result : Except Error Value) (hr : ∀ v, result = .ok v → v.In V) :
        (do
          changeDebugger fun c => { c with evaluatingLine := s.debugger.evaluatingLine }
          pure result : Run (Except Error Value)).Speaks V d may
          fun result => ∀ v, result = .ok v → v.In V :=
      Speaks.bind (Speaks.changeDebugger (fun _ _ h => .inl h) (Speaks.pure hr))
    refine Speaks.bind (Speaks.attempt (Speaks.request (heval expr frame) he fun v hv => ?_) ?_)
    · exact hlast (.ok v) fun w hw => Except.ok.inj hw ▸ hv
    · exact fun e _ => hlast (.error e) nofun

omit [V.Coherent] in
lemma displayView_speaks {text : Heap → String} {post : Unit → Prop} (h : post ()) :
    (displayView text).Speaks V d may post :=
  Speaks.bind (Speaks.view fun _ _ => Speaks.display h)

lemma obey_speaks (heval : Program.Evals may) {command : Command} {post : Flow → Prop}
    (h : ∀ flow, post flow) : (obey leader frame command).Speaks V d may post := by
  cases command with
  | help => exact Speaks.bind (Speaks.display (Speaks.pure (h _)))
  | backtrace | dump | frame => exact Speaks.bind (displayView_speaks (Speaks.pure (h _)))
  | breakOnError on | trace on =>
    refine Speaks.bind (Speaks.changeDebugger (fun _ _ h => .inl h) ?_)
    exact Speaks.bind (Speaks.displayLine (Speaks.pure (h _)))
  | resume | step =>
    exact Speaks.bind (Speaks.changeDebugger (fun _ _ h => .inl h) (Speaks.pure (h _)))
  | quit => exact Speaks.bind (Speaks.record (Speaks.pure (h _)))
  | stepOut =>
    refine Speaks.bind (Speaks.view fun s _ => ?_)
    cases s.heap.parent? frame with
    | none => exact Speaks.bind (Speaks.displayLine (Speaks.pure (h _)))
    | some _ => exact Speaks.bind (Speaks.changeDebugger (fun _ _ h => .inl h) (Speaks.pure (h _)))
  | resumeWith source =>
    refine Speaks.bind ((evalLine_speaks heval).mono (fun _ h => h) fun result hr => ?_)
    cases result with
    | ok value =>
      refine Speaks.bind (Speaks.changeDebugger (fun c v hv => .inr ?_) (Speaks.pure (h _)))
      exact Option.some.inj hv ▸ hr value rfl
    | error e => exact Speaks.bind (Speaks.displayLine (Speaks.pure (h _)))
  | evaluate source =>
    refine Speaks.bind ((evalLine_speaks heval).mono (fun _ h => h) fun result hr => ?_)
    cases result with
    | ok value => exact Speaks.bind (displayView_speaks (Speaks.pure (h _)))
    | error e => exact Speaks.bind (Speaks.displayLine (Speaks.pure (h _)))

lemma obeyLine_speaks (heval : Program.Evals may) {line : String} {post : Flow → Prop}
    (h : ∀ flow, post flow) : (obeyLine leader frame line).Speaks V d may post := by
  unfold obeyLine
  split
  · exact Speaks.pure (h _)
  · split
    · exact Speaks.bind (Speaks.displayLine (Speaks.pure (h _)))
    · exact obey_speaks heval h

lemma converseFor_speaks (heval : Program.Evals may) {lines : Nat} {post : Unit → Prop}
    (h : post ()) : (converseFor leader frame lines).Speaks V d may post := by
  induction lines with
  | zero => exact Speaks.pure h
  | succ lines ih =>
    refine Speaks.bind (Speaks.readLine fun line => ?_)
    cases line with
    | none => exact Speaks.pure h
    | some line =>
      refine Speaks.bind (obeyLine_speaks heval fun flow => ?_)
      cases flow with
      | resume => exact Speaks.pure h
      | stay => exact ih

/-- A pause stays within the vocabulary whatever the user writes. -/
lemma converse_speaks (heval : Program.Evals may) {post : Unit → Prop} (h : post ()) :
    (converse leader frame).Speaks V d may post := by
  refine Speaks.bind (Speaks.view fun s _ => ?_)
  split
  · exact Speaks.displayLine h
  · refine Speaks.bind (Speaks.changeDebugger (fun _ _ h => nomatch h) ?_)
    refine Speaks.bind (Speaks.view fun _ _ => Speaks.bind (Speaks.display ?_))
    refine Speaks.bind (Speaks.view fun _ _ => Speaks.bind (converseFor_speaks heval ?_))
    exact Speaks.changeDebugger (fun _ _ h => .inl h) h

omit [V.Coherent] in
lemma takeSubstitute_speaks {post : Option Value → Prop}
    (h : ∀ value, (∀ v, value = some v → v.In V) → post value) :
    takeSubstitute.Speaks V d may post := by
  refine Speaks.bind (Speaks.view fun s hs => ?_)
  refine Speaks.bind (Speaks.changeDebugger (fun _ _ h => nomatch h) ?_)
  exact Speaks.pure (h _ hs.substitute)

lemma offer_speaks (heval : Program.Evals may) {error : Error} {post : Value → Prop}
    (he : error.In V) (h : ∀ v, v.In V → post v) :
    (offer leader error frame).Speaks V d may post := by
  refine Speaks.bind (Speaks.view fun s _ => ?_)
  split
  · refine Speaks.bind (Speaks.display (Speaks.bind (converse_speaks heval ?_)))
    refine Speaks.bind (takeSubstitute_speaks fun value hv => ?_)
    cases value with
    | some value => exact Speaks.pure (h value (hv value rfl))
    | none => exact Speaks.bind (Speaks.changeDebugger (fun _ _ h => .inl h) (Speaks.raise he))
  · exact Speaks.raise he

lemma hold_speaks (heval : Program.Evals may) {expr : Value} {post : Option Value → Prop}
    (h : ∀ value, (∀ v, value = some v → v.In V) → post value) :
    (hold leader expr frame).Speaks V d may post := by
  refine Speaks.bind (Speaks.view fun s _ => ?_)
  split
  · refine Speaks.bind (Speaks.changeDebugger (fun _ _ h => .inl h) ?_)
    refine Speaks.bind (Speaks.view fun _ _ => Speaks.bind (Speaks.display ?_))
    exact Speaks.bind (converse_speaks heval (takeSubstitute_speaks h))
  · exact Speaks.pure (h none nofun)

end Machine

end HostedLisp
