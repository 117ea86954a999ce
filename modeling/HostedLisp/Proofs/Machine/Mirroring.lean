import HostedLisp.Proofs.Plan.Matching

/-!
# Machines side by side

One machine mirrors another if both have the same primitives and the same limit, and what the
debugger does in both keeps their states related. Then they answer all requests alike, step by
step, whatever programs run: `Machine.Mirrors.execute`.
-/

namespace HostedLisp

variable {α : Type} {R : State → State → Prop}

/-- What only the debugger can answer. -/
def Request.ToDebugger : Request → Prop
  | .pause _ | .setting .. | .print _ | .isPaused => True
  | _ => False

namespace Machine

open Run

/-- While a plan is carried out, a request is asked, perhaps inside other requests. -/
def Reaches (m : Machine) (p : Plan α) (y : Request × State) : Prop :=
  ∃ x : Request × State, (∃ fuel, p.Asks (m.perform fuel) x.1 x.2) ∧
    Relation.ReflTransGen m.Asks x y

/-- Every request that is asked may be asked. -/
lemma Reaches.may {c : Contract} {post : Except Error α → State → Prop} {m : Machine} {p : Plan α}
    {y : Request × State} (h : m.Reaches p y) (hp : p.Meets c post)
    (hserve : ∀ r s, c.may r s → (m.serve r s).Meets c (c.gives r s)) : c.may y.1 y.2 := by
  obtain ⟨x, ⟨fuel, hx⟩, hxy⟩ := h
  induction hxy with
  | refl => exact hp.may_of_asks (fun r s hr => perform_meets hserve fuel r s hr) hx
  | tail _ hasks ih =>
    obtain ⟨k, hk⟩ := hasks
    exact (hserve _ _ ih).may_of_asks (fun r s hr => perform_meets hserve k r s hr) hk

/-- The second machine keeps in step with the first while only allowed requests go to the
debugger. -/
structure Mirrors (R : State → State → Prop) (allowed : Request → Prop) (m m' : Machine) :
    Prop where
  coupling : Coupling R
  bodies : m'.bodies = m.bodies
  maxDepth : m'.config.maxDepth = m.config.maxDepth
  begin : ∀ s t, R s t → R (begin s) (begin t)
  trace : ∀ mark value, (traceValue mark value).Matches R (traceValue mark value)
  offer : ∀ error frame,
    (offer m.config.leader error frame).Matches R (offer m'.config.leader error frame)
  hold : ∀ expr frame,
    (hold m.config.leader expr frame).Matches R (hold m'.config.leader expr frame)
  debugger : ∀ r, r.ToDebugger → allowed r → (m.serve r).Matches R (m'.serve r)

namespace Mirrors

variable {allowed : Request → Prop} {m m' : Machine} (h : Mirrors R allowed m m')

include h

/-! ### Serving a request -/

lemma invoke (p : Primitive) (args : List Value) (frame : FrameId) :
    (m.invoke p args frame).Matches R (m'.invoke p args frame) := by
  unfold Machine.invoke
  rw [h.bodies]
  split
  · cases m.bodies[p.id]? with
    | none => exact Matches.halt .fault
    | some body => exact Matches.program h.coupling _
  · exact Matches.raise _

lemma applyTo (func : Value) (args : List Value) (frame : FrameId) :
    (m.applyTo func args frame).Matches R (m'.applyTo func args frame) := by
  have hother : (do raise (.type s!"not a function: {← view (·.heap.render func)}") :
      Run Value).Matches R _ :=
    Matches.bind (Matches.viewHeap h.coupling (·.render func)) fun _ => Matches.raise _
  cases func with
  | primitive p =>
    unfold Machine.applyTo
    dsimp only
    cases p.kind with
    | function => exact h.invoke p args frame
    | specialForm => exact Matches.raise _
  | closure id =>
    exact Matches.bind (Matches.viewHeap h.coupling (·.closure id)) fun _ =>
      Matches.program h.coupling _
  | _ => exact hother

lemma call (func : Value) (operands : List Value) (frame : FrameId) :
    (m.call func operands frame).Matches R (m'.call func operands frame) := by
  have hfunction : (do m.applyTo func (← (Program.evalAll operands frame).run) frame).Matches R
      (do m'.applyTo func (← (Program.evalAll operands frame).run) frame) :=
    Matches.bind (Matches.program h.coupling _) fun args => h.applyTo func args frame
  cases func with
  | primitive p =>
    unfold Machine.call
    dsimp only
    cases p.kind with
    | function => exact hfunction
    | specialForm => exact h.invoke p operands frame
  | _ => exact hfunction

lemma evalPair (id : CellId) (frame : FrameId) :
    (m.evalPair id frame).Matches R (m'.evalPair id frame) := by
  refine Matches.bind (Matches.viewHeap h.coupling fun h => (h.cell id).head) fun head => ?_
  refine Matches.bind (Matches.request _) fun func => ?_
  refine Matches.bind (Matches.viewHeap h.coupling fun h => (h.cell id).tail) fun tail => ?_
  refine Matches.bind (Matches.viewHeap h.coupling (·.listItems? tail)) fun operands => ?_
  cases operands with
  | none =>
    exact Matches.bind (Matches.viewHeap h.coupling (·.render tail)) fun _ => Matches.raise _
  | some operands =>
    dsimp only
    split
    · exact h.call func operands frame
    · exact Matches.bind (Matches.viewHeap h.coupling (·.render func)) fun _ => Matches.raise _

lemma evalList (id : CellId) (frame : FrameId) :
    (m.evalList id frame).Matches R (m'.evalList id frame) := by
  refine Matches.bind (Matches.changeHeap h.coupling _) fun _ => ?_
  refine Matches.bind (h.trace _ _) fun _ => ?_
  have hlast (value : Value) : (do traceValue "=> " value; pure value).Matches R _ :=
    Matches.bind (h.trace _ _) fun _ => Matches.pure value
  refine Matches.bind (Matches.attempt (h.evalPair id frame)) fun result => ?_
  cases result with
  | ok value => exact hlast value
  | error e =>
    refine Matches.bind (Matches.viewHeap h.coupling fun heap => heap) fun heap => ?_
    exact Matches.bind (h.offer _ frame) hlast

lemma evalWithin (expr : Value) (frame : FrameId) :
    (m.evalWithin expr frame).Matches R (m'.evalWithin expr frame) := by
  refine Matches.bind (h.hold expr frame) fun held => ?_
  cases held with
  | some value => exact Matches.pure value
  | none =>
    cases expr with
    | sym name =>
      refine Matches.bind (Matches.viewHeap h.coupling (·.lookup? frame name)) fun value => ?_
      cases value with
      | some value => exact Matches.pure value
      | none => exact h.offer _ frame
    | pair id => exact h.evalList id frame
    | _ => exact Matches.pure _

lemma evaluate (expr : Value) (frame : FrameId) :
    (m.evaluate expr frame).Matches R (m'.evaluate expr frame) := by
  intro s t hst
  have hbegin := h.begin s t hst
  have hdepth := h.coupling.depth hbegin
  unfold Machine.evaluate
  dsimp only
  rw [h.maxDepth, hdepth]
  split
  · exact .stop hbegin
  · refine Plan.Matches.atEnd ?_
    refine (h.evalWithin expr frame _ _ (h.coupling.setDepth hbegin _)).post_mono ?_
    intro a u v huv
    have hend := h.coupling.setDepth huv (u.depth - 1)
    rwa [← h.coupling.depth huv] at hend ⊢

/-- Every allowed request is served alike. -/
theorem serve {r : Request} (hr : allowed r) : (m.serve r).Matches R (m'.serve r) := by
  cases r with
  | eval expr frame => exact h.evaluate expr frame
  | apply func args frame => exact h.applyTo func args frame
  | call func operands frame => exact h.call func operands frame
  | depth => exact Matches.bind (Matches.view fun _ _ => h.coupling.depth) fun _ => Matches.pure _
  | pause | setting | print | isPaused => exact h.debugger _ trivial hr

/-! ### Requests inside requests -/

/-- Requests are answered alike if all requests inside them are allowed. -/
theorem perform {r : Request} {s t : State} (fuel : Nat)
    (hr : ∀ y, Relation.ReflTransGen m.Asks (r, s) y → allowed y.1) (hst : R s t) :
    Outcome.Matches (fun _ => R) (m.perform fuel r s) (m'.perform fuel r t) := by
  induction fuel generalizing r s t with
  | zero => exact ⟨rfl, hst⟩
  | succ fuel ih =>
    rw [perform_succ, perform_succ]
    refine (h.serve (hr _ .refl) s t hst).execute (fun _ _ _ h => h) fun q u v hq huv => ?_
    exact ih (fun y hy => hr y (hy.head ⟨fuel, hq⟩)) huv

/-- Plans that match are carried out alike if all requests that come up are allowed. -/
theorem execute {post : Except Halt α → State → State → Prop} {p p' : Plan α} (fuel : Nat)
    (hp : p.Matches R post p') (hhalt : ∀ e s t, R s t → post (.error e) s t)
    (hallowed : ∀ y, m.Reaches p y → allowed y.1) :
    Outcome.Matches post (p.execute (m.perform fuel)) (p'.execute (m'.perform fuel)) := by
  refine hp.execute hhalt fun q u v hq huv => ?_
  exact h.perform fuel (fun y hy => hallowed y ⟨_, ⟨fuel, hq⟩, hy⟩) huv

end Mirrors

end Machine

end HostedLisp
