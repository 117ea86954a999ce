import HostedLisp.Proofs.Machine.Standard
import HostedLisp.Proofs.Program.Writing

/-!
# Calls of primitives

A call of a primitive, with arguments that are values already or with operands that are yet to be
evaluated, comes to a program: that of its operands, if it takes their values, and then its body.
Main definitions: `Machine.Carries`, `Request.IsCall`, `Native.called`. Main statement:
`Machine.serve_call`.
-/

namespace HostedLisp

/-- A machine has the body of a native under the number of a primitive. -/
structure Machine.Carries (m : Machine) (p : Primitive) (n : Native) : Prop where
  body : m.bodies[p.id]? = some n.body
  eq : p = ⟨p.id, n.name, n.arity, n.kind⟩

/-- A call of a primitive in a frame. -/
inductive Request.IsCall (p : Primitive) (frame : FrameId) : Request → Prop
  | apply (args : List Value) : IsCall p frame (.apply (.primitive p) args frame)
  | call (operands : List Value) : IsCall p frame (.call (.primitive p) operands frame)

/-- The operands that are to be evaluated. -/
def Request.operands : Request → List Value
  | .call _ operands _ => operands
  | _ => []

/-- Before a primitive begins, its arguments are evaluated, which leaves another state. -/
def Request.Enters (answer : Answer) (s : State) (args : List Value) (t : State) : Request → Prop
  | .apply _ given _ => given = args ∧ s = t
  | .call _ operands frame =>
    ((Program.evalAll operands frame).run s).execute answer = (.ok args, t)
  | _ => False

namespace Native

/-- What a native does with arguments, of which there may be too few or too many. -/
def invoked (n : Native) (args : List Value) (frame : FrameId) : Program Value :=
  if n.arity.accepts args.length then n.body args frame
  else .fail (.arity n.arity args.length (some n.name))

/-- The program that a call of a native comes to. -/
def called (n : Native) : Request → Program Value
  | .apply _ args frame =>
    match n.kind with
    | .function => n.invoked args frame
    | .specialForm =>
      .fail (.type s!"special form {n.name} cannot be applied to evaluated arguments")
  | .call _ operands frame =>
    match n.kind with
    | .function => (Program.evalAll operands frame).bind fun args => n.invoked args frame
    | .specialForm => n.invoked operands frame
  | _ => .fault

/-- A name belongs to one standard primitive. -/
lemma eq_of_name {n d : Native} (hn : n ∈ standardNatives)
    (hnames : standardNatives.filter (fun d => d.name = n.name) = [d]) : n = d := by
  have hmem : n ∈ standardNatives.filter (fun d => d.name = n.name) :=
    List.mem_filter.2 ⟨hn, decide_eq_true rfl⟩
  rw [hnames] at hmem
  exact List.mem_singleton.1 hmem

end Native

namespace Machine

variable {m : Machine} {p : Primitive} {n : Native} {frame : FrameId}

lemma Carries.invoke (h : m.Carries p n) (args : List Value) :
    m.invoke p args frame = (n.invoked args frame).run := by
  have harity : p.arity = n.arity := congrArg Primitive.arity h.eq
  have hname : p.name = n.name := congrArg Primitive.name h.eq
  rw [Machine.invoke, Native.invoked, harity, hname, h.body]
  split <;> rfl

/-- A call of a native is served by a program. -/
theorem serve_call (h : m.Carries p n) {r : Request} (hr : r.IsCall p frame) :
    m.serve r = (n.called r).run := by
  have hkind : p.kind = n.kind := congrArg Primitive.kind h.eq
  have hname : p.name = n.name := congrArg Primitive.name h.eq
  cases hr with
  | apply args =>
    change m.applyTo (.primitive p) args frame = _
    rw [applyTo, Native.called, hkind]
    cases n.kind with
    | function => exact h.invoke args
    | specialForm =>
      rw [hname]
      rfl
  | call operands =>
    change m.call (.primitive p) operands frame = _
    rw [call, Native.called, hkind]
    cases hn : n.kind with
    | function =>
      rw [Program.run_bind]
      refine congrArg (Run.bind _) (funext fun args => ?_)
      rw [applyTo, hkind, hn]
      exact h.invoke args
    | specialForm => exact h.invoke operands

/-- A native function that ends with a value took its arguments, and goes on where evaluating them
ended. -/
lemma exists_enters (hn : n.kind = .function) {r : Request} (hr : r.IsCall p frame)
    {answer : Answer} {s t : State} {v : Value}
    (h : ((n.called r).run s).execute answer = (.ok v, t)) :
    ∃ args u, r.Enters answer s args u ∧
      ((n.body args frame).run u).execute answer = (.ok v, t) := by
  have hbody {args : List Value} {u : State}
      (hv : ((n.invoked args frame).run u).execute answer = (.ok v, t)) :
      ((n.body args frame).run u).execute answer = (.ok v, t) := by
    rw [Native.invoked] at hv
    split at hv
    · exact hv
    · cases hv
  cases hr with
  | apply args =>
    rw [Native.called, hn] at h
    exact ⟨args, s, ⟨rfl, rfl⟩, hbody h⟩
  | call operands =>
    rw [Native.called, hn, Program.run_bind, Run.bind_apply] at h
    obtain ⟨args, u, hargs, hv⟩ := Plan.exists_of_execute_bind h
    exact ⟨args, u, hargs, hbody hv⟩

/-- A native function goes on where evaluating its arguments ended. -/
lemma execute_called (hn : n.kind = .function) {r : Request} (hr : r.IsCall p frame)
    {answer : Answer} {s t : State} {args : List Value} (henters : r.Enters answer s args t) :
    ((n.called r).run s).execute answer = ((n.invoked args frame).run t).execute answer := by
  cases hr with
  | apply given =>
    obtain ⟨rfl, rfl⟩ := henters
    rw [Native.called, hn]
  | call operands =>
    rw [Native.called, hn, Program.run_bind, Run.bind_apply, Plan.execute_bind henters]

/-- There it goes on with its body, if it takes so many arguments. -/
lemma execute_of_enters (hn : n.kind = .function) {r : Request} (hr : r.IsCall p frame)
    {answer : Answer} {s t : State} {args : List Value}
    (hargs : n.arity.accepts args.length = true) (henters : r.Enters answer s args t) :
    ((n.called r).run s).execute answer = ((n.body args frame).run t).execute answer := by
  have hinvoked : n.invoked args frame = n.body args frame := if_pos hargs
  rw [execute_called hn hr henters, hinvoked]

/-- What a body asks for is asked in the call. -/
lemma asks_of_enters (hn : n.kind = .function) {r : Request} (hr : r.IsCall p frame)
    {answer : Answer} {s t u : State} {args : List Value} {q : Request}
    (hargs : n.arity.accepts args.length = true) (henters : r.Enters answer s args t)
    (hq : ((n.body args frame).run t).Asks answer q u) :
    ((n.called r).run s).Asks answer q u := by
  have hinvoked : n.invoked args frame = n.body args frame := if_pos hargs
  cases hr with
  | apply given =>
    obtain ⟨rfl, rfl⟩ := henters
    rw [Native.called, hn, hinvoked]
    exact hq
  | call operands =>
    rw [Native.called, hn, Program.run_bind, Run.bind_apply]
    refine Plan.Asks.bind_right henters ?_
    rwa [hinvoked]

/-- A program of the host never runs out of fuel by itself. -/
lemma program_meets {α : Type} (p : Program α) (s : State) :
    (p.run s).Meets ⟨fun _ _ => True, fun _ _ _ _ => True, True⟩ fun _ _ => True := by
  induction p generalizing s with
  | done | fail | fault => trivial
  | look next ih => exact ih s.heap s
  | change c next ih => exact ih _ _
  | ask r next ih =>
    rw [Program.run_ask]
    refine ⟨trivial, fun a t _ => ?_⟩
    cases a with
    | ok v => exact ih v t
    | error e => trivial

/-- If each of its requests is answered for some stock of fuel, there is one that lasts for all. -/
lemma exists_fuel {α : Type} {p : Program α} {s : State}
    (h : ∀ q u, (∃ fuel, (p.run s).Asks (m.perform fuel) q u) →
      ∃ fuel a t, m.perform fuel q u = .answered a t) :
    ∃ fuel, ∀ q u, (p.run s).Asks (m.perform fuel) q u →
      ∃ a t, m.perform fuel q u = .answered a t := by
  have hanswer (fuel : Nat) (r : Request) (u : State) (_ : True) :
      (m.perform fuel r u).Meets True fun _ _ => True := by
    obtain ⟨a, t, ha⟩ | ⟨t, ha⟩ | ⟨t, ha⟩ := (m.perform fuel r u).cases
    · rw [ha, Outcome.meets_answered]
      trivial
    · rw [ha]
      trivial
    · rw [ha]
      trivial
  obtain ⟨fuel, hfuel⟩ := execute_ends (program_meets p s) hanswer fun q u hq => by
    obtain ⟨fuel, a, t, ha⟩ := h q u hq
    exact ⟨fuel, ha ▸ Outcome.answered_ne_exhausted a t⟩
  refine ⟨fuel, fun q u hq => ?_⟩
  obtain ⟨fuel', a, t, ha⟩ := h q u ⟨fuel, hq⟩
  have hlasts := hq.answered (fun _ _ _ _ => rfl) hfuel
  have hlasts' : (m.perform fuel' q u).1 ≠ .error .exhausted := by
    rw [ha]
    exact Outcome.answered_ne_exhausted a t
  exact ⟨a, t, (perform_unique hlasts' hlasts).trans ha⟩

end Machine

end HostedLisp
