import HostedLisp.Interpreter
import HostedLisp.Proofs.Library.Forms
import HostedLisp.Proofs.Library.Functions
import HostedLisp.Proofs.Machine.Keeping

/-!
# Machines with safe primitives

The machine of `Interpreter.full` has the primitives of the standard libraries and no others. On a
machine whose primitives speak a vocabulary all that is carried out does, except that an error is
shown with an expression. What is asked on behalf of a request is bounded: an evaluation asks with
one more evaluation under way, everything else asks for less than it was asked for, unless it is a
call of a primitive that sorts.
-/

namespace HostedLisp

/-- A value of a primitive stands for one of the natives, by its number. -/
def Provided (natives : List Native) (p : Primitive) : Prop :=
  ∃ n, natives[p.id]? = some n ∧ p = ⟨p.id, n.name, n.arity, n.kind⟩

/-- A machine runs natives that are safe for each other. -/
structure Machine.Provides (m : Machine) (natives : List Native) : Prop where
  bodies : m.bodies.toList = natives.map Native.body
  safe : ∀ n ∈ natives, n.Safe (Provided natives)

/-! ### The standard libraries -/

/-- The primitives of all libraries, in the order of their numbers. -/
def standardNatives : List Native :=
  Form.core ++ Debugging.library ++ Arithmetic.library ++ Lists.library ++ Vectors.library ++
    DeviceFields.library

lemma standardNatives_speaks {V : Vocabulary} [V.Coherent] : ∀ n ∈ standardNatives, n.Speaks V := by
  simp only [standardNatives, List.forall_mem_append]
  exact ⟨⟨⟨⟨⟨Form.core_speaks, Debugging.library_speaks⟩, Arithmetic.library_speaks⟩,
    Lists.library_speaks⟩, Vectors.library_speaks⟩, DeviceFields.library_speaks⟩

lemma standardNatives_safe {G : Primitive → Prop} : ∀ n ∈ standardNatives, n.Safe G :=
  fun n hn => Native.safe_iff.2 (standardNatives_speaks n hn)

namespace Interpreter

variable {i : Interpreter} {natives : List Native}

/-- An interpreter runs these natives, and no other primitive can be reached in its state. -/
structure Has (i : Interpreter) (natives : List Native) : Prop where
  bodies : i.machine.bodies.toList = natives.map Native.body
  state : i.state.Over (Provided natives)

lemma provided_append {p : Primitive} (h : Provided natives p) (library : List Native) :
    Provided (natives ++ library) p := by
  obtain ⟨n, hn, hp⟩ := h
  have hlt := (List.getElem?_eq_some_iff.1 hn).1
  exact ⟨n, by rw [List.getElem?_append_left hlt, hn], hp⟩

lemma Has.register (h : i.Has natives) (n : Native) : (i.register n).Has (natives ++ [n]) := by
  have hsize : i.machine.bodies.size = natives.length := by
    rw [← Array.length_toList, h.bodies, List.length_map]
  have hnew : Provided (natives ++ [n]) ⟨i.machine.bodies.size, n.name, n.arity, n.kind⟩ :=
    ⟨n, by rw [hsize, List.getElem?_concat_length], rfl⟩
  have hheap := h.state.heap.mono fun p hp => provided_append hp [n]
  refine ⟨?_, hheap.define .global ⟨n.name⟩ (Value.over_primitive.2 hnew), fun v hv => ?_⟩
  · simp [Interpreter.register, changeHeap, h.bodies]
  · exact (h.state.substitute v hv).mono fun p hp => provided_append hp [n]

lemma Has.registerAll (h : i.Has natives) (library : List Native) :
    (i.registerAll library).Has (natives ++ library) := by
  induction library generalizing i natives with
  | nil =>
    rw [List.append_nil]
    exact h
  | cons n rest ih =>
    rw [List.append_cons]
    exact ih (h.register n)

/-- Where nothing was made yet there are no words. -/
lemma bare_in {V : Vocabulary} (config : Config) (htag : V.tag "") : (bare config).state.In V where
  heap :=
    { head := fun _ => Value.in_nil
      tail := fun _ => Value.in_nil
      slots := fun _ => AllIn.nil
      body := fun _ => AllIn.nil
      name := fun _ _ hname => nomatch hname
      binding := fun id name v hv => by
        have hempty : ((bare config).state.heap.frame id).bindings = .empty := by
          change ((#[].push _ : Array Frame).getD id.index default).bindings = .empty
          rw [getD_push]
          split <;> rfl
        rw [hempty] at hv
        cases hv
      tag := fun _ => htag
      deferred := fun _ _ hf => nomatch hf }
  substitute := nofun

lemma register_in {V : Vocabulary} (h : i.state.In V) {n : Native}
    (hn : V.primitive ⟨i.machine.bodies.size, n.name, n.arity, n.kind⟩) :
    (i.register n).state.In V :=
  ⟨h.heap.define .global ⟨n.name⟩ hn, h.substitute⟩

lemma bare_has (config : Config) : (bare config).Has [] where
  bodies := rfl
  state := State.over_iff.2 (bare_in config trivial)

/-- The standard interpreter has the standard natives and has met nothing else. -/
theorem full_has (config : Config) : (full config).Has standardNatives := by
  have hcore := (bare_has config).registerAll Form.core
  have hminimal := hcore.registerAll Debugging.library
  have hnumbers := hminimal.registerAll Arithmetic.library
  have hlists := hnumbers.registerAll Lists.library
  have hvectors := hlists.registerAll Vectors.library
  exact hvectors.registerAll DeviceFields.library

lemma Has.changeHeap {natives : List Native} (hi : i.Has natives) {f : Heap → Heap}
    (hf : (f i.state.heap).Over (Provided natives)) : (i.changeHeap f).Has natives :=
  ⟨hi.bodies, hf, hi.state.substitute⟩

/-- The machine of an interpreter with the standard natives is safe. -/
lemma Has.provides (hi : i.Has standardNatives) : i.machine.Provides standardNatives :=
  ⟨hi.bodies, standardNatives_safe⟩

end Interpreter

/-! ### What requests lead to -/

/-- The weight of what serving a request asks for at most, apart from evaluations. -/
def Request.bound : Request → Nat
  | .apply (.primitive p) args _ | .call (.primitive p) args _ => reach p.name args.length
  | r => r.weight - 1

/-- Operands and the arguments that they become count alike. -/
lemma Request.bound_apply {func : Value} {args operands : List Value} {frame : FrameId}
    (h : args.length = operands.length) :
    (Request.apply func args frame).bound = (Request.call func operands frame).bound := by
  cases func <;> simp only [bound, weight, h]

/-- A call of a primitive that sorts. -/
def Request.CallsSort : Request → Prop
  | .apply (.primitive p) _ _ | .call (.primitive p) _ _ => p.name ∈ sortNames
  | _ => False

namespace Request

lemma reach_le (name : String) (count : Nat) : reach name count ≤ count + 2 := by
  rw [reach]
  split <;> omega

lemma bound_le_weight (r : Request) : r.bound ≤ r.weight := by
  unfold bound
  split
  · exact reach_le _ _
  · exact reach_le _ _
  · omega

/-- Only a call of a primitive that sorts leads to requests of its own weight. -/
lemma bound_lt_weight {r : Request} (hne : ∀ expr frame, r ≠ .eval expr frame)
    (hsort : ¬r.CallsSort) : r.bound < r.weight := by
  have hreach {name : String} (count : Nat) (h : name ∉ sortNames) :
      reach name count < count + 2 := by
    rw [reach, if_neg h]
    omega
  cases r with
  | eval expr frame => exact absurd rfl (hne expr frame)
  | apply func args frame =>
    cases func with
    | primitive p => exact hreach args.length hsort
    | _ => exact Nat.lt_succ_self _
  | call func operands frame =>
    cases func with
    | primitive p => exact hreach operands.length hsort
    | _ => exact Nat.lt_succ_self _
  | pause | setting | print | isPaused | depth => exact Nat.lt_succ_self _

end Request

namespace Machine

open Run Vocabulary

variable {m : Machine} {V : Vocabulary} {d : Nat} {frame : FrameId}

/-- The primitives of the vocabulary are natives of the machine that speak it. -/
structure Knows (m : Machine) (V : Vocabulary) : Prop where
  native : ∀ p, V.primitive p → ∃ n : Native, m.bodies[p.id]? = some n.body ∧
    p = ⟨p.id, n.name, n.arity, n.kind⟩ ∧ n.Speaks V

/-- The primitives that are provided are natives of the machine. -/
lemma knows_of_provided {natives : List Native}
    (hbodies : m.bodies.toList = natives.map Native.body)
    (hprovided : ∀ p, V.primitive p → Provided natives p) (hspeaks : ∀ n ∈ natives, n.Speaks V) :
    m.Knows V where
  native p hp := by
    obtain ⟨n, hn, hpn⟩ := hprovided p hp
    refine ⟨n, ?_, hpn, hspeaks n (List.mem_of_getElem? hn)⟩
    rw [← Array.getElem?_toList, hbodies, List.getElem?_map, hn]
    rfl

lemma Provides.knows {natives : List Native} (hm : m.Provides natives) :
    m.Knows (.ofPrimitives (Provided natives)) :=
  knows_of_provided hm.bodies (fun _ hp => hp) fun n hn => Native.safe_iff.1 (hm.safe n hn)

lemma invoke_speaks (hm : m.Knows V) {p : Primitive} (hp : V.primitive p)
    {args : List Value} (ha : AllIn V args) {post : Value → Prop} (h : ∀ v, v.In V → post v) :
    (m.invoke p args frame).Speaks V d (fun q => q.weight ≤ reach p.name args.length) post := by
  obtain ⟨n, hbody, hpn, hspeaks⟩ := hm.native p hp
  have hname : p.name = n.name := congrArg Primitive.name hpn
  have harity : p.arity = n.arity := congrArg Primitive.arity hpn
  unfold invoke
  split
  · next haccepts =>
    rw [hbody]
    rw [harity] at haccepts
    rw [hname]
    exact Speaks.program ((hspeaks args frame haccepts ha).imp h)
  · exact Speaks.raise trivial

lemma traceValue_speaks {mark : String} {value : Value} {may : Request → Prop}
    {post : Unit → Prop} (h : post ()) : (traceValue mark value).Speaks V d may post := by
  refine Speaks.bind (Speaks.view fun s _ => ?_)
  split
  · exact Speaks.bind (Speaks.view fun _ _ => Speaks.bind (Speaks.view fun _ _ =>
      Speaks.displayLine h))
  · exact Speaks.pure h

variable [V.Coherent]

/-- Carrying out a call asks for no more than its bound, besides evaluations. -/
lemma applyTo_speaks (hm : m.Knows V) {func : Value} {args : List Value} (hf : func.In V)
    (ha : AllIn V args) : (m.applyTo func args frame).Speaks V d
      (fun q => q.weight ≤ (Request.apply func args frame).bound) (Value.In V) := by
  cases func with
  | primitive p =>
    unfold applyTo
    dsimp only
    split
    · exact invoke_speaks hm hf ha fun _ h => h
    · exact Speaks.raise (Coherent.append (Coherent.append (Coherent.line (by decide))
        (Coherent.primitive hf)) (Coherent.line (by decide)))
  | closure id =>
    refine Speaks.bind (Speaks.view fun s hs => Speaks.program ?_)
    exact Program.speaks_enter (fun _ _ => Nat.zero_le _) (hs.heap.body id) ha
  | _ =>
    refine Speaks.bind (Speaks.view fun s hs => Speaks.raise ?_)
    exact Coherent.append (Coherent.line (by decide)) (Coherent.value hs.heap hf)

lemma call_speaks (hm : m.Knows V) {func : Value} {operands : List Value} (hf : func.In V)
    (ho : AllIn V operands) : (m.call func operands frame).Speaks V d
      (fun q => q.weight ≤ (Request.call func operands frame).bound) (Value.In V) := by
  -- Operands become as many arguments, so the bound is that of the call with the arguments.
  have happly : (do
      let args ← (Program.evalAll operands frame).run
      m.applyTo func args frame : Run Value).Speaks V d
        (fun q => q.weight ≤ (Request.call func operands frame).bound) (Value.In V) := by
    refine Speaks.bind (Speaks.program ?_)
    refine Program.speaks_evalAll (fun _ _ => Nat.zero_le _) ho fun args ha hlen => ?_
    rw [← Request.bound_apply hlen]
    exact applyTo_speaks hm hf ha
  cases func with
  | primitive p =>
    unfold call
    dsimp only
    split
    · exact invoke_speaks hm hf ho fun _ h => h
    · exact happly
  | _ => exact happly

/-- Inside an evaluation everything may be asked for. -/
lemma evalPair_speaks (hm : m.Knows V) {id : CellId} :
    (m.evalPair id frame).Speaks V d (fun _ => True) (Value.In V) := by
  refine Speaks.bind (Speaks.view fun s hs => ?_)
  refine Speaks.bind (Speaks.request trivial (hs.heap.head id) fun func hf => ?_)
  refine Speaks.bind (Speaks.view fun r hr => Speaks.bind (Speaks.view fun t ht => ?_))
  have htail := hr.heap.tail id
  split
  · refine Speaks.bind (Speaks.view fun u hu => Speaks.raise ?_)
    exact Coherent.append (Coherent.line (by decide)) (Coherent.value hu.heap htail)
  · next operands heq =>
    split
    · exact (call_speaks hm hf (ht.heap.listItems? heq)).mono (fun _ _ => trivial) fun _ h => h
    · refine Speaks.bind (Speaks.view fun u hu => Speaks.raise ?_)
      exact Coherent.append (Coherent.line (by decide)) (Coherent.value hu.heap hf)

/-- An error may be shown with an expression where any message may be given. -/
lemma evalList_speaks (hm : m.Knows V) (hany : ∀ t, V.text t) {id : CellId} :
    (m.evalList id frame).Speaks V d (fun _ => True) (Value.In V) := by
  have hlast {value : Value} (hv : value.In V) : (do
      traceValue "=> " value
      pure value : Run Value).Speaks V d (fun _ => True) (Value.In V) :=
    Speaks.bind (traceValue_speaks (Speaks.pure hv))
  refine Speaks.bind (Speaks.changeHeap (fun _ hh => hh.setCode frame _) ?_)
  refine Speaks.bind (traceValue_speaks ?_)
  refine Speaks.bind (Speaks.attempt ((evalPair_speaks hm).mono (fun _ h => h) fun v hv => ?_) ?_)
  · exact hlast hv
  · intro e _
    refine Speaks.bind (Speaks.view fun s _ => ?_)
    refine Speaks.bind (offer_speaks (fun _ _ => trivial) ?_ fun v hv => hlast hv)
    cases e <;> first | exact trivial | exact hany _

lemma evalWithin_speaks (hm : m.Knows V) (hany : ∀ t, V.text t) {expr : Value}
    (he : expr.In V) : (m.evalWithin expr frame).Speaks V d (fun _ => True) (Value.In V) := by
  refine Speaks.bind (hold_speaks (fun _ _ => trivial) fun held hh => ?_)
  cases held with
  | some value => exact Speaks.pure (hh value rfl)
  | none =>
    cases expr with
    | sym name =>
      refine Speaks.bind (Speaks.view fun s hs => ?_)
      split
      · next value heq => exact Speaks.pure (hs.heap.lookup? heq)
      · exact offer_speaks (fun _ _ => trivial) trivial fun _ h => h
    | pair id => exact evalList_speaks hm hany
    | _ => exact Speaks.pure he

/-- What is served without an evaluation of its own speaks the vocabulary within its bound. -/
lemma serve_speaks (hm : m.Knows V) {r : Request} (hr : r.In V)
    (hne : ∀ expr frame, r ≠ .eval expr frame) :
    (m.serve r).Speaks V d (fun q => q.weight ≤ r.bound) (Value.In V) := by
  cases r with
  | eval expr frame => exact absurd rfl (hne expr frame)
  | apply func args frame => exact applyTo_speaks hm hr.1 hr.2
  | call func operands frame => exact call_speaks hm hr.1 hr.2
  | pause frame =>
    refine Speaks.bind (Speaks.view fun _ _ => ?_)
    split
    · refine Speaks.bind (converse_speaks (fun _ _ => Nat.zero_le _) ?_)
      refine Speaks.bind (takeSubstitute_speaks fun value hv => Speaks.pure ?_)
      cases value with
      | none => exact Value.in_nil
      | some value => exact hv value rfl
    · exact Speaks.pure Value.in_nil
  | setting which change =>
    have hlast : (do
        pure (.bool (← view (·.debugger.setting which))) : Run Value).Speaks V d
          (fun q => q.weight ≤ (Request.setting which change).bound) (Value.In V) :=
      Speaks.bind (Speaks.view fun _ _ => Speaks.pure (Value.in_bool _))
    cases change with
    | none => exact hlast
    | some on =>
      refine Speaks.bind (Speaks.changeDebugger (fun c v hv => ?_) hlast)
      cases which <;> exact .inl hv
  | print text => exact Speaks.bind (Speaks.display (Speaks.pure Value.in_nil))
  | isPaused => exact Speaks.bind (Speaks.view fun _ _ => Speaks.pure (Value.in_bool _))
  | depth => exact Speaks.bind (Speaks.view fun _ _ => Speaks.pure (Value.in_int _))

/-! ### The order of the primitives -/

section Order

variable {natives : List Native} (hm : m.Provides natives)

omit hm in
lemma traceValue_keeps {G : Primitive → Prop} {mark : String} {value : Value}
    {may : Request → Prop} {post : Unit → Prop} (h : post ()) :
    (traceValue mark value).Keeps G d may post :=
  (traceValue_speaks h).keeps

include hm

lemma evalWithin_keeps {expr : Value} (he : expr.Over (Provided natives)) :
    (m.evalWithin expr frame).Keeps (Provided natives) d (fun _ => True)
      (Value.Over (Provided natives)) := by
  have hspeaks : (m.evalWithin expr frame).Speaks (.ofPrimitives (Provided natives)) d
      (fun _ => True) (Value.In _) :=
    evalWithin_speaks hm.knows (fun _ => trivial) (Value.over_iff.1 he)
  exact (hspeaks.mono (fun _ h => h) fun _ hv => Value.over_iff.2 hv).keeps

/-- What is served without an evaluation of its own keeps order within its bound. -/
lemma serve_keeps {r : Request} (hr : r.Over (Provided natives))
    (hne : ∀ expr frame, r ≠ .eval expr frame) :
    (m.serve r).Keeps (Provided natives) d (fun q => q.weight ≤ r.bound)
      (Value.Over (Provided natives)) := by
  have hspeaks := serve_speaks (d := d) hm.knows (Request.over_iff.1 hr) hne
  exact (hspeaks.mono (fun _ h => h) fun _ hv => Value.over_iff.2 hv).keeps

end Order

end Machine

end HostedLisp
