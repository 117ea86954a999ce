import HostedLisp.Proofs.Library.Sorting

/-!
# Operations that change what there is

The primitives that write into pairs, vectors and frames check everything before they write
anything. One that fails has written nothing: what is left is what evaluating its operands and
comparing elements left. Main definition: `mutatorNames`. Main statement: `Machine.mutation_whole`.
-/

namespace HostedLisp

open Program

/-- The names of the primitives that change pairs, vectors or bindings. -/
def mutatorNames : List String := ["define", "set!", "set-car!", "set-cdr!", "vector-set!",
  "vector-fill!", "subvector-fill!", "subvector-move-left!", "subvector-move-right!",
  "vector-sort!"]

variable {may : Request → Prop} {frame : FrameId}

/-- Checks everything before it writes anything. A form evaluates its operands meanwhile, and the
primitive that sorts in place compares. -/
def Native.WritesLast (n : Native) : Prop :=
  ∀ args frame, (n.body args frame).WritesLast fun q =>
    (n.kind = .specialForm ∧ ∃ expr ∈ args, q = .eval expr frame) ∨
      (n.name = "vector-sort!" ∧ ∃ less x y, q = .apply less [x, y] frame)

/-! ### Checks -/

namespace Program

lemma reads_eval {expr : Value} (h : may (.eval expr frame)) : (eval expr frame).Reads may :=
  ⟨h, fun _ => trivial⟩

lemma reads_wrongType {α : Type} {message : String} {value : Value} :
    (wrongType message value : Program α).Reads may :=
  fun _ => trivial

lemma writesLast_wrongType {α : Type} {message : String} {value : Value} :
    (wrongType message value : Program α).WritesLast may :=
  fun _ => trivial

/-- A single change is the last step. -/
lemma writesLast_perform (c : Change) : (perform c).WritesLast may := fun _ => trivial

lemma concludes_perform (c : Change) : (perform c).Concludes := fun _ => trivial

/-- Operands are evaluated one after the other. -/
lemma reads_evalOnto {evaluated operands : List Value}
    (h : ∀ expr ∈ operands, may (.eval expr frame)) :
    (evalOnto evaluated frame operands).Reads may := by
  induction operands generalizing evaluated with
  | nil => trivial
  | cons expr rest ih =>
    rw [List.forall_mem_cons] at h
    exact (reads_eval h.1).bind fun _ => ih h.2

end Program

lemma Param.reads_convert {p : Param} {value : Value} : (p.convert value).Reads may := by
  unfold Param.convert
  split
  · trivial
  · exact reads_wrongType

namespace Native

lemma writesLast_feed {ps : List Param} {f : Function (Program Value) ps} {args : List Value}
    (hf : Function.Always (.ofPrimitives fun _ => True) (Program.WritesLast may) ps f) :
    (feed (fun result _ => result) ps f args).WritesLast may := by
  induction ps generalizing args with
  | nil => exact hf
  | cons p ps ih =>
    cases args with
    | nil => trivial
    | cons value rest =>
      refine Param.reads_convert.bind_writesLast fun x => ih (hf x ?_)
      cases p with
      | any => exact Value.over_iff.1 fun _ _ => trivial
      | _ => trivial

/-- A function of parameters is converted its arguments before it does anything. -/
lemma writesLast_fixed {name : String} {ps : List Param} {f : Function (Program Value) ps}
    (hf : ∀ may, Function.Always (.ofPrimitives fun _ => True) (Program.WritesLast may) ps f) :
    (fixed name ps f).WritesLast := by
  intro args frame
  change (fixedBody ps f args frame).WritesLast _
  unfold fixedBody
  split
  · exact writesLast_feed (hf _)
  · trivial

end Native

/-! ### Pairs and vectors -/

lemma Lists.update_writesLast (name : String) (change : CellId → Value → Change) :
    (update name change).WritesLast := by
  refine Native.writesLast_fixed fun may target _ value _ => ?_
  cases target with
  | pair id => exact (writesLast_perform (change id value)).bind fun _ => trivial
  | _ => exact writesLast_wrongType

namespace Vectors

open Sequence

lemma reads_expectVector {name : String} {value : Value} :
    (expectVector name value).Reads may := by
  unfold expectVector
  split
  · exact fun _ => trivial
  · exact reads_wrongType

lemma reads_slotIndex {name : String} {index : Int64} {length : Nat} :
    (slotIndex name index length).Reads may := by
  unfold slotIndex
  split <;> trivial

lemma reads_boundary {name : String} {index : Int64} {low high : Nat} :
    (boundary name index low high).Reads may := by
  unfold boundary
  split <;> trivial

lemma set_writesLast : (Native.fixed "vector-set!" [.any, .int, .any] set).WritesLast := by
  refine Native.writesLast_fixed fun may value _ index _ new _ => ?_
  refine reads_expectVector.bind_writesLast fun _ => reads_slotIndex.bind_writesLast fun _ => ?_
  exact (writesLast_perform _).bind fun _ => trivial

lemma fill_writesLast : (Native.fixed "vector-fill!" [.any, .any] fill).WritesLast := by
  refine Native.writesLast_fixed fun may value _ new _ => ?_
  refine reads_expectVector.bind_writesLast fun _ => ?_
  exact (writesLast_perform _).bind fun _ => trivial

lemma fillSlice_writesLast :
    (Native.fixed "subvector-fill!" [.any, .int, .int, .any] fillSlice).WritesLast := by
  refine Native.writesLast_fixed fun may value _ start _ finish _ new _ => ?_
  refine reads_expectVector.bind_writesLast fun _ => ?_
  refine reads_boundary.bind_writesLast fun _ => reads_boundary.bind_writesLast fun _ => ?_
  exact (writesLast_perform _).bind fun _ => trivial

lemma move_writesLast (name : String) (descending : Bool) : (move name descending).WritesLast := by
  refine Native.writesLast_fixed fun may source _ start _ finish _ target _ position _ => ?_
  refine reads_expectVector.bind_writesLast fun _ => reads_expectVector.bind_writesLast fun _ => ?_
  refine reads_boundary.bind_writesLast fun _ => reads_boundary.bind_writesLast fun _ => ?_
  refine reads_boundary.bind_writesLast fun _ => ?_
  dsimp only
  split
  · trivial
  · exact (writesLast_perform _).bind fun _ => trivial

lemma reads_vectorItems {name : String} {value : Value} : (vectorItems name value).Reads may := by
  unfold vectorItems
  split
  · exact fun _ => trivial
  · exact reads_wrongType

lemma reads_expectFunction {name : String} {value : Value} :
    (expectFunction name value).Reads may := by
  unfold expectFunction
  split
  · trivial
  · exact reads_wrongType

lemma sortInPlace_writesLast :
    (Native.function "vector-sort!" (.exactly 2) sortInPlace).WritesLast := by
  intro args frame
  change (sortInPlace args frame).WritesLast _
  unfold sortInPlace
  split
  · next value less =>
    refine reads_vectorItems.bind_writesLast fun items => ?_
    refine reads_expectFunction.bind_writesLast fun _ => ?_
    have hsort : (mergeSort less frame items).Reads (Compares less frame items) :=
      (mergeSort_queries items).reads
    refine (hsort.mono ?_).bind_writesLast fun sorted => ?_
    · rintro q ⟨x, -, y, -, rfl⟩
      exact .inr ⟨rfl, less, x, y, rfl⟩
    · dsimp only
      split
      · exact (writesLast_perform _).bind fun _ => trivial
      · trivial
  · trivial

end Vectors

/-! ### Forms -/

namespace Form

lemma concludes_bindName (name : Symbol) (value : Value) :
    (bindName frame name value).Concludes :=
  (concludes_perform _).bind fun _ => trivial

lemma makeClosure_writesLast (parameters : Value) (body : List Value) (name : Option Symbol) :
    (makeClosure parameters body frame name).WritesLast may := by
  intro h
  dsimp only
  split
  · trivial
  · exact writesLast_perform _

/-- A definition makes its function, or names the one that it is given, and then binds the name,
which cannot fail. -/
lemma define_writesLast : (Native.form "define" (.atLeast 1) define).WritesLast := by
  intro operands frame
  change (define operands frame).WritesLast _
  unfold define
  split
  · next name => exact (concludes_bindName name .nil).writesLast
  · next name expr =>
    have heval : (eval expr frame).Reads fun q =>
        (Primitive.Kind.specialForm = .specialForm ∧ ∃ e ∈ [.sym name, expr], q = .eval e frame) ∨
          ("define" = "vector-sort!" ∧ ∃ less x y, q = .apply less [x, y] frame) :=
      reads_eval (.inl ⟨rfl, expr, by simp, rfl⟩)
    refine heval.bind_writesLast fun value => ?_
    dsimp only
    split
    · exact (writesLast_perform _).bind fun _ => concludes_bindName name _
    · exact (concludes_bindName name value).writesLast
  · trivial
  · next id body _ =>
    intro h
    dsimp only
    split
    · split
      · trivial
      · next name _ _ =>
        exact (makeClosure_writesLast _ _ _).bind fun value => concludes_bindName name value
    · exact writesLast_wrongType
  · exact writesLast_wrongType
  · trivial

/-- The name is looked up after its new value is known. -/
lemma set_writesLast : (Native.form "set!" (.exactly 2) set).WritesLast := by
  intro operands frame
  change (set operands frame).WritesLast _
  unfold set
  split
  · next name expr =>
    refine (reads_eval (.inl ⟨rfl, expr, by simp, rfl⟩)).bind_writesLast fun value => ?_
    refine WritesLast.bind (fun h => ?_) fun _ => trivial
    dsimp only
    split
    · exact writesLast_perform _
    · trivial
  · exact writesLast_wrongType
  · trivial

end Form

/-! ### Calls -/

lemma mutatorNames_eq : standardNatives.filter (fun n => n.name ∈ mutatorNames) =
    [.form "define" (.atLeast 1) Form.define, .form "set!" (.exactly 2) Form.set,
      Lists.update "set-car!" .setHead, Lists.update "set-cdr!" .setTail,
      .fixed "vector-set!" [.any, .int, .any] Vectors.set,
      .fixed "vector-fill!" [.any, .any] Vectors.fill,
      .fixed "subvector-fill!" [.any, .int, .int, .any] Vectors.fillSlice,
      Vectors.move "subvector-move-left!" false, Vectors.move "subvector-move-right!" true,
      .function "vector-sort!" (.exactly 2) Vectors.sortInPlace] := rfl

/-- All primitives that change something check first. -/
lemma mutator_writesLast {n : Native} (hn : n ∈ standardNatives) (hname : n.name ∈ mutatorNames) :
    n.WritesLast := by
  have hmem : n ∈ standardNatives.filter (fun n => n.name ∈ mutatorNames) :=
    List.mem_filter.2 ⟨hn, by simpa using hname⟩
  rw [mutatorNames_eq] at hmem
  simp only [List.mem_cons, List.not_mem_nil, or_false] at hmem
  obtain rfl | rfl | rfl | rfl | rfl | rfl | rfl | rfl | rfl | rfl := hmem
  · exact Form.define_writesLast
  · exact Form.set_writesLast
  · exact Lists.update_writesLast _ _
  · exact Lists.update_writesLast _ _
  · exact Vectors.set_writesLast
  · exact Vectors.fill_writesLast
  · exact Vectors.fillSlice_writesLast
  · exact Vectors.move_writesLast _ _
  · exact Vectors.move_writesLast _ _
  · exact Vectors.sortInPlace_writesLast

/-- What happens in a call of such a primitive besides its own writing: its operands are evaluated,
and the one that sorts in place compares. -/
def Request.Aside (r : Request) (n : Native) (frame : FrameId) (q : Request) : Prop :=
  (∃ expr ∈ r.operands, q = .eval expr frame) ∨
    (n.name = "vector-sort!" ∧ ∃ less x y, q = .apply less [x, y] frame)

lemma Native.WritesLast.invoked {n : Native} (h : n.WritesLast) (args : List Value)
    (frame : FrameId) : (n.invoked args frame).WritesLast fun q =>
      (n.kind = .specialForm ∧ ∃ expr ∈ args, q = .eval expr frame) ∨
        (n.name = "vector-sort!" ∧ ∃ less x y, q = .apply less [x, y] frame) := by
  unfold Native.invoked
  split
  · exact h args frame
  · trivial

lemma Native.WritesLast.called {n : Native} (h : n.WritesLast) {p : Primitive} {r : Request}
    (hr : r.IsCall p frame) : (n.called r).WritesLast (r.Aside n frame) := by
  cases hr with
  | apply args =>
    unfold Native.called
    dsimp only
    split
    · next hkind =>
      refine (h.invoked args frame).mono ?_
      rintro q (⟨hform, -⟩ | hq)
      · cases hkind.symm.trans hform
      · exact .inr hq
    · trivial
  | call operands =>
    unfold Native.called
    dsimp only
    split
    · next hkind =>
      have hoperands : (evalAll operands frame).Reads
          (Request.Aside (.call (.primitive p) operands frame) n frame) :=
        reads_evalOnto fun expr hexpr => .inl ⟨expr, hexpr, rfl⟩
      refine hoperands.bind_writesLast fun args => (h.invoked args frame).mono ?_
      rintro q (⟨hform, -⟩ | hq)
      · cases hkind.symm.trans hform
      · exact .inr hq
    · refine (h.invoked operands frame).mono ?_
      rintro q (⟨-, hq⟩ | hq)
      · exact .inl hq
      · exact .inr hq

namespace Machine

open Sequence

variable {m : Machine} {p : Primitive} {n : Native}

/-- Sorting in place comes to a result only for a vector and a function. -/
lemma sortInPlace_args {answer : Answer} {args : List Value} {u t : State} {v : Value}
    (h : ((Vectors.sortInPlace args frame).run u).execute answer = (.ok v, t)) :
    ∃ id less, args = [.vector id, less] ∧ less.isFunction := by
  unfold Vectors.sortInPlace at h
  split at h
  · next value less =>
    cases value with
    | vector id =>
      refine ⟨id, less, rfl, ?_⟩
      by_contra hless
      rw [expectFunction, if_neg hless] at h
      cases h
    | _ => cases h
  · cases h

/-- A vector that is sorted in place keeps its identity, and holds the elements in order that it
held when the operation began, whatever the comparisons wrote into it. -/
lemma sortInPlace_execute (hp : m.Carries p n) (hn : n ∈ standardNatives)
    (hname : n.name = "vector-sort!") {r : Request} (hr : r.IsCall p frame) {fuel : Nat}
    {s t : State} {v : Value}
    (h : (m.serve r s).execute (m.perform fuel) = (.ok v, t)) :
    ∃ id less u, r.Enters (m.perform fuel) s [.vector id, less] u ∧ v = .vector id ∧
      Sorts ((m.serve r s).Compared (m.perform fuel) less frame) (u.heap.vector id).toList
        (t.heap.vector id).toList := by
  obtain rfl : n = .function "vector-sort!" (.exactly 2) Vectors.sortInPlace :=
    Native.eq_of_name hn (by rw [hname]; rfl)
  rw [serve_call hp hr] at h ⊢
  obtain ⟨args, u, henters, hbody⟩ := exists_enters rfl hr h
  obtain ⟨id, less, rfl, hless⟩ := sortInPlace_args hbody
  have hsorts : SortsBy _ _ less frame u _ _ := sortInPlace_sortsBy id hless
  rw [hsorts.run, run_bind, Run.bind_apply] at hbody
  obtain ⟨sorted, w, hsorted, hfinish⟩ := Plan.exists_of_execute_bind hbody
  cases hfinish
  refine ⟨id, less, u, henters, rfl, ?_⟩
  obtain ⟨sorted', w', heq, hinOrder⟩ | ⟨e, w', q, z, heq, -⟩ :=
    mergeSort_run fun q z hq => Plan.answered_of_asks hsorted hq
  · cases hsorted.symm.trans heq
    have hsize : sorted.length = (w.heap.vector id).size := by
      rw [hinOrder.perm.length_eq, size_after_sorting hsorted, Array.length_toList]
    rw [Heap.toList_setSlots_all hsize]
    refine hinOrder.mono ?_
    rintro x y b ⟨z, v, z', hq, hv⟩
    refine ⟨z, v, z', asks_of_enters rfl hr rfl henters ?_, hv⟩
    rw [hsorts.run, run_bind, Run.bind_apply]
    exact hq.bind_left
  · cases hsorted.symm.trans heq

/-- Operations that change something are all or nothing. A call of one of them that fails has itself
written nothing: what is left is what its operands and its comparisons left, evaluated one after the
other. A vector that is sorted in place keeps its identity, and holds in the end what it held when
the operation began, put in order, whatever the comparisons wrote into it. -/
theorem mutation_whole (hn : n ∈ standardNatives) (hname : n.name ∈ mutatorNames)
    (hp : m.Carries p n) {r : Request} (hr : r.IsCall p frame) (fuel : Nat) (s : State) :
    (∀ e t, m.perform (fuel + 1) r s = (.error (.error e), t) →
      t = s.after (m.perform fuel) ((m.serve r s).requests (m.perform fuel)) ∧
        ∀ q ∈ (m.serve r s).requests (m.perform fuel), r.Aside n frame q) ∧
    (n.name = "vector-sort!" → ∀ v t, m.perform (fuel + 1) r s = (.ok v, t) →
      ∃ id less u, r.Enters (m.perform fuel) s [.vector id, less] u ∧ v = .vector id ∧
        Sorts ((m.serve r s).Compared (m.perform fuel) less frame) (u.heap.vector id).toList
          (t.heap.vector id).toList) := by
  refine ⟨fun e t h => ?_, fun hsort v t h => sortInPlace_execute hp hn hsort hr h⟩
  have hlast := (mutator_writesLast hn hname).called hr
  rw [perform_succ, serve_call hp hr] at h
  rw [serve_call hp hr]
  have honly := hlast.run_error (congrArg Prod.fst h)
  exact ⟨(congrArg Prod.snd h).symm.trans honly.leaves, honly.may⟩

end Machine

namespace Interpreter

/-- The primitive that sorts a vector in place. -/
def sortInPlacePrimitive : Primitive := ⟨103, "vector-sort!", .exactly 2, .function⟩

/-- The call that sorts the vector of three integers in place by some function. -/
def sortInPlaceCall (less : Primitive) : Request :=
  .apply (.primitive sortInPlacePrimitive) [.vector ⟨0⟩, .primitive less] .global

/-- By the primitive that compares numbers the vector is sorted; the primitive that sorts fails as a
comparison of integers, and then everything is as before. -/
theorem mutation_whole_integers : ∃ t e u,
    (full .standard).machine.perform 3 (sortInPlaceCall lessPrimitive) unsorted =
        (.ok (.vector ⟨0⟩), t) ∧
      (t.heap.vector ⟨0⟩).toList.Perm [.int 3, .int 1, .int 2] ∧
      (full .standard).machine.perform 3 (sortInPlaceCall sortPrimitive) unsorted =
        (.error (.error e), u) ∧
      u = unsorted.after ((full .standard).machine.perform 2)
        (((full .standard).machine.serve (sortInPlaceCall sortPrimitive) unsorted).requests
          ((full .standard).machine.perform 2)) := by
  have hn : .function "vector-sort!" (.exactly 2) Vectors.sortInPlace ∈ standardNatives :=
    List.mem_of_getElem? (i := 103) rfl
  have hcarries : (full .standard).machine.Carries sortInPlacePrimitive
      (.function "vector-sort!" (.exactly 2) Vectors.sortInPlace) := ⟨rfl, rfl⟩
  have hwhole (less : Primitive) := Machine.mutation_whole hn (by decide) hcarries
    (r := sortInPlaceCall less) (.apply _) 2 unsorted
  have hvalue : ((full .standard).machine.perform 3 (sortInPlaceCall lessPrimitive) unsorted).1 =
      .ok (.vector ⟨0⟩) := by decide +kernel
  have herror : ((full .standard).machine.perform 3 (sortInPlaceCall sortPrimitive) unsorted).1 =
      .error (.error (.type "sort needs a list or vector, but got 2")) := by decide +kernel
  obtain ⟨id, less, u, ⟨heq, rfl⟩, hid, hsorts⟩ :=
    (hwhole lessPrimitive).2 rfl _ _ (Prod.ext hvalue rfl)
  cases hid
  have hleft := ((hwhole sortPrimitive).1 _ _ (Prod.ext herror rfl)).1
  exact ⟨_, _, _, Prod.ext hvalue rfl, hsorts.perm, Prod.ext herror rfl, hleft⟩

end Interpreter

end HostedLisp
