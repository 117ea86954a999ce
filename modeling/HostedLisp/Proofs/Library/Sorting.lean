import HostedLisp.Proofs.Library.StableSort
import HostedLisp.Proofs.Library.Views
import HostedLisp.Proofs.Machine.Calls
import HostedLisp.Proofs.Machine.Development
import HostedLisp.Proofs.Machine.Limit
import HostedLisp.Proofs.Program.Queries

/-!
# Sorting

The primitives that sort compare elements of a list or a vector as they were at first, and do
nothing else until these are in order. Whatever the comparisons answer, and whatever they do
meanwhile, the result is a rearrangement of the elements; if the answers are those of a strict weak
order, it is the stable one. Main definition: `Sequence.Sorts`. Main statement:
`Machine.sort_stable`.
-/

namespace HostedLisp

variable {α : Type}

namespace Sequence

open Program

variable {less : Value} {frame : FrameId} {lt : Value → Value → Bool}

/-- A comparison of two of the items. -/
def Compares (less : Value) (frame : FrameId) (items : List Value) (q : Request) : Prop :=
  ∃ x ∈ items, ∃ y ∈ items, q = .apply less [x, y] frame

/-- What the answers of a comparison are if it is an order. -/
def Agrees (lt : Value → Value → Bool) (less : Value) (frame : FrameId) (q : Request)
    (v : Value) : Prop :=
  ∀ x y, q = .apply less [x, y] frame → v.isTruthy = lt x y

/-! ### Programs that sort -/

lemma Compares.mono {items all : List Value} {q : Request} (h : Compares less frame items q)
    (hall : items ⊆ all) : Compares less frame all q := by
  obtain ⟨x, hx, y, hy, rfl⟩ := h
  exact ⟨x, hall hx, y, hall hy, rfl⟩

/-- Merging compares items of both lists and yields all of them. -/
lemma merge_queries {all before left right : List Value} (hl : left ⊆ all) (hr : right ⊆ all) :
    (merge less frame before left right).Queries (Compares less frame all) (fun _ _ => True)
      fun items => items.Perm (before ++ left ++ right) := by
  fun_induction merge less frame before left right with
  | case1 before right =>
    rw [List.append_nil]
    exact before.reverse_perm.append_right right
  | case2 before left =>
    rw [List.append_nil]
    exact before.reverse_perm.append_right left
  | case3 before l left r right ih1 ih2 =>
    obtain ⟨hhead, hl'⟩ := List.cons_subset.1 hl
    obtain ⟨hhead', hr'⟩ := List.cons_subset.1 hr
    refine Queries.bind ⟨⟨r, hhead', l, hhead, rfl⟩, fun verdict _ => ?_⟩
    change (if verdict.isTruthy then _ else _ : Program (List Value)).Queries _ _ _
    split
    · refine (ih1 hl hr').mono (fun _ h => h) fun items hitems => hitems.trans ?_
      exact List.perm_middle.symm
    · refine (ih2 hl' hr).mono (fun _ h => h) fun items hitems => hitems.trans ?_
      exact List.perm_middle.symm.append_right (r :: right)

/-- Sorting compares the items and yields a rearrangement of them. -/
lemma mergeSort_queries (items : List Value) :
    (mergeSort less frame items).Queries (Compares less frame items) (fun _ _ => True)
      fun sorted => sorted.Perm items := by
  fun_induction mergeSort less frame items with
  | case1 => exact .refl _
  | case2 items _ ihl ihr =>
    have htake := List.take_subset (items.length / 2) items
    have hdrop := List.drop_subset (items.length / 2) items
    refine Queries.bind (ihl.mono (fun _ hq => hq.mono htake) fun left hleft => ?_)
    refine Queries.bind (ihr.mono (fun _ hq => hq.mono hdrop) fun right hright => ?_)
    have hl := List.Subset.trans hleft.subset htake
    have hr := List.Subset.trans hright.subset hdrop
    refine (merge_queries hl hr).mono (fun _ h => h) fun sorted hsorted => hsorted.trans ?_
    have hhalves := hleft.append hright
    rwa [List.take_append_drop] at hhalves

/-- With the answers of an order, merging takes an item of the right list only if it is less. -/
lemma merge_merged (before left right : List Value) :
    (merge less frame before left right).Queries (fun _ => True) (Agrees lt less frame)
      fun items => items = before.reverse ++ merged lt left right := by
  fun_induction merge less frame before left right with
  | case1 before right => exact congrArg _ (List.nil_merge right).symm
  | case2 before left => exact congrArg _ (List.merge_right left).symm
  | case3 before l left r right ih1 ih2 =>
    refine Queries.bind ⟨trivial, fun verdict hverdict => ?_⟩
    change (if verdict.isTruthy then _ else _ : Program (List Value)).Queries _ _ _
    rw [merged, List.cons_merge_cons, ← hverdict r l rfl]
    cases verdict.isTruthy with
    | true => exact ih1.mono (fun _ h => h) fun items hitems => by simpa using hitems
    | false => exact ih2.mono (fun _ h => h) fun items hitems => by simpa using hitems

/-- With the answers of an order, the items are arranged by it. -/
lemma mergeSort_arranged (items : List Value) :
    (mergeSort less frame items).Queries (fun _ => True) (Agrees lt less frame)
      fun sorted => sorted = arranged lt items := by
  fun_induction mergeSort less frame items with
  | case1 items hone =>
    change items = arranged lt items
    rw [arranged, if_pos hone]
  | case2 items hmore ihl ihr =>
    refine Queries.bind (ihl.mono (fun _ h => h) fun left hleft => ?_)
    refine Queries.bind (ihr.mono (fun _ h => h) fun right hright => ?_)
    refine (merge_merged [] left right).mono (fun _ h => h) fun sorted hsorted => ?_
    rw [arranged, if_neg hmore, hsorted, hleft, hright]
    rfl

/-! ### Runs of sorting -/

/-- Some items are put in order: none is lost or made, and if all comparisons were answered as by a
strict weak order, it is the order of the result. -/
structure Sorts (compared : Value → Value → Bool → Prop) (items sorted : List Value) : Prop where
  perm : sorted.Perm items
  inOrder : ∀ lt, StrictWeakOrder lt items →
    (∀ x ∈ items, ∀ y ∈ items, ∀ b, compared x y b → b = lt x y) → InOrder lt items sorted

end Sequence

/-- While a plan is carried out, two values are compared, and the answer counts as `verdict`. -/
def Plan.Compared (answer : Answer) (less : Value) (frame : FrameId) (p : Plan α) (x y : Value)
    (verdict : Bool) : Prop :=
  ∃ u v w, p.Asks answer (.apply less [x, y] frame) u ∧
    answer (.apply less [x, y] frame) u = (.ok v, w) ∧ v.isTruthy = verdict

namespace Sequence

open Program

variable {less : Value} {frame : FrameId} {answer : Answer} {s : State} {items : List Value}

/-- If all comparisons are answered, the items are sorted, or the error is that of a comparison. -/
lemma mergeSort_run (hanswer : ∀ q u, ((mergeSort less frame items).run s).Asks answer q u →
      ∃ a t, answer q u = .answered a t) :
    (∃ sorted t, ((mergeSort less frame items).run s).execute answer = (.ok sorted, t) ∧
      Sorts (((mergeSort less frame items).run s).Compared answer less frame) items sorted) ∨
    ∃ e t q u, ((mergeSort less frame items).run s).execute answer = (.error (.error e), t) ∧
      Compares less frame items q ∧ ((mergeSort less frame items).run s).Asks answer q u ∧
      answer q u = (.error (.error e), t) := by
  have hgiven (q : Request) (u : State)
      (hq : ((mergeSort less frame items).run s).Asks answer q u) :
      ∃ a t, answer q u = .answered a t ∧ ∀ v, a = .ok v → True := by
    obtain ⟨a, t, ha⟩ := hanswer q u hq
    exact ⟨a, t, ha, fun _ _ => trivial⟩
  refine ((mergeSort_queries items).run hgiven).imp ?_ id
  rintro ⟨sorted, t, hsorted, hperm⟩
  refine ⟨sorted, t, hsorted, hperm, fun lt hlt hagrees => ?_⟩
  have hagree (q : Request) (u : State)
      (hq : ((mergeSort less frame items).run s).Asks answer q u) :
      ∃ a t, answer q u = .answered a t ∧ ∀ v, a = .ok v → Agrees lt less frame q v := by
    obtain ⟨a, t, ha⟩ := hanswer q u hq
    refine ⟨a, t, ha, ?_⟩
    rintro v rfl x y rfl
    obtain ⟨x', hx, y', hy, heq⟩ := (mergeSort_queries items).may_of_asks hq
    cases heq
    exact hagrees x hx y hy _ ⟨u, v, t, hq, ha, rfl⟩
  have hordered := (mergeSort_arranged items).run hagree
  rw [hsorted] at hordered
  obtain ⟨sorted', t', heq, rfl⟩ | ⟨e, t', q, u, heq, -⟩ := hordered
  · cases heq
    exact arranged_inOrder hlt
  · cases heq

lemma Sorts.mono {compared compared' : Value → Value → Bool → Prop} {sorted : List Value}
    (h : Sorts compared items sorted) (hmono : ∀ x y b, compared x y b → compared' x y b) :
    Sorts compared' items sorted :=
  ⟨h.perm, fun lt hlt hagrees => h.inOrder lt hlt fun x hx y hy b hb =>
    hagrees x hx y hy b (hmono x y b hb)⟩

/-! ### Primitives that sort -/

/-- How a primitive that sorts goes on after it has looked at its arguments. -/
structure SortsBy (n : Native) (value less : Value) (frame : FrameId) (s : State)
    (items : List Value) (finish : List Value → Program Value) : Prop where
  accepts : n.arity.accepts 2 = true
  kind : n.kind = .function
  run : (n.body [value, less] frame).run s = ((mergeSort less frame items).bind finish).run s
  finishes : ∀ sorted t, sorted.length = items.length →
    (∀ id, value = .vector id → (t.heap.vector id).size = items.length) →
    ∃ w u, (finish sorted).run t = .stop (.ok w) u ∧ u.heap.elements? w = some sorted ∧
      ((∃ id, w = .vector id) ↔ ∃ id, value = .vector id) ∧
      (n.name = "vector-sort!" → w = value)

lemma sorting_sortsBy {name : String} {view : View} {value : Value} {kind : Kind}
    (hname : name ≠ "vector-sort!") (hview : (view name value).run s = .stop (.ok ⟨kind, items⟩) s)
    (hkind : kind = .vector ↔ ∃ id, value = .vector id) (hless : less.isFunction) :
    SortsBy (sorting name view) value less frame s items (build kind) where
  accepts := rfl
  kind := rfl
  run := by
    change ((view name value).bind fun sequence => (expectFunction name less).bind fun _ =>
      (mergeSort less frame sequence.items).bind fun sorted => build sequence.kind sorted).run s = _
    rw [run_bind, Run.bind_apply, hview, Plan.bind_stop_ok, expectFunction, if_pos hless]
    rfl
  finishes sorted t _ _ := by
    obtain ⟨w, u, hw, helements, hvector⟩ := build_run kind sorted t
    exact ⟨w, u, hw, helements, hvector.trans hkind, fun h => absurd h hname⟩

lemma sortInPlace_sortsBy (id : VectorId) (hless : less.isFunction) :
    SortsBy (.function "vector-sort!" (.exactly 2) Vectors.sortInPlace) (.vector id) less frame s
      (s.heap.vector id).toList fun sorted =>
        (perform (.setSlots id 0 sorted)).bind fun _ => done (.vector id) where
  accepts := rfl
  kind := rfl
  run := by
    change ((vectorItems "vector-sort!" (.vector id)).bind fun items =>
      (expectFunction "vector-sort!" less).bind fun _ => (mergeSort less frame items).bind _).run s
        = _
    rw [run_bind, Run.bind_apply, expectFunction, if_pos hless]
    rfl
  finishes sorted t hlength hsize := by
    refine ⟨.vector id, _, rfl, ?_, Iff.rfl, fun _ => rfl⟩
    exact congrArg some (Heap.toList_setSlots_all (hlength.trans (hsize id rfl).symm))

lemma sortNatives_eq : standardNatives.filter (fun n => n.name ∈ sortNames) =
    [sorting "sort" ofAny, sorting "vector-sort" ofVector,
      .function "vector-sort!" (.exactly 2) Vectors.sortInPlace] := rfl

/-- Every primitive that sorts looks at the elements and sorts them. -/
lemma exists_sortsBy {n : Native} (hn : n ∈ standardNatives) (hname : n.name ∈ sortNames)
    {value : Value} (hvalue : s.heap.elements? value = some items)
    (hkind : n.name = "sort" ∨ ∃ id, value = .vector id) (hless : less.isFunction) :
    ∃ finish, SortsBy n value less frame s items finish := by
  have hmem : n ∈ standardNatives.filter (fun n => n.name ∈ sortNames) :=
    List.mem_filter.2 ⟨hn, by simpa using hname⟩
  rw [sortNatives_eq] at hmem
  simp only [List.mem_cons, List.not_mem_nil, or_false] at hmem
  obtain rfl | rfl | rfl := hmem
  · obtain ⟨kind, hview, hkind⟩ := ofAny_run "sort" hvalue
    exact ⟨_, sorting_sortsBy (by decide) hview hkind hless⟩
  · obtain hsort | ⟨id, rfl⟩ := hkind
    · exact absurd hsort (by decide)
    · cases hvalue
      exact ⟨_, sorting_sortsBy (by decide) (ofVector_run id) (by simp) hless⟩
  · obtain hsort | ⟨id, rfl⟩ := hkind
    · exact absurd hsort (by decide)
    · cases hvalue
      exact ⟨_, sortInPlace_sortsBy id hless⟩

end Sequence

namespace Machine

open Program Sequence

variable {m : Machine} {p : Primitive} {n : Native} {s : State} {value less : Value}
  {items : List Value} {frame : FrameId}

/-- The run of a program that goes on from a state leads to a heap that comes later. -/
lemma program_develops (m : Machine) (fuel : Nat) (q : Program α) (s : State) :
    s.heap.Develops ((q.run s).execute (m.perform fuel)).2.heap := by
  have hserve (r : Request) : (m.serve r).Develops Heap.Develops := serve_develops r
  have hplan : q.run.Develops Heap.Develops := develops_compositional.program q
  exact ((hplan s).between (trail_between hserve fuel)).ends

/-- A vector has as many slots after its elements were sorted as before. -/
lemma size_after_sorting {id : VectorId} {sorted : List Value} {t : State} {fuel : Nat}
    (h : ((mergeSort less frame (s.heap.vector id).toList).run s).execute (m.perform fuel) =
      (.ok sorted, t)) : (t.heap.vector id).size = (s.heap.vector id).size := by
  obtain hid | hid := Nat.lt_or_ge id.index s.heap.vectors.size
  · have hdevelops := program_develops m fuel (mergeSort less frame (s.heap.vector id).toList) s
    rw [h] at hdevelops
    exact hdevelops.size_vector hid
  · -- nothing is there to be compared, so nothing happens
    rw [Heap.vector_of_le hid, mergeSort] at h
    cases h
    rfl

/-- A call of a primitive that sorts is served by sorting the elements. -/
lemma serve_sorting {finish : List Value → Program Value} (hp : m.Carries p n)
    (hn : SortsBy n value less frame s items finish) :
    m.serve (.apply (.primitive p) [value, less] frame) s =
      ((mergeSort less frame items).run s).bind fun sorted => (finish sorted).run := by
  have hinvoked : n.invoked [value, less] frame = n.body [value, less] frame := if_pos hn.accepts
  rw [serve_call hp (.apply _), Native.called, hn.kind, hinvoked, hn.run, run_bind]
  rfl

/-- Sorting is a stable permutation. A list or a vector is sorted by a function whose calls return:
then either one of the comparisons fails, and its error is the outcome, or the result holds the
elements that there were at first, each as often as it did, whatever the comparisons answered and
whatever they did. If their answers are those of a strict weak order of the elements, these are in
order, and those that are equivalent stand as they stood. -/
theorem sort_stable (hn : n ∈ standardNatives) (hname : n.name ∈ sortNames) (hp : m.Carries p n)
    (hvalue : s.heap.elements? value = some items)
    (hkind : n.name = "sort" ∨ ∃ id, value = .vector id) (hless : less.isFunction)
    (hreturns : ∀ x ∈ items, ∀ y ∈ items, ∀ u,
      m.Asks (.apply (.primitive p) [value, less] frame, s) (.apply less [x, y] frame, u) →
        ∃ fuel a t, m.perform fuel (.apply less [x, y] frame) u = .answered a t) :
    ∃ fuel,
      (∃ e t, m.perform (fuel + 1) (.apply (.primitive p) [value, less] frame) s =
          (.error (.error e), t) ∧
        ∃ x ∈ items, ∃ y ∈ items, ∃ u,
          (m.serve (.apply (.primitive p) [value, less] frame) s).Asks (m.perform fuel)
            (.apply less [x, y] frame) u ∧
          m.perform fuel (.apply less [x, y] frame) u = (.error (.error e), t)) ∨
      ∃ w t sorted, m.perform (fuel + 1) (.apply (.primitive p) [value, less] frame) s =
          (.ok w, t) ∧
        t.heap.elements? w = some sorted ∧
        ((∃ id, w = .vector id) ↔ ∃ id, value = .vector id) ∧
        (n.name = "vector-sort!" → w = value) ∧
        Sorts ((m.serve (.apply (.primitive p) [value, less] frame) s).Compared (m.perform fuel)
          less frame) items sorted := by
  obtain ⟨finish, hfinish⟩ : ∃ finish, SortsBy n value less frame s items finish :=
    exists_sortsBy hn hname hvalue hkind hless
  have hserve := serve_sorting hp hfinish
  have hcompares {fuel : Nat} {q : Request} {u : State}
      (hq : ((mergeSort less frame items).run s).Asks (m.perform fuel) q u) :
      Compares less frame items q := (mergeSort_queries items).may_of_asks hq
  obtain ⟨fuel, hfuel⟩ := exists_fuel (m := m) (p := mergeSort less frame items) (s := s) <| by
    rintro q u ⟨fuel, hq⟩
    obtain ⟨x, hx, y, hy, rfl⟩ := hcompares hq
    refine hreturns x hx y hy u ⟨fuel, ?_⟩
    dsimp only
    rw [hserve]
    exact hq.bind_left
  refine ⟨fuel, ?_⟩
  rw [perform_succ, hserve]
  refine (mergeSort_run hfuel).symm.imp ?_ ?_
  · rintro ⟨e, t, q, u, herror, ⟨x, hx, y, hy, rfl⟩, hq, hanswer⟩
    refine ⟨e, t, ?_, x, hx, y, hy, u, hq.bind_left, hanswer⟩
    rw [Plan.execute_bind_eq, herror]
  · rintro ⟨sorted, t, hsorted, hsorts⟩
    obtain ⟨w, u, hw, helements, hvector, hsame⟩ :=
      hfinish.finishes sorted t hsorts.perm.length_eq <| by
        rintro id rfl
        cases hvalue
        rw [size_after_sorting hsorted, Array.length_toList]
    refine ⟨w, u, sorted, ?_, helements, hvector, hsame, hsorts.mono ?_⟩
    · rw [Plan.execute_bind hsorted, hw]
      rfl
    · rintro x y b ⟨z, v, z', hq, hv, hb⟩
      exact ⟨z, v, z', hq.bind_left, hv, hb⟩

end Machine

namespace Interpreter

open Sequence

/-- The primitive that compares numbers. -/
def lessPrimitive : Primitive := ⟨25, "<", .atLeast 2, .function⟩

/-- Integers are compared exactly, and the comparison does nothing else. -/
lemma perform_less (a b : Int64) (frame : FrameId) (fuel : Nat) (s : State) :
    (full .standard).machine.perform (fuel + 1)
      (.apply (.primitive lessPrimitive) [.int a, .int b] frame) s =
        (.ok (.bool (compare a.toInt b.toInt == .lt)), s) := by
  have hcarries : (full .standard).machine.Carries lessPrimitive
      (Arithmetic.comparison "<" (· == .lt)) := ⟨rfl, rfl⟩
  rw [Machine.perform_succ, Machine.serve_call hcarries (.apply _)]
  change (Except.ok (Value.bool ((compare a.toInt b.toInt == .lt) && true)), s) = _
  rw [Bool.and_true]

/-- The standard interpreter, whose programs have made a vector. -/
def unsorted : State :=
  ((full .standard).changeHeap fun h => (h.newVector [.int 3, .int 1, .int 2]).2).state

/-- The order of integers, as a comparison of values. -/
def intLess : Value → Value → Bool
  | .int a, .int b => compare a.toInt b.toInt == .lt
  | _, _ => false

/-- Three integers are sorted by the primitive that compares numbers. -/
theorem sort_stable_integers : ∃ fuel w t sorted,
    (full .standard).machine.perform fuel
      (.apply (.primitive sortPrimitive) [.vector ⟨0⟩, .primitive lessPrimitive] .global) unsorted =
        (.ok w, t) ∧ t.heap.elements? w = some sorted ∧
      sorted.Perm [.int 3, .int 1, .int 2] ∧ InOrder intLess [.int 3, .int 1, .int 2] sorted := by
  have hn : sorting "sort" ofAny ∈ standardNatives := List.mem_of_getElem? standardNatives_sort
  have hcarries : (full .standard).machine.Carries sortPrimitive (sorting "sort" ofAny) :=
    ⟨rfl, rfl⟩
  have hvalue : unsorted.heap.elements? (.vector ⟨0⟩) = some [.int 3, .int 1, .int 2] := rfl
  have hint : ∀ x ∈ [Value.int 3, .int 1, .int 2], ∃ a, x = .int a := by
    simp only [List.forall_mem_cons]
    exact ⟨⟨3, rfl⟩, ⟨1, rfl⟩, ⟨2, rfl⟩, nofun⟩
  have hcompared {x y : Value} (hx : x ∈ [Value.int 3, .int 1, .int 2])
      (hy : y ∈ [Value.int 3, .int 1, .int 2]) (fuel : Nat) (u : State) :
      (full .standard).machine.perform (fuel + 1)
        (.apply (.primitive lessPrimitive) [x, y] .global) u = (.ok (.bool (intLess x y)), u) := by
    obtain ⟨a, rfl⟩ := hint x hx
    obtain ⟨b, rfl⟩ := hint y hy
    exact perform_less a b .global fuel u
  have hreturns (x : Value) (hx : x ∈ [Value.int 3, .int 1, .int 2]) (y : Value)
      (hy : y ∈ [Value.int 3, .int 1, .int 2]) (u : State)
      (_ : (full .standard).machine.Asks (.apply (.primitive sortPrimitive)
        [.vector ⟨0⟩, .primitive lessPrimitive] .global, unsorted)
        (.apply (.primitive lessPrimitive) [x, y] .global, u)) :
      ∃ fuel a t, (full .standard).machine.perform fuel
        (.apply (.primitive lessPrimitive) [x, y] .global) u = .answered a t :=
    ⟨1, .ok _, u, hcompared hx hy 0 u⟩
  obtain ⟨fuel, ⟨e, t, -, x, hx, y, hy, u, -, herror⟩ |
      ⟨w, t, sorted, hw, helements, -, -, hsorts⟩⟩ :=
    Machine.sort_stable hn (by decide) hcarries hvalue (.inl rfl) rfl hreturns
  · cases fuel with
    | zero => cases herror
    | succ fuel =>
      rw [hcompared hx hy fuel u] at herror
      cases herror
  · refine ⟨fuel + 1, w, t, sorted, hw, helements, hsorts.perm, hsorts.inOrder intLess ?_ ?_⟩
    · exact ⟨by decide, by decide, by decide⟩
    · rintro x hx y hy b ⟨u, v, z, -, hv, rfl⟩
      cases fuel with
      | zero => cases hv
      | succ fuel =>
        rw [hcompared hx hy fuel u] at hv
        cases hv
        cases intLess x y <;> rfl

end Interpreter

end HostedLisp
