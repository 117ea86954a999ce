import HostedLisp.Library.Arithmetic
import HostedLisp.Proofs.Library.Sequences

/-!
# Libraries of functions within a vocabulary

Every primitive on numbers, lists and vectors stays within the vocabulary of its arguments. Those
that call back ask for less than they were asked for, or they sort: `Arithmetic.library_speaks`,
`Lists.library_speaks`, `Vectors.library_speaks`.
-/

namespace HostedLisp

variable {V : Vocabulary} {may : Request → Prop}

open Program Native Vocabulary

/-! ### Numbers -/

namespace Arithmetic

/-- All errors of a result are worded as messages may be. -/
def Worded {α : Type} (V : Vocabulary) (result : Except Error α) : Prop :=
  ∀ e, result = .error e → e.In V

lemma Worded.ok {α : Type} (a : α) : Worded V (.ok a) := nofun

lemma Worded.error {α : Type} {e : Error} (he : e.In V) :
    Worded V (.error e : Except Error α) :=
  fun _ heq => Except.error.inj heq ▸ he

lemma Worded.map {α β : Type} {result : Except Error α} {f : α → β} (h : Worded V result) :
    Worded V (result.map f) := by
  cases result with
  | ok a => exact .ok _
  | error e => exact .error (h e rfl)

lemma Worded.bind {α β : Type} {result : Except Error α} {f : α → Except Error β}
    (h : Worded V result) (hf : ∀ a, Worded V (f a)) : Worded V (result.bind f) := by
  cases result with
  | ok a => exact hf a
  | error e => exact .error (h e rfl)

lemma worded_remainder (a b : Int64) : Worded V (remainder a b) := by
  rw [remainder]
  split
  · exact .error trivial
  · exact .ok _

lemma speaks_give {result : Except Error Number} (h : Worded V result) :
    (give result).Speaks V may (Value.In V) := by
  rw [give, speaks_bind]
  refine speaks_ofExcept (fun n _ => ?_) h
  cases n <;> simp [Number.toValue]

lemma speaks_giveInt {result : Except Error Int64} (h : Worded V result) :
    (giveInt result).Speaks V may (Value.In V) := by
  rw [giveInt, speaks_bind]
  exact speaks_ofExcept (fun n _ => Value.in_int n) h

/-- A remainder moved to the sign of the divisor is still a word, so there is no fault. -/
lemma speaks_modulo {a b : Int64} : (modulo a b).Speaks V may (Value.In V) := by
  rw [modulo]
  split
  · next e heq => exact worded_remainder a b e heq
  · next r _ =>
    split
    · next h =>
      have hr := r.le_toInt
      have hr' := r.toInt_lt
      have hb := b.le_toInt
      have hb' := b.toInt_lt
      have hsign : decide (r.toInt < 0) ≠ decide (b.toInt < 0) := by
        simpa [Int64.lt_iff_toInt_lt] using h.2
      have hword : Numeral.inWord (r.toInt + b.toInt) = true := by
        rw [Numeral.inWord_iff]
        by_cases hneg : b.toInt < 0
        · have hpos : ¬r.toInt < 0 := by simpa [hneg] using hsign
          omega
        · have hpos : r.toInt < 0 := by simpa [hneg] using hsign
          omega
      rw [Numeral.word?, if_pos hword]
      exact Value.in_int _
    · exact Value.in_int r

variable [V.Coherent]

lemma worded_exactly {operation : String} (h : V.text operation) (n : Int) :
    Worded V (exactly operation n) := by
  rw [exactly]
  split
  · exact .ok _
  · exact .error (Coherent.append (Coherent.line (by decide)) h)

lemma worded_combine {operation : String} (h : V.text operation) (onInts : Int → Int → Int)
    (onFloats : Float → Float → Float) (a b : Number) :
    Worded V (combine operation onInts onFloats a b) := by
  unfold combine
  split
  · exact (worded_exactly h _).map
  · exact .ok _

lemma worded_addFrom (sum : Number) (ns : List Number) : Worded V (addFrom sum ns) := by
  induction ns generalizing sum with
  | nil => exact .ok sum
  | cons n rest ih => exact (worded_combine (Coherent.line (by decide)) _ _ _ _).bind ih

lemma worded_mulFrom (product : Number) (ns : List Number) : Worded V (mulFrom product ns) := by
  induction ns generalizing product with
  | nil => exact .ok product
  | cons n rest ih => exact (worded_combine (Coherent.line (by decide)) _ _ _ _).bind ih

lemma worded_subFrom (difference : Number) (ns : List Number) :
    Worded V (subFrom difference ns) := by
  induction ns generalizing difference with
  | nil => exact .ok difference
  | cons n rest ih => exact (worded_combine (Coherent.line (by decide)) _ _ _ _).bind ih

lemma worded_subtract (first : Number) (rest : List Number) :
    Worded V (subtract first rest) := by
  rw [subtract]
  split
  · cases first with
    | int n => exact (worded_exactly (Coherent.line (by decide)) _).map
    | float x => exact .ok _
  · exact worded_subFrom first rest

lemma worded_divFrom (quotient : Number) (ns : List Number) : Worded V (divFrom quotient ns) := by
  induction ns generalizing quotient with
  | nil => exact .ok quotient
  | cons n rest ih =>
    rw [divFrom]
    split
    · exact .error trivial
    · exact (worded_combine (Coherent.line (by decide)) _ _ _ _).bind ih

lemma worded_quotient (a b : Int64) : Worded V (quotient a b) := by
  rw [quotient]
  split
  · exact .error trivial
  · exact worded_exactly (Coherent.line (by decide)) _

lemma worded_absolute (n : Number) : Worded V (absolute n) := by
  cases n with
  | int n => exact (worded_exactly (Coherent.line (by decide)) _).map
  | float x => exact .ok _

lemma comparison_speaks (name : String) (relation : Ordering → Bool) :
    (comparison name relation).Speaks V :=
  speaks_variadic fun _ _ _ _ => Value.in_bool _

theorem library_speaks : ∀ n ∈ library, n.Speaks V := by
  simp only [library, List.forall_mem_cons]
  refine ⟨?_, ?_, ?_, ?_, ?_, ?_, ?_, ?_, ?_, ?_, comparison_speaks _ _, comparison_speaks _ _,
    comparison_speaks _ _, comparison_speaks _ _, comparison_speaks _ _, ?_, ?_, ?_, ?_, ?_, ?_, ?_,
    nofun⟩
  · exact speaks_variadic fun _ _ => speaks_give (worded_addFrom _ _)
  · exact speaks_variadic fun _ _ => speaks_give (worded_mulFrom _ _)
  · exact speaks_variadic fun _ _ _ _ => speaks_give (worded_subtract _ _)
  · exact speaks_variadic fun _ _ _ _ => speaks_give (worded_divFrom _ _)
  · exact speaks_fixed fun _ _ _ _ => speaks_giveInt (worded_quotient _ _)
  · exact speaks_fixed fun _ _ _ _ => speaks_giveInt (worded_remainder _ _)
  · exact speaks_fixed fun _ _ _ _ => speaks_modulo
  · exact speaks_fixed fun _ _ => speaks_give (worded_absolute _)
  · exact speaks_variadic fun _ _ _ _ => speaks_give (.ok _)
  · exact speaks_variadic fun _ _ _ _ => speaks_give (.ok _)
  · exact speaks_fixed fun _ _ _ _ => trivial
  all_goals exact speaks_fixed fun _ _ => trivial

end Arithmetic

/-! ### Pairs and lists -/

namespace Lists

open Sequence

variable [V.Coherent]

lemma part_speaks {name : String} {select : Cell → Value} (hname : V.text name)
    (h : ∀ (heap : Heap) id, heap.In V → (select (heap.cell id)).In V) :
    (part name select).Speaks V := by
  refine speaks_fixed fun value hv => ?_
  cases value with
  | pair id => exact fun heap hheap => h heap id hheap
  | nil => exact trivial
  | _ => exact speaks_wrongType (Coherent.append hname (Coherent.line (by decide))) hv

lemma update_speaks {name : String} {change : CellId → Value → Change} (hname : V.text name)
    (h : ∀ id v, v.In V → (change id v).In V) : (update name change).Speaks V := by
  refine speaks_fixed fun target ht value hv => ?_
  cases target with
  | pair id => exact ⟨h id value hv, fun _ _ => hv⟩
  | _ => exact speaks_wrongType (Coherent.append hname (Coherent.line (by decide))) ht

lemma speaks_length {value : Value} (hv : value.In V) :
    (length value).Speaks V may (Value.In V) := by
  rw [length, speaks_bind]
  refine (ofAny_speaks may "length" value (Coherent.line (by decide)) hv).imp fun s _ => ?_
  split
  · exact Value.in_int _
  · exact trivial

lemma speaks_collect {before values : List Value} {post : List Value × Value → Prop}
    (hb : AllIn V before) (hv : AllIn V values)
    (h : ∀ items tail, AllIn V items → tail.In V → post (items, tail)) :
    (collect before values).Speaks V may post := by
  fun_induction collect before values with
  | case1 before => exact h before .nil hb Value.in_nil
  | case2 before tail => exact h before tail hb (AllIn.cons_iff.1 hv).1
  | case3 before value rest hne ih =>
    rw [speaks_look]
    intro heap hheap
    split
    · next items heq =>
      have hitems := hheap.listItems? heq
      exact ih items (AllIn.append_iff.2 ⟨hb, hitems⟩) (AllIn.cons_iff.1 hv).2
    · exact speaks_wrongType (Coherent.line (by decide)) (AllIn.cons_iff.1 hv).1

lemma speaks_append {values : List Value} (hv : AllIn V values) :
    (append values).Speaks V may (Value.In V) := by
  rw [append, speaks_bind]
  exact speaks_collect AllIn.nil hv fun items tail hi ht => speaks_chain hi ht fun _ h => h

lemma speaks_nth {seq : Value} {index : Int64} (hs : seq.In V) :
    (nth seq index).Speaks V may (Value.In V) := by
  rw [nth, speaks_bind]
  refine (ofAny_speaks may "nth" seq (Coherent.line (by decide)) hs).imp fun s hi => ?_
  exact speaks_elementAt hi

lemma position_speaks {name : String} {index : Nat} : (position name index).Speaks V := by
  refine speaks_fixed fun seq hs => ?_
  refine speaks_bind.2 ?_
  refine (ofAny_speaks _ "nth" seq (Coherent.line (by decide)) hs).imp fun s hi => ?_
  split
  · next value heq => exact hi value (List.mem_of_getElem? heq)
  · exact trivial

lemma predicate_speaks {name : String} {holds : Heap → Value → Bool} :
    (predicate name holds).Speaks V :=
  speaks_fixed fun _ _ _ _ => Value.in_bool _

lemma relation_speaks {name : String} {holds : Heap → Value → Value → Bool} :
    (relation name holds).Speaks V :=
  speaks_fixed fun _ _ _ _ _ _ => Value.in_bool _

theorem library_speaks : ∀ n ∈ library, n.Speaks V := by
  have hname {name : String} (h : '\n' ∉ name.toList) : V.text name := Coherent.line h
  simp only [library, List.forall_mem_cons]
  refine ⟨part_speaks (hname (by decide)) fun _ id h => h.head id,
    part_speaks (hname (by decide)) fun _ id h => h.tail id, ?_, ?_,
    update_speaks (hname (by decide)) fun _ _ hv => hv,
    update_speaks (hname (by decide)) fun _ _ hv => hv, ?_, ?_, ?_, ?_,
    position_speaks, position_speaks, position_speaks,
    predicate_speaks, predicate_speaks, predicate_speaks, predicate_speaks, predicate_speaks,
    predicate_speaks, predicate_speaks, predicate_speaks, predicate_speaks, predicate_speaks,
    relation_speaks, relation_speaks,
    mapping_speaks ofAny_speaks (hname (by decide)),
    iteration_speaks ofAny_speaks (hname (by decide)),
    selection_speaks ofAny_speaks (hname (by decide)),
    selection_speaks ofAny_speaks (hname (by decide)),
    reduction_speaks ofAny_speaks (hname (by decide)),
    search_speaks ofAny_speaks (hname (by decide)),
    sorting_speaks ofAny_speaks (hname (by decide)) (by decide), nofun⟩
  · refine speaks_fixed fun head hh tail ht => ?_
    exact speaks_chain (AllIn.cons_iff.2 ⟨hh, AllIn.nil⟩) ht fun _ h => h
  · exact speaks_variadic fun values hv => speaks_list hv fun _ h => h
  · exact speaks_fixed fun value hv => speaks_length hv
  · exact speaks_variadic fun values hv => speaks_append hv
  · refine speaks_fixed fun value hv => speaks_bind.2 (speaks_listItems hv fun items hi => ?_)
    exact speaks_list (AllIn.reverse_iff.2 hi) fun _ h => h
  · exact speaks_fixed fun seq hs index _ => speaks_nth hs

end Lists

/-! ### Vectors -/

namespace Vectors

open Sequence

lemma speaks_expectSize {name : String} {size : Int64} {post : Nat → Prop} (h : ∀ n, post n) :
    (expectSize name size).Speaks V may post := by
  rw [expectSize]
  split
  · exact trivial
  · exact h _

lemma speaks_slotIndex {name : String} {index : Int64} {length : Nat} {post : Nat → Prop}
    (h : ∀ n, post n) : (slotIndex name index length).Speaks V may post := by
  rw [slotIndex]
  split
  · exact h _
  · exact trivial

lemma speaks_boundary {name : String} {index : Int64} {low high : Nat} {post : Nat → Prop}
    (h : ∀ n, post n) : (boundary name index low high).Speaks V may post := by
  rw [boundary]
  split
  · exact h _
  · exact trivial

lemma speaks_giveCount {n : Nat} : (giveCount n).Speaks V may (Value.In V) := by
  rw [giveCount]
  split
  · exact Value.in_int _
  · exact trivial

lemma speaks_make {size : Int64} {fill : List Value} (hf : AllIn V fill) :
    (make size fill).Speaks V may (Value.In V) := by
  simp only [make, bind_eq_bind, speaks_bind]
  refine speaks_expectSize fun n => speaks_vector (AllIn.replicate ?_ n) fun _ h => h
  cases fill with
  | nil => exact Value.in_nil
  | cons v rest => exact (AllIn.cons_iff.1 hf).1

variable [V.Coherent]

lemma speaks_expectVector {name : String} {value : Value} {post : VectorId × Nat → Prop}
    (hname : V.text name) (hv : value.In V) (h : ∀ id n, value = .vector id → post (id, n)) :
    (expectVector name value).Speaks V may post := by
  cases value with
  | vector id => exact fun heap _ => h id _ rfl
  | _ => exact speaks_wrongType (Coherent.append hname (Coherent.line (by decide))) hv

lemma speaks_ofList {value : Value} (hv : value.In V) :
    (ofList value).Speaks V may (Value.In V) := by
  rw [ofList, speaks_look]
  intro heap hheap
  split
  · next items heq => exact speaks_vector (hheap.listItems? heq) fun _ h => h
  · exact speaks_wrongType (Coherent.line (by decide)) hv

lemma makeInitialized_speaks {name : String} :
    (Native.function name (.exactly 2) makeInitialized).Speaks V := by
  intro args frame haccepts ha
  match args, haccepts, ha with
  | [size, func], _, ha =>
    simp only [AllIn.cons_iff] at ha
    simp only [makeInitialized, Native.function, bind_eq_bind, speaks_bind]
    refine Param.speaks_convert ha.1 fun size _ => speaks_expectSize fun n => ?_
    have hcall := calls_reach name (Nat.lt_succ_self 1)
    refine speaks_expectFunction (Coherent.line (by decide)) ha.2.1 ?_
    refine speaks_applyEach hcall ha.2.1 AllIn.nil (fun row hrow => ?_) fun items hi => ?_
    · obtain ⟨index, -, rfl⟩ := List.mem_map.1 hrow
      exact ⟨by simp, rfl⟩
    · exact speaks_vector hi fun _ h => h

lemma speaks_grow {value : Value} {size : Int64} (hv : value.In V) :
    (grow value size).Speaks V may (Value.In V) := by
  simp only [grow, bind_eq_bind, speaks_bind]
  refine speaks_vectorItems (Coherent.line (by decide)) hv fun items hi => ?_
  refine speaks_expectSize fun n => ?_
  split
  · exact trivial
  · have hnew : AllIn V (List.replicate (n - items.length) .nil) :=
      AllIn.replicate Value.in_nil _
    exact speaks_vector (AllIn.append_iff.2 ⟨hi, hnew⟩) fun _ h => h

lemma speaks_ref {name : String} {value : Value} {index : Int64} (hname : V.text name)
    (hv : value.In V) : (ref name value index).Speaks V may (Value.In V) := by
  simp only [ref, bind_eq_bind, speaks_bind]
  exact speaks_vectorItems hname hv fun items hi => speaks_elementAt hi

lemma speaks_set {value new : Value} {index : Int64} (hv : value.In V) (hn : new.In V) :
    (set value index new).Speaks V may (Value.In V) := by
  simp only [set, bind_eq_bind, speaks_bind]
  refine speaks_expectVector (Coherent.line (by decide)) hv fun id n _ => ?_
  exact speaks_slotIndex fun slot => ⟨AllIn.cons_iff.2 ⟨hn, AllIn.nil⟩, fun _ _ => hn⟩

lemma position_speaks {name : String} {index : Nat} (hname : V.text name) :
    (position name index).Speaks V :=
  speaks_fixed fun _ hv => speaks_ref hname hv

lemma speaks_slice {name : String} {value : Value} {start finish : Option Int64}
    (hname : V.text name) (hv : value.In V) :
    (slice name value start finish).Speaks V may (Value.In V) := by
  simp only [slice, bind_eq_bind, speaks_bind]
  refine speaks_vectorItems hname hv fun items hi => ?_
  have hslice (from_ to_ : Nat) : AllIn V ((items.take to_).drop from_) :=
    hi.sublist ((List.drop_sublist _ _).trans (List.take_sublist _ _))
  cases start with
  | none =>
    cases finish with
    | none => exact speaks_vector (hslice _ _) fun _ h => h
    | some j =>
      simp only [pure_eq_done, done_bind, speaks_bind]
      exact speaks_boundary fun n => speaks_vector (hslice _ _) fun _ h => h
  | some i =>
    simp only [speaks_bind]
    refine speaks_boundary fun m => ?_
    cases finish with
    | none => exact speaks_vector (hslice _ _) fun _ h => h
    | some j =>
      simp only [speaks_bind]
      exact speaks_boundary fun n => speaks_vector (hslice _ _) fun _ h => h

lemma speaks_fill {value new : Value} (hv : value.In V) (hn : new.In V) :
    (fill value new).Speaks V may (Value.In V) := by
  simp only [fill, bind_eq_bind, speaks_bind]
  refine speaks_expectVector (Coherent.line (by decide)) hv fun id n _ => ?_
  exact ⟨AllIn.replicate hn n, fun _ _ => hv⟩

lemma speaks_fillSlice {value new : Value} {start finish : Int64} (hv : value.In V)
    (hn : new.In V) : (fillSlice value start finish new).Speaks V may (Value.In V) := by
  simp only [fillSlice, bind_eq_bind, speaks_bind]
  refine speaks_expectVector (Coherent.line (by decide)) hv fun id n _ => ?_
  refine speaks_boundary fun i => speaks_boundary fun j => ?_
  exact ⟨AllIn.replicate hn _, fun _ _ => hv⟩

lemma move_speaks {name : String} {descending : Bool} (hname : V.text name) :
    (move name descending).Speaks V := by
  refine speaks_fixed fun source hs start _ finish _ target ht position _ => ?_
  simp only [Function.Always, bind_eq_bind, speaks_bind]
  refine speaks_expectVector hname hs fun sourceId n _ => ?_
  refine speaks_expectVector hname ht fun targetId k _ => ?_
  refine speaks_boundary fun i => speaks_boundary fun j => speaks_boundary fun at_ => ?_
  split
  · exact trivial
  · exact ⟨trivial, fun _ _ => ht⟩

/-- The elements are taken from a vector, so it is a vector that they are put back into. -/
lemma sortInPlace_speaks {name : String} (hsort : name ∈ sortNames) :
    (Native.function name (.exactly 2) sortInPlace).Speaks V := by
  intro args frame haccepts ha
  match args, haccepts, ha with
  | [value, less], _, ha =>
    have hname : V.text "vector-sort!" := Coherent.line (by decide)
    simp only [AllIn.cons_iff] at ha
    simp only [sortInPlace, Native.function, bind_eq_bind, speaks_bind]
    cases value with
    | vector id =>
      refine speaks_vectorItems hname ha.1 fun items hi => speaks_expectFunction hname ha.2.1 ?_
      refine (speaks_mergeSort (calls_of_sorts hsort) ha.2.1 hi).imp fun sorted hs => ?_
      exact ⟨hs, fun _ _ => ha.1⟩
    | _ => exact speaks_wrongType (Coherent.append hname (Coherent.line (by decide))) ha.1

theorem library_speaks : ∀ n ∈ library, n.Speaks V := by
  have hname {name : String} (h : '\n' ∉ name.toList) : V.text name := Coherent.line h
  simp only [library, List.forall_mem_cons]
  refine ⟨?_, ?_, ?_, ?_, ?_, makeInitialized_speaks, ?_, ?_, ?_, ?_, ?_,
    position_speaks (hname (by decide)), position_speaks (hname (by decide)),
    position_speaks (hname (by decide)), position_speaks (hname (by decide)),
    position_speaks (hname (by decide)), position_speaks (hname (by decide)),
    position_speaks (hname (by decide)), position_speaks (hname (by decide)),
    position_speaks (hname (by decide)), position_speaks (hname (by decide)), ?_, ?_, ?_, ?_, ?_,
    move_speaks (hname (by decide)), move_speaks (hname (by decide)),
    mapping_speaks ofVector_speaks (hname (by decide)),
    iteration_speaks ofVector_speaks (hname (by decide)),
    reduction_speaks ofVector_speaks (hname (by decide)),
    selection_speaks ofVector_speaks (hname (by decide)),
    selection_speaks ofVector_speaks (hname (by decide)),
    search_speaks ofVector_speaks (hname (by decide)),
    sorting_speaks ofVector_speaks (hname (by decide)) (by decide),
    sortInPlace_speaks (by decide), nofun⟩
  · exact speaks_variadic fun _ _ fill hf => speaks_make hf
  · exact speaks_variadic fun items hi => speaks_vector hi fun _ h => h
  · refine speaks_fixed fun value hv => speaks_bind.2 ?_
    refine speaks_vectorItems (hname (by decide)) hv fun items hi => ?_
    exact speaks_vector hi fun _ h => h
  · exact speaks_fixed fun _ hv => speaks_ofList hv
  · refine speaks_fixed fun value hv => speaks_bind.2 ?_
    refine speaks_vectorItems (hname (by decide)) hv fun items hi => ?_
    exact speaks_list hi fun _ h => h
  · exact speaks_fixed fun _ hv _ _ => speaks_grow hv
  · exact speaks_fixed fun _ _ => trivial
  · refine speaks_fixed fun _ hv => speaks_bind.2 ?_
    exact speaks_expectVector (hname (by decide)) hv fun _ _ _ => speaks_giveCount
  · exact speaks_fixed fun _ hv _ _ => speaks_ref (hname (by decide)) hv
  · exact speaks_fixed fun _ hv _ _ new hn => speaks_set hv hn
  · exact speaks_fixed fun _ hv _ _ _ _ => speaks_slice (hname (by decide)) hv
  · exact speaks_fixed fun _ hv _ _ => speaks_slice (hname (by decide)) hv
  · exact speaks_fixed fun _ hv _ _ => speaks_slice (hname (by decide)) hv
  · exact speaks_fixed fun value hv new hn => speaks_fill hv hn
  · exact speaks_fixed fun value hv _ _ _ _ new hn => speaks_fillSlice hv hn

end Vectors

end HostedLisp
