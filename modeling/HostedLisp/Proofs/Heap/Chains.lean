import HostedLisp.Proofs.Heap.Spine
import Mathlib.Data.Fintype.Pigeonhole
import Mathlib.Dynamics.PeriodicPts.Defs

/-!
# Where chains end

Following the tails from a value ends at something that is no pair, or never does, because the
chain comes back on itself. A bounded walk tells which, since a chain that ends has at most one pair
more than there are. Main definitions: `Heap.Endless`, `Heap.Proper`, `Heap.Classifies`. Main
statements: `Heap.walk_of_spine`, `Heap.walk_of_endless`.
-/

namespace HostedLisp

namespace ChainEnd

/-- How a chain ends that leads to this value. -/
def ofLast : Value → ChainEnd
  | .nil => .proper
  | .pair _ => .circular
  | _ => .improper

lemma ofLast_eq_proper_iff {last : Value} :
    ChainEnd.ofLast last = .proper ↔ last = .nil := by
  cases last <;> simp [ChainEnd.ofLast]

lemma ofLast_eq_circular_iff {last : Value} :
    ChainEnd.ofLast last = .circular ↔ ∃ id, last = .pair id := by
  cases last <;> simp [ChainEnd.ofLast]

lemma ofLast_eq_improper_iff {last : Value} :
    ChainEnd.ofLast last = .improper ↔ last ≠ .nil ∧ ∀ id, last ≠ .pair id := by
  cases last <;> simp [ChainEnd.ofLast]

end ChainEnd

namespace Heap

variable {h : Heap} {ids more : List CellId} {id : CellId} {value middle last last' : Value}

/-! ### Following tails -/

/-- However far the tails are followed, there is a pair. -/
def Endless (h : Heap) (value : Value) : Prop :=
  ∀ ids last, h.Spine ids value last → ∃ id, last = .pair id

/-- The tail of a pair. What is no pair stays what it is. -/
def follow (h : Heap) : Value → Value
  | .pair id => (h.cell id).tail
  | value => value

lemma follow_of_not_pair (hlast : ∀ id, last ≠ .pair id) : h.follow last = last := by
  cases last with
  | pair id => exact absurd rfl (hlast id)
  | _ => rfl

lemma spine_append_iff : h.Spine (ids ++ more) value last ↔
    ∃ middle, h.Spine ids value middle ∧ h.Spine more middle last := by
  induction ids generalizing value with
  | nil => simp [Spine]
  | cons id ids ih => simp only [List.cons_append, Spine, ih, and_assoc, exists_and_left]

lemma Spine.snoc (hs : h.Spine ids value (.pair id)) :
    h.Spine (ids ++ [id]) value (h.cell id).tail :=
  spine_append_iff.2 ⟨_, hs, rfl, rfl⟩

/-- The pairs of a chain are found one after the other. -/
lemma Spine.iterate (hs : h.Spine ids value last) : h.follow^[ids.length] value = last ∧
    ∀ (i : Nat) (hi : i < ids.length), h.follow^[i] value = .pair ids[i] := by
  induction ids generalizing value with
  | nil => exact ⟨hs, nofun⟩
  | cons id ids ih =>
    obtain ⟨rfl, hs⟩ := hs
    obtain ⟨hlast, hpairs⟩ := ih hs
    refine ⟨hlast, fun i hi => ?_⟩
    cases i with
    | zero => rfl
    | succ i => exact hpairs i (Nat.lt_of_succ_lt_succ hi)

lemma heads_append (h : Heap) (ids more : List CellId) :
    h.heads (ids ++ more) = h.heads ids ++ h.heads more :=
  List.map_append

lemma Endless.iterate (hv : h.Endless value) (n : Nat) : ∃ ids id, ids.length = n ∧
    h.Spine ids value (.pair id) ∧ h.follow^[n] value = .pair id := by
  induction n with
  | zero =>
    obtain ⟨id, hid⟩ := hv [] value rfl
    exact ⟨[], id, rfl, hid, hid⟩
  | succ n ih =>
    obtain ⟨ids, id, rfl, hs, hlast⟩ := ih
    obtain ⟨next, hnext⟩ := hv _ _ hs.snoc
    refine ⟨ids ++ [id], next, by simp, hnext ▸ hs.snoc, ?_⟩
    rw [Function.iterate_succ_apply', hlast]
    exact hnext

/-- A chain either ends at something that is no pair or never does. -/
lemma endless_iff : h.Endless value ↔
    ¬∃ ids last, h.Spine ids value last ∧ ∀ id, last ≠ .pair id := by
  simp only [Endless, not_exists, not_and, not_forall, not_not]

/-- From where it is a second time on, a chain goes round. -/
lemma isPeriodicPt_of_repeat {i j : Nat} (hij : i < j)
    (heq : h.follow^[i] value = h.follow^[j] value) :
    Function.IsPeriodicPt h.follow (j - i) (h.follow^[i] value) := by
  change h.follow^[j - i] (h.follow^[i] value) = h.follow^[i] value
  rw [← Function.iterate_add_apply, Nat.sub_add_cancel hij.le, heq]

/-- A chain that ends comes to no pair twice. -/
lemma Spine.ne_of_lt (hs : h.Spine ids value last) (hlast : ∀ id, last ≠ .pair id) {i j : Nat}
    (hij : i < j) (hi : h.follow^[i] value = .pair id) : h.follow^[j] value ≠ .pair id := by
  intro hj
  -- from `i` on the chain would go round, past its end
  have hround : h.follow^[(j - i) * ids.length] (h.follow^[i] value) = h.follow^[i] value :=
    ((isPeriodicPt_of_repeat hij (hi.trans hj.symm)).mul_const ids.length).eq
  have hend : h.follow^[ids.length] value = last := hs.iterate.1
  have hfixed : Function.IsFixedPt h.follow last := follow_of_not_pair hlast
  have hfar : ids.length ≤ (j - i) * ids.length + i :=
    (Nat.le_mul_of_pos_left _ (Nat.sub_pos_of_lt hij)).trans (Nat.le_add_right _ _)
  obtain ⟨rest, hrest⟩ := Nat.exists_eq_add_of_le' hfar
  rw [← Function.iterate_add_apply, hrest, Function.iterate_add_apply, hend,
    hfixed.iterate rest, hi] at hround
  exact hlast id hround

lemma Spine.nodup (hs : h.Spine ids value last) (hlast : ∀ id, last ≠ .pair id) : ids.Nodup := by
  rw [List.nodup_iff_pairwise_ne, List.pairwise_iff_getElem]
  intro i j hi hj hij heq
  have hpairs := hs.iterate.2
  exact hs.ne_of_lt hlast hij (hpairs i hi) (heq ▸ hpairs j hj)

/-- A pair that leads to another one was given out. -/
lemma index_lt_of_tail {next : CellId} (hnext : (h.cell id).tail = .pair next) :
    id.index < h.cells.size := by
  by_contra hle
  rw [cell_of_le (Nat.le_of_not_lt hle)] at hnext
  cases hnext

/-- A chain that never ends comes to some pair twice, by the time that it has come to as many as
there are. -/
lemma Endless.exists_repeat (hv : h.Endless value) :
    ∃ i j, i < j ∧ j ≤ h.cells.size ∧ h.follow^[i] value = h.follow^[j] value := by
  have hpair (n : Nat) :
      ∃ id : CellId, id.index < h.cells.size ∧ h.follow^[n] value = .pair id := by
    obtain ⟨-, id, -, -, hid⟩ := hv.iterate n
    obtain ⟨-, next, -, -, hnext⟩ := hv.iterate (n + 1)
    rw [Function.iterate_succ_apply', hid] at hnext
    exact ⟨id, index_lt_of_tail hnext, hid⟩
  choose pair hindex hfollow using hpair
  obtain ⟨i, j, hne, heq⟩ := Fintype.exists_ne_map_eq_of_card_lt
    (fun n : Fin (h.cells.size + 1) => (⟨(pair n).index, hindex n⟩ : Fin h.cells.size))
    (by simp only [Fintype.card_fin, Nat.lt_succ_self])
  have hsame : pair i = pair j := congrArg CellId.mk (congrArg Fin.val heq)
  have hmeet : h.follow^[i.val] value = h.follow^[j.val] value := by rw [hfollow, hfollow, hsame]
  obtain hij | hij := Nat.lt_or_gt_of_ne (Fin.val_ne_of_ne hne)
  · exact ⟨i, j, hij, Nat.le_of_lt_succ j.isLt, hmeet⟩
  · exact ⟨j, i, hij, Nat.le_of_lt_succ i.isLt, hmeet.symm⟩

/-! ### The bounded walk -/

lemma walkFrom_spine {steps : Nat} (hs : h.Spine ids value last)
    (hsteps : ids.length ≤ steps) (hpair : ∀ id, last = .pair id → ids.length = steps) :
    h.walkFrom steps value = (h.heads ids, .ofLast last) := by
  induction ids generalizing value steps with
  | nil =>
    cases hs
    cases last with
    | pair id =>
      obtain rfl : 0 = steps := hpair id rfl
      rfl
    | _ =>
      unfold walkFrom
      rfl
  | cons id ids ih =>
    obtain ⟨rfl, hs⟩ := hs
    obtain ⟨steps, rfl⟩ : ∃ n, steps = n + 1 := ⟨steps - 1, by simp at hsteps; omega⟩
    rw [walkFrom, ih hs (by simpa using hsteps) fun id hid => by simpa using hpair id hid]
    rfl

/-- All pairs of a chain but the last one lead to a pair, so they were given out. -/
lemma Spine.index_lt (hs : h.Spine (ids ++ [id]) value last) {other : CellId} (hmem : other ∈ ids) :
    other.index < h.cells.size := by
  obtain ⟨i, hi, rfl⟩ := List.getElem_of_mem hmem
  have hpairs := hs.iterate.2
  have hlength : (ids ++ [id]).length = ids.length + 1 := List.length_append
  have hhere := hpairs i (by omega)
  have hnext := hpairs (i + 1) (by omega)
  rw [Function.iterate_succ_apply', hhere, List.getElem_append_left hi] at hnext
  exact index_lt_of_tail hnext

/-- A chain that ends has at most one pair more than were given out. -/
lemma Spine.length_le (hs : h.Spine ids value last) (hlast : ∀ id, last ≠ .pair id) :
    ids.length ≤ h.cells.size + 1 := by
  obtain rfl | ⟨front, final, rfl⟩ := ids.eq_nil_or_concat'
  · exact Nat.zero_le _
  · have hinjective : Function.Injective CellId.index := fun _ _ heq => congrArg CellId.mk heq
    have hnodup : (front.map CellId.index).Nodup :=
      ((hs.nodup hlast).sublist (List.sublist_append_left _ _)).map hinjective
    have hsubset : front.map CellId.index ⊆ List.range h.cells.size := by
      intro index hindex
      obtain ⟨id, hid, rfl⟩ := List.mem_map.1 hindex
      exact List.mem_range.2 (hs.index_lt hid)
    have hle := (List.subperm_of_subset hnodup hsubset).length_le
    rw [List.length_map, List.length_range] at hle
    rw [List.length_append]
    exact Nat.succ_le_succ hle

lemma walk_of_spine (hs : h.Spine ids value last) (hlast : ∀ id, last ≠ .pair id) :
    h.walk value = (h.heads ids, .ofLast last) :=
  walkFrom_spine hs (hs.length_le hlast) fun id hid => absurd hid (hlast id)

lemma walk_of_endless (hv : h.Endless value) : (h.walk value).2 = .circular := by
  obtain ⟨ids, id, hlength, hs, -⟩ := hv.iterate (h.cells.size + 1)
  rw [walk, walkFrom_spine hs hlength.le fun _ _ => hlength]
  rfl

/-! ### What walks tell -/

/-- A value is a proper list. -/
def Proper (h : Heap) (value : Value) : Prop := ∃ ids, h.Spine ids value .nil

/-- A value is a proper list of these elements. -/
def Holds (h : Heap) (value : Value) (items : List Value) : Prop :=
  ∃ ids, h.Spine ids value .nil ∧ h.heads ids = items

lemma proper_pair_iff : h.Proper (.pair id) ↔ h.Proper (h.cell id).tail := by
  constructor
  · rintro ⟨_ | ⟨other, ids⟩, hs⟩
    · cases hs
    · obtain ⟨heq, hs⟩ := hs
      cases heq
      exact ⟨ids, hs⟩
  · rintro ⟨ids, hs⟩
    exact ⟨id :: ids, rfl, hs⟩

/-- A chain that leads to a value is a proper list exactly if that is one. -/
lemma Spine.proper_iff (hs : h.Spine ids value last) : h.Proper value ↔ h.Proper last := by
  induction ids generalizing value with
  | nil => rw [show value = last from hs]
  | cons id ids ih =>
    obtain ⟨rfl, hs⟩ := hs
    exact proper_pair_iff.trans (ih hs)

/-- What a walk along the tails of a value tells: how the chain ends, and what its pairs hold if it
does, each of them once and in their order. -/
structure Classifies (h : Heap) (value : Value) (seen : List Value) (ending : ChainEnd) :
    Prop where
  proper : ending = .proper ↔ h.Proper value
  improper : ending = .improper ↔
    ∃ ids last, h.Spine ids value last ∧ last ≠ .nil ∧ ∀ id, last ≠ .pair id
  circular : ending = .circular ↔ h.Endless value
  visits : ∀ ids last, h.Spine ids value last → (∀ id, last ≠ .pair id) →
    ids.Nodup ∧ seen = h.heads ids

/-- A chain ends in one way. -/
lemma Spine.unique (hs : h.Spine ids value last) (hlast : ∀ id, last ≠ .pair id)
    (hs' : h.Spine more value last') (hlast' : ∀ id, last' ≠ .pair id) :
    ids = more ∧ last = last' := by
  induction ids generalizing value more with
  | nil =>
    cases hs
    cases more with
    | nil => exact ⟨rfl, hs'⟩
    | cons id more => exact absurd hs'.1 (hlast id)
  | cons id ids ih =>
    obtain ⟨rfl, hs⟩ := hs
    cases more with
    | nil => exact absurd hs'.symm (hlast' id)
    | cons id' more =>
      obtain ⟨heq, hs'⟩ := hs'
      cases heq
      obtain ⟨rfl, rfl⟩ := ih hs hs'
      exact ⟨rfl, rfl⟩

lemma classifies_of_spine (hs : h.Spine ids value last) (hlast : ∀ id, last ≠ .pair id) :
    h.Classifies value (h.heads ids) (.ofLast last) where
  proper := by
    rw [ChainEnd.ofLast_eq_proper_iff]
    constructor
    · rintro rfl
      exact ⟨ids, hs⟩
    · rintro ⟨ids', hs'⟩
      exact (hs.unique hlast hs' nofun).2
  improper := by
    rw [ChainEnd.ofLast_eq_improper_iff]
    constructor
    · intro hother
      exact ⟨ids, last, hs, hother⟩
    · rintro ⟨ids', last', hs', hnil, hpair⟩
      obtain ⟨-, rfl⟩ := hs.unique hlast hs' hpair
      exact ⟨hnil, hpair⟩
  circular := by
    rw [ChainEnd.ofLast_eq_circular_iff, endless_iff]
    constructor
    · rintro ⟨id, rfl⟩
      exact absurd rfl (hlast id)
    · intro hnone
      exact absurd ⟨ids, last, hs, hlast⟩ hnone
  visits := by
    intro ids' last' hs' hlast'
    obtain ⟨rfl, rfl⟩ := hs.unique hlast hs' hlast'
    exact ⟨hs.nodup hlast, rfl⟩

lemma classifies_of_endless (hv : h.Endless value) (seen : List Value) :
    h.Classifies value seen .circular := by
  have hnone (ids : List CellId) (last : Value) (hs : h.Spine ids value last) :
      ¬∀ id, last ≠ .pair id := fun hlast => endless_iff.1 hv ⟨ids, last, hs, hlast⟩
  exact {
    proper := iff_of_false nofun fun ⟨ids, hs⟩ => hnone ids _ hs nofun
    improper := iff_of_false nofun fun ⟨ids, last, hs, _, hlast⟩ => hnone ids last hs hlast
    circular := iff_of_true rfl hv
    visits := fun ids last hs hlast => absurd hlast (hnone ids last hs) }

lemma walk_classifies (h : Heap) (value : Value) :
    h.Classifies value (h.walk value).1 (h.walk value).2 := by
  by_cases hv : h.Endless value
  · rw [walk_of_endless hv]
    exact classifies_of_endless hv _
  · rw [endless_iff, not_not] at hv
    obtain ⟨ids, last, hs, hlast⟩ := hv
    rw [walk_of_spine hs hlast]
    exact classifies_of_spine hs hlast

lemma isList_iff : h.isList value = true ↔ h.Proper value := by
  rw [isList, decide_eq_true_iff]
  exact (h.walk_classifies value).proper

lemma listItems?_of_spine (hs : h.Spine ids value .nil) :
    h.listItems? value = some (h.heads ids) := by
  have hlast (id : CellId) : Value.nil ≠ .pair id := nofun
  rw [listItems?, walk_of_spine hs hlast]
  rfl

lemma listItems?_eq_none_iff : h.listItems? value = none ↔ ¬h.Proper value := by
  constructor
  · rintro hnone ⟨ids, hs⟩
    rw [listItems?_of_spine hs] at hnone
    cases hnone
  · intro hvalue
    rw [← isList_iff, isList, decide_eq_true_iff] at hvalue
    rw [listItems?]
    generalize h.walk value = walked at hvalue ⊢
    obtain ⟨items, ending⟩ := walked
    cases ending with
    | proper => exact absurd rfl hvalue
    | improper | circular => rfl

lemma listItems?_eq_some_iff {items : List Value} :
    h.listItems? value = some items ↔ h.Holds value items := by
  constructor
  · intro hitems
    have hvalue : h.Proper value := by
      by_contra hnot
      rw [listItems?_eq_none_iff.2 hnot] at hitems
      cases hitems
    obtain ⟨ids, hs⟩ := hvalue
    rw [listItems?_of_spine hs] at hitems
    exact ⟨ids, hs, Option.some.inj hitems⟩
  · rintro ⟨ids, hs, rfl⟩
    exact listItems?_of_spine hs

lemma Holds.unique {items items' : List Value} (hitems : h.Holds value items)
    (hitems' : h.Holds value items') : items = items' :=
  Option.some.inj ((listItems?_eq_some_iff.2 hitems).symm.trans (listItems?_eq_some_iff.2 hitems'))

end Heap

end HostedLisp
