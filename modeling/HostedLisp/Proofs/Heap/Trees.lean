import HostedLisp.Heap.Printer
import HostedLisp.Proofs.Heap.Parts

/-!
# Tree unfoldings

A value without cycles unfolds to a finite tree whose leaves are the values without parts. Where
parts are shared, the tree has a copy for each place. Such a tree is written by recursion on it,
with nothing to be kept in mind but the levels that are left. Main definitions: `Tree`,
`Heap.Expands`, `Heap.writeTree`. Main statement: `Heap.acyclic_iff_expands`.
-/

namespace HostedLisp

/-- The container that a value leads to. -/
def Value.container? : Value → Option Container
  | .pair id => some (.pair id)
  | .vector id => some (.vector id)
  | _ => none

/-- A tree of values without parts. -/
inductive Tree where
  | leaf (v : Value)
  | pair (head tail : Tree)
  | vector (items : List Tree)

namespace Heap

open Relation

mutual

/-- The tree that a value unfolds to. -/
def Expands (h : Heap) : Tree → Value → Prop
  | .leaf w, v => v = w ∧ v.container? = none
  | .pair head tail, v => ∃ id, v = .pair id ∧
      h.Expands head (h.cell id).head ∧ h.Expands tail (h.cell id).tail
  | .vector items, v => ∃ id, v = .vector id ∧ h.ExpandsAll items (h.vector id).toList

/-- The trees that several values unfold to. -/
def ExpandsAll (h : Heap) : List Tree → List Value → Prop
  | [], values => values = []
  | t :: items, values => ∃ v rest, values = v :: rest ∧ h.Expands t v ∧ h.ExpandsAll items rest

end

/-- The text of a value without parts. -/
def writeAtom (h : Heap) (v : Value) : List Char := h.writeValue none .empty v

mutual

/-- The text of a tree, of which the given number of levels is shown. -/
def writeTree (h : Heap) (levels : Nat) : Tree → List Char
  | .leaf v => h.writeAtom v
  | .pair head tail =>
    match levels with
    | 0 => Datum.elidedList
    | levels + 1 => '(' :: (h.writeTree levels head ++ h.writeTreeTail levels tail)
  | .vector items =>
    match levels with
    | 0 => Datum.elidedVector
    | levels + 1 => '#' :: '(' :: (h.writeTrees levels false items ++ [')'])

/-- The text of a list after its first element. -/
def writeTreeTail (h : Heap) (levels : Nat) : Tree → List Char
  | .leaf .nil => [')']
  | .leaf v => [' ', '.', ' '] ++ h.writeAtom v ++ [')']
  | .pair head tail => ' ' :: (h.writeTree levels head ++ h.writeTreeTail levels tail)
  | .vector items =>
    match levels with
    | 0 => [' ', '.', ' '] ++ Datum.elidedVector ++ [')']
    | levels + 1 =>
      [' ', '.', ' ', '#', '('] ++ h.writeTrees levels false items ++ [')', ')']

/-- The texts of items with blanks between them, and one before the first if others have come
before it. -/
def writeTrees (h : Heap) (levels : Nat) (continued : Bool) : List Tree → List Char
  | [] => []
  | t :: rest =>
    (if continued then [' '] else []) ++ h.writeTree levels t ++ h.writeTrees levels true rest

end

variable {h : Heap} {v w : Value} {t : Tree}

/-! ### Parts of trees -/

lemma partsOf_of_container?_eq_none (hv : v.container? = none) : h.partsOf v = [] := by
  cases v with
  | pair | vector => cases hv
  | _ => rfl

lemma ExpandsAll.exists_of_mem {items : List Tree} {values : List Value}
    (hi : h.ExpandsAll items values) (hv : v ∈ values) : ∃ t ∈ items, h.Expands t v := by
  induction items generalizing values with
  | nil =>
    cases hi
    cases hv
  | cons t items ih =>
    obtain ⟨w, rest, rfl, ht, hrest⟩ := hi
    obtain rfl | hv := List.mem_cons.1 hv
    · exact ⟨t, List.mem_cons_self, ht⟩
    · obtain ⟨u, hu, huv⟩ := ih hrest hv
      exact ⟨u, List.mem_cons_of_mem _ hu, huv⟩

lemma Expands.eq_leaf (ht : h.Expands t v) (hv : v.container? = none) : t = .leaf v := by
  cases t with
  | leaf =>
    obtain ⟨rfl, -⟩ := ht
    rfl
  | pair | vector =>
    obtain ⟨id, rfl, -⟩ := ht
    cases hv

lemma Expands.eq_pair {id : CellId} (ht : h.Expands t (.pair id)) : ∃ head tail,
    t = .pair head tail ∧ h.Expands head (h.cell id).head ∧ h.Expands tail (h.cell id).tail := by
  cases t with
  | leaf =>
    obtain ⟨rfl, hnone⟩ := ht
    cases hnone
  | pair head tail =>
    obtain ⟨id, heq, hhead, htail⟩ := ht
    cases heq
    exact ⟨head, tail, rfl, hhead, htail⟩
  | vector =>
    obtain ⟨id, heq, -⟩ := ht
    cases heq

lemma Expands.eq_vector {id : VectorId} (ht : h.Expands t (.vector id)) :
    ∃ items, t = .vector items ∧ h.ExpandsAll items (h.vector id).toList := by
  cases t with
  | leaf =>
    obtain ⟨rfl, hnone⟩ := ht
    cases hnone
  | pair =>
    obtain ⟨id, heq, -⟩ := ht
    cases heq
  | vector items =>
    obtain ⟨id, heq, hitems⟩ := ht
    cases heq
    exact ⟨items, rfl, hitems⟩

/-- A part unfolds to a smaller tree. -/
lemma Expands.part (ht : h.Expands t v) (hw : h.HasPart v w) :
    ∃ u, h.Expands u w ∧ sizeOf u < sizeOf t := by
  cases t with
  | leaf =>
    obtain ⟨-, hv⟩ := ht
    rw [HasPart, partsOf_of_container?_eq_none hv] at hw
    cases hw
  | pair head tail =>
    obtain ⟨id, rfl, hhead, htail⟩ := ht
    rw [Tree.pair.sizeOf_spec]
    have hparts : w ∈ [(h.cell id).head, (h.cell id).tail] := hw
    obtain rfl | hw := List.mem_cons.1 hparts
    · exact ⟨head, hhead, by omega⟩
    · obtain rfl := List.mem_singleton.1 hw
      exact ⟨tail, htail, by omega⟩
  | vector items =>
    obtain ⟨id, rfl, hitems⟩ := ht
    obtain ⟨u, hu, huw⟩ := hitems.exists_of_mem hw
    have hlt := List.sizeOf_lt_of_mem hu
    rw [Tree.vector.sizeOf_spec]
    exact ⟨u, huw, by omega⟩

lemma Expands.descend (ht : h.Expands t v) (hw : TransGen h.HasPart v w) :
    ∃ u, h.Expands u w ∧ sizeOf u < sizeOf t := by
  induction hw with
  | single hpart => exact ht.part hpart
  | tail _ hpart ih =>
    obtain ⟨u, hu, hlt⟩ := ih
    obtain ⟨u', hu', hlt'⟩ := hu.part hpart
    exact ⟨u', hu', hlt'.trans hlt⟩

/-- What unfolds to a tree is not inside itself. -/
lemma Expands.not_transGen {t : Tree} (ht : h.Expands t v) : ¬TransGen h.HasPart v v := by
  intro hcycle
  obtain ⟨u, hu, hlt⟩ := ht.descend hcycle
  exact hu.not_transGen hcycle
termination_by sizeOf t

lemma exists_expandsAll {values : List Value} (hv : ∀ v ∈ values, ∃ t, h.Expands t v) :
    ∃ items, h.ExpandsAll items values := by
  induction values with
  | nil => exact ⟨[], rfl⟩
  | cons v values ih =>
    rw [List.forall_mem_cons] at hv
    obtain ⟨⟨t, ht⟩, hvalues⟩ := hv
    obtain ⟨items, hitems⟩ := ih hvalues
    exact ⟨t :: items, v, values, rfl, ht, hitems⟩

/-- A value unfolds to a tree if its parts do. -/
lemma exists_expands_of_parts (hparts : ∀ w, h.HasPart v w → ∃ t, h.Expands t w) :
    ∃ t, h.Expands t v := by
  cases v with
  | pair id =>
    obtain ⟨head, hhead⟩ := hparts (h.cell id).head List.mem_cons_self
    obtain ⟨tail, htail⟩ :=
      hparts (h.cell id).tail (List.mem_cons_of_mem _ List.mem_cons_self)
    exact ⟨.pair head tail, id, rfl, hhead, htail⟩
  | vector id =>
    obtain ⟨items, hitems⟩ := exists_expandsAll hparts
    exact ⟨.vector items, id, rfl, hitems⟩
  | _ => exact ⟨.leaf _, rfl, rfl⟩

/-- Exactly the values without cycles unfold to trees. -/
theorem acyclic_iff_expands : h.Acyclic v ↔ ∃ t, h.Expands t v := by
  constructor
  · exact fun hv => hv.induction fun _ _ => exists_expands_of_parts
  · rintro ⟨t, ht⟩ w hw
    obtain rfl | hw := reflTransGen_iff_eq_or_transGen.1 hw
    · exact ht.not_transGen
    · obtain ⟨u, hu, -⟩ := ht.descend hw
      exact hu.not_transGen

end Heap

end HostedLisp
