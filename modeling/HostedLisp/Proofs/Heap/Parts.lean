import HostedLisp.Heap.Equality
import HostedLisp.Proofs.Heap.Tables
import Mathlib.Data.Fintype.Card
import Mathlib.Data.Set.Finite.Basic

/-!
# Containers and their parts

The heap is finite, so from a value that comes back on nothing inside it only finitely many steps
lead from container to part. Main definitions: `Heap.HasPart`, `Heap.Acyclic`. Main statement:
`Heap.wellFounded_hasPart`.
-/

namespace HostedLisp

/-- A container as a value. -/
def Container.value : Container → Value
  | pair id => .pair id
  | vector id => .vector id

namespace Heap

open Relation

/-- The parts of a value. Only pairs and vectors have any. -/
def partsOf (h : Heap) : Value → List Value
  | .pair id => h.parts (.pair id)
  | .vector id => h.parts (.vector id)
  | _ => []

/-- A container and one of its parts. -/
def HasPart (h : Heap) (v w : Value) : Prop := w ∈ h.partsOf v

/-- A value is met when one looks into another. -/
def Within (h : Heap) (v w : Value) : Prop := ReflTransGen h.HasPart v w

/-- Nothing inside the value contains itself. Parts may be shared. -/
def Acyclic (h : Heap) (v : Value) : Prop := ∀ w, h.Within v w → ¬ TransGen h.HasPart w w

/-- Not a handle to a pair or vector that the heap does not have. -/
def InRange (h : Heap) : Value → Prop
  | .pair id => id.index < h.cells.size
  | .vector id => id.index < h.vectors.size
  | _ => True

/-- All values in pairs and vectors of the heap. -/
def stored (h : Heap) : List Value :=
  h.cells.toList.flatMap (fun c => [c.head, c.tail]) ++ h.vectors.toList.flatMap Array.toList

variable {h : Heap} {v w : Value}

lemma partsOf_value (h : Heap) (c : Container) : h.partsOf c.value = h.parts c := by
  cases c <;> rfl

/-! ### Finitely many steps -/

lemma mem_stored_of_hasPart (hv : h.InRange v) (hw : h.HasPart v w) : w ∈ h.stored := by
  rw [stored, List.mem_append]
  cases v with
  | pair id =>
    have hid : id.index < h.cells.size := hv
    have hcell : h.cell id = h.cells[id.index] := dif_pos hid
    refine Or.inl (List.mem_flatMap.2 ⟨h.cell id, ?_, hw⟩)
    rw [hcell]
    exact (Array.getElem_mem hid).val
  | vector id =>
    have hid : id.index < h.vectors.size := hv
    have hvector : h.vector id = h.vectors[id.index] := dif_pos hid
    refine Or.inr (List.mem_flatMap.2 ⟨h.vector id, ?_, hw⟩)
    rw [hvector]
    exact (Array.getElem_mem hid).val
  | _ => cases hw

/-- A pair that the heap does not have reads as one of empty lists. -/
lemma mem_of_hasPart (hw : h.HasPart v w) : w ∈ .nil :: h.stored := by
  by_cases hv : h.InRange v
  · exact List.mem_cons_of_mem _ (mem_stored_of_hasPart hv hw)
  · cases v with
    | pair id =>
      have hparts : h.partsOf (.pair id) = [.nil, .nil] := by
        rw [partsOf, parts, cell_of_le (Nat.not_lt.1 hv)]
      rw [HasPart, hparts, List.mem_cons, List.mem_singleton, or_self] at hw
      rw [hw]
      exact List.mem_cons_self
    | vector id =>
      have hparts : h.partsOf (.vector id) = [] := by
        rw [partsOf, parts, vector_of_le (Nat.not_lt.1 hv)]
      rw [HasPart, hparts] at hw
      cases hw
    | _ => cases hw

lemma finite_within (h : Heap) (v : Value) : Finite {w // h.Within v w} := by
  refine Set.Finite.subset (s := {w | w ∈ v :: .nil :: h.stored}) (List.finite_toSet _) ?_
  intro w hw
  obtain rfl | ⟨u, -, hpart⟩ := ReflTransGen.cases_tail hw
  · exact List.mem_cons_self
  · exact List.mem_cons_of_mem _ (mem_of_hasPart hpart)

/-- From a value without cycles the steps from container to part come to an end. -/
lemma wellFounded_hasPart (hv : h.Acyclic v) :
    WellFounded fun a b : {w // h.Within v w} => h.HasPart b a := by
  have hfinite := finite_within h v
  have hirrefl : Std.Irrefl fun a b : {w // h.Within v w} => TransGen h.HasPart b a :=
    ⟨fun a => hv a a.2⟩
  have htrans : IsTrans {w // h.Within v w} fun a b => TransGen h.HasPart b a :=
    ⟨fun _ _ _ hab hbc => hbc.trans hab⟩
  exact Subrelation.wf (fun hab => TransGen.single hab)
    (Finite.wellFounded_of_trans_of_irrefl fun a b : {w // h.Within v w} =>
      TransGen h.HasPart b a)

/-- What holds of a value if it holds of its parts holds of every value without cycles. -/
lemma Acyclic.induction {motive : Value → Prop} (hv : h.Acyclic v)
    (hparts : ∀ w, h.Within v w → (∀ u, h.HasPart w u → motive u) → motive w) : motive v := by
  have hall (w : {w // h.Within v w}) : motive w := by
    induction w using (wellFounded_hasPart hv).induction with
    | h w ih => exact hparts w w.2 fun u hu => ih ⟨u, w.2.tail hu⟩ hu
  exact hall ⟨v, .refl⟩

/-! ### Values that lead only to known ones -/

lemma within_of_closed {values : List Value} (hv : v ∈ values)
    (hclosed : ∀ u ∈ values, ∀ w ∈ h.partsOf u, w ∈ values) (hw : h.Within v w) : w ∈ values := by
  induction hw with
  | refl => exact hv
  | tail _ hpart ih => exact hclosed _ ih _ hpart

lemma acyclic_of_descending {values : List Value} (hv : v ∈ values)
    (hclosed : ∀ u ∈ values, ∀ w ∈ h.partsOf u, w ∈ values) (age : Value → Nat)
    (hage : ∀ u ∈ values, ∀ w ∈ h.partsOf u, age w < age u) : h.Acyclic v := by
  intro u hu huu
  have hdescend {w : Value} (huw : TransGen h.HasPart u w) : w ∈ values ∧ age w < age u := by
    induction huw with
    | single huw =>
      have hmem := within_of_closed hv hclosed hu
      exact ⟨hclosed _ hmem _ huw, hage _ hmem _ huw⟩
    | tail _ hpart ih => exact ⟨hclosed _ ih.1 _ hpart, (hage _ ih.1 _ hpart).trans ih.2⟩
  exact lt_irrefl _ (hdescend huu).2

end Heap

end HostedLisp
