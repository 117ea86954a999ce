import HostedLisp.Heap.Chain
import HostedLisp.Heap.Change
import Mathlib.Tactic.Lemma

/-!
# The tables after a change

What is read from the heap after each of the elementary changes. An entry is either the new one or
the one that was there before. A handle that was never given out leads to nothing.
-/

namespace HostedLisp

variable {α : Type}

lemma getD_push (a : Array α) (x d : α) (i : Nat) :
    (a.push x).getD i d = if i = a.size then x else a.getD i d := by
  simp only [Array.getD_eq_getD_getElem?, Array.getElem?_push]
  split <;> rfl

lemma getD_modify (a : Array α) (f : α → α) (d : α) (i j : Nat) :
    (a.modify i f).getD j d = if i = j ∧ j < a.size then f (a.getD j d) else a.getD j d := by
  simp only [Array.getD_eq_getD_getElem?, Array.getElem?_modify]
  by_cases h : i = j
  · by_cases hj : j < a.size
    · simp [h, hj]
    · simp [h, hj]
  · simp [h]

namespace Heap

variable {h : Heap}

/-! ### Handles that were never given out -/

lemma cell_of_le {id : CellId} (hid : h.cells.size ≤ id.index) : h.cell id = ⟨.nil, .nil⟩ := by
  rw [cell, Array.getD_eq_getD_getElem?, Array.getElem?_eq_none hid]
  rfl

lemma vector_of_le {id : VectorId} (hid : h.vectors.size ≤ id.index) : h.vector id = #[] := by
  rw [vector, Array.getD_eq_getD_getElem?, Array.getElem?_eq_none hid]
  rfl

/-! ### Elementary changes -/

lemma cell_newCell (head tail : Value) (id : CellId) :
    (h.newCell head tail).2.cell id = if id.index = h.cells.size then ⟨head, tail⟩ else h.cell id :=
  getD_push ..

lemma vector_newVector (items : List Value) (id : VectorId) :
    (h.newVector items).2.vector id =
      if id.index = h.vectors.size then items.toArray else h.vector id :=
  getD_push ..

lemma closure_newClosure (c : Closure) (id : ClosureId) :
    (h.newClosure c).2.closure id = if id.index = h.closures.size then c else h.closure id :=
  getD_push ..

lemma object_newObject (o : HostObject) (id : ObjectId) :
    (h.newObject o).2.object id = if id.index = h.objects.size then o else h.object id :=
  getD_push ..

lemma frame_newFrame (parent : FrameId) (label : String) (id : FrameId) :
    (h.newFrame parent label).2.frame id = if id.index = h.frames.size
      then ⟨.empty, some parent, label, none, (h.frame parent).root, true⟩ else h.frame id :=
  getD_push ..

lemma cell_setHead (id : CellId) (value : Value) (other : CellId) :
    (h.setHead id value).cell other = if id.index = other.index ∧ other.index < h.cells.size
      then { h.cell other with head := value } else h.cell other :=
  getD_modify ..

lemma cell_setTail (id : CellId) (value : Value) (other : CellId) :
    (h.setTail id value).cell other = if id.index = other.index ∧ other.index < h.cells.size
      then { h.cell other with tail := value } else h.cell other :=
  getD_modify ..

lemma vector_setSlot (id : VectorId) (slot : Nat) (value : Value) (other : VectorId) :
    (h.setSlot id slot value).vector other =
      if id.index = other.index ∧ other.index < h.vectors.size
      then (h.vector other).setIfInBounds slot value else h.vector other :=
  getD_modify ..

lemma size_vector_setSlot (id : VectorId) (slot : Nat) (value : Value) (other : VectorId) :
    ((h.setSlot id slot value).vector other).size = (h.vector other).size := by
  rw [vector_setSlot]
  split
  · exact Array.size_setIfInBounds
  · rfl

/-- A slot holds what was written to it last, if the vector has it. -/
lemma getElem?_setSlot (h : Heap) (id : VectorId) (slot : Nat) (value : Value) (other : VectorId)
    (i : Nat) : ((h.setSlot id slot value).vector other)[i]? =
      if other = id ∧ i = slot ∧ i < (h.vector id).size then some value
      else (h.vector other)[i]? := by
  rw [vector_setSlot]
  by_cases hid : id.index < h.vectors.size
  · by_cases hother : other = id
    · subst hother
      rw [if_pos ⟨rfl, hid⟩, Array.getElem?_setIfInBounds]
      grind
    · have hne : id.index ≠ other.index := fun heq => hother (congrArg VectorId.mk heq.symm)
      rw [if_neg fun hs => hne hs.1, if_neg fun hs => hother hs.1]
  · have hempty : h.vector id = #[] := vector_of_le (Nat.not_lt.1 hid)
    have hnone : ¬(other = id ∧ i = slot ∧ i < (h.vector id).size) := by
      simp [hempty]
    rw [if_neg hnone, if_neg fun hs : id.index = other.index ∧ _ => hid (hs.1 ▸ hs.2)]

lemma closure_nameClosure (id : ClosureId) (name : Symbol) (other : ClosureId) :
    (h.nameClosure id name).closure other =
      if id.index = other.index ∧ other.index < h.closures.size
      then { h.closure other with name := some ((h.closure other).name.getD name) }
      else h.closure other :=
  getD_modify ..

lemma frame_modifyFrame (id : FrameId) (change : Frame → Frame) (other : FrameId) :
    (h.modifyFrame id change).frame other =
      if id.index = other.index ∧ other.index < h.frames.size
      then change (h.frame other) else h.frame other :=
  getD_modify ..

end Heap

end HostedLisp
