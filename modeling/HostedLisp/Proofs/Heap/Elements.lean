import HostedLisp.Proofs.Heap.Shape
import HostedLisp.Proofs.Heap.Unfolding

/-!
# Elements of sequences

What lists and vectors hold: those that are made hold the items that they are made of, and a vector
whose slots are all written holds what was written. Main definition: `Heap.elements?`.
-/

namespace HostedLisp.Heap

/-- The elements of a vector or of a list. -/
def elements? (h : Heap) : Value → Option (List Value)
  | .vector id => some (h.vector id).toList
  | value => h.listItems? value

variable {h h' : Heap}

/-! ### New lists -/

/-- Pairs that are there hold items one after the other, up to the empty list. -/
def Lists (h : Heap) : List Value → Value → Prop
  | [], value => value = .nil
  | item :: rest, value => ∃ id, value = .pair id ∧ id.index < h.cells.size ∧
      (h.cell id).head = item ∧ h.Lists rest (h.cell id).tail

lemma Lists.extend {items : List Value} {value : Value} (hl : h.Lists items value)
    (hext : h.Extends h') : h'.Lists items value := by
  induction items generalizing value with
  | nil => exact hl
  | cons item rest ih =>
    obtain ⟨id, rfl, hid, hhead, hrest⟩ := hl
    refine ⟨id, rfl, hid.trans_le hext.cells, ?_⟩
    rw [hext.cell id hid]
    exact ⟨hhead, ih hrest⟩

lemma Lists.walkFrom {items : List Value} {value : Value} (hl : h.Lists items value) {steps : Nat}
    (hsteps : items.length ≤ steps) : h.walkFrom steps value = (items, .proper) := by
  induction items generalizing value steps with
  | nil =>
    subst hl
    unfold Heap.walkFrom
    rfl
  | cons item rest ih =>
    obtain ⟨id, rfl, -, rfl, hrest⟩ := hl
    obtain ⟨steps, rfl⟩ : ∃ n, steps = n + 1 := ⟨steps - 1, by simp at hsteps; omega⟩
    rw [Heap.walkFrom, ih hrest (by simpa using hsteps)]

lemma newCell_lists {item value : Value} {rest : List Value} (hl : h.Lists rest value) :
    (h.newCell item value).2.Lists (item :: rest) (h.newCell item value).1 := by
  have hcell : (h.newCell item value).2.cell ⟨h.cells.size⟩ = ⟨item, value⟩ := by
    rw [cell_newCell, if_pos rfl]
  refine ⟨⟨h.cells.size⟩, rfl, by simp [newCell], ?_⟩
  rw [hcell]
  exact ⟨rfl, hl.extend (extends_newCell item value)⟩

lemma newChain_cons (h : Heap) (item : Value) (rest : List Value) (tail : Value) :
    h.newChain (item :: rest) tail =
      (h.newChain rest tail).2.newCell item (h.newChain rest tail).1 := rfl

lemma newChain_lists (h : Heap) (items : List Value) :
    (h.newChain items .nil).2.Lists items (h.newChain items .nil).1 ∧
      (h.newChain items .nil).2.cells.size = h.cells.size + items.length := by
  induction items with
  | nil => exact ⟨rfl, rfl⟩
  | cons item rest ih =>
    rw [newChain_cons]
    refine ⟨newCell_lists ih.1, ?_⟩
    simp only [newCell, Array.size_push, ih.2, List.length_cons]
    omega

lemma Lists.ne_vector {items : List Value} {value : Value} (hl : h.Lists items value)
    (id : VectorId) : value ≠ .vector id := by
  cases items with
  | nil =>
    rintro rfl
    cases hl
  | cons item rest =>
    obtain ⟨cell, rfl, -⟩ := hl
    nofun

/-- A new list holds the items that it is made of. -/
lemma elements?_newChain (h : Heap) (items : List Value) :
    (h.newChain items .nil).2.elements? (h.newChain items .nil).1 = some items := by
  obtain ⟨hl, hsize⟩ := newChain_lists h items
  rw [elements?]
  · rw [listItems?, walk, hl.walkFrom (by omega)]
  · exact hl.ne_vector

/-! ### Vectors -/

/-- A new vector holds the items that it is made of. -/
lemma vector_of_newVector (h : Heap) (items : List Value) :
    ((h.newVector items).2.vector ⟨h.vectors.size⟩).toList = items := by
  rw [vector_newVector, if_pos rfl]

/-- Vectors that there were keep their lengths. -/
lemma Develops.size_vector (hd : h.Develops h') {id : VectorId} (hid : id.index < h.vectors.size) :
    (h'.vector id).size = (h.vector id).size := by
  have hold : h.vectors[id.index]? = some (h.vector id) := by
    simp [Heap.vector, Array.getD, hid]
  obtain ⟨v, hv, hsize⟩ := hd.vectors _ _ hold
  rw [Heap.vector, Array.getD_eq_getD_getElem?, hv]
  exact hsize

lemma toList_setSlots {id : VectorId} (hid : id.index < h.vectors.size) (start : Nat)
    (values : List Value) (hfits : start + values.length ≤ (h.vector id).size) :
    ((h.setSlots id start values).vector id).toList =
      (h.vector id).toList.take start ++ values ++
        (h.vector id).toList.drop (start + values.length) := by
  induction values generalizing h start with
  | nil => simp [setSlots]
  | cons value rest ih =>
    have hstart : start < (h.vector id).toList.length := by
      simp only [List.length_cons] at hfits
      simp only [Array.length_toList]
      omega
    have hwritten : ((h.setSlot id start value).vector id).toList =
        (h.vector id).toList.take start ++ value :: (h.vector id).toList.drop (start + 1) := by
      rw [vector_setSlot, if_pos ⟨rfl, hid⟩, Array.toList_setIfInBounds,
        List.set_eq_take_append_cons_drop, if_pos hstart]
    have hlength : ((h.setSlot id start value).vector id).size = (h.vector id).size := by
      rw [vector_setSlot, if_pos ⟨rfl, hid⟩, Array.size_setIfInBounds]
    have hfirst : ((h.vector id).toList.take start ++ [value]).length = start + 1 := by
      rw [List.length_append, List.length_take, Nat.min_eq_left hstart.le, List.length_singleton]
    rw [setSlots, ih (by simpa [setSlot] using hid), hwritten, List.append_cons,
      List.take_left' hfirst, List.drop_append, hfirst, List.drop_eq_nil_of_le (by omega),
      List.drop_drop]
    · simp [Nat.add_assoc, Nat.add_comm 1]
    · simp only [List.length_cons] at hfits
      omega

/-- Where all slots are written the vector holds what was written. -/
lemma toList_setSlots_all {id : VectorId} {values : List Value}
    (hsize : values.length = (h.vector id).size) :
    ((h.setSlots id 0 values).vector id).toList = values := by
  obtain hid | hid := Nat.lt_or_ge id.index h.vectors.size
  · rw [toList_setSlots hid 0 values (by omega)]
    simp [hsize]
  · rw [vector_of_le hid] at hsize
    obtain rfl : values = [] := by simpa using hsize
    rw [setSlots, vector_of_le hid]

end HostedLisp.Heap
