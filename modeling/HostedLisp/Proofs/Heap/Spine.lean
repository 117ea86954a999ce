import HostedLisp.Proofs.Heap.Elements

/-!
# The pairs of a chain

A chain that ends is given by the pairs that following the tails leads through. The same pairs tell
what the chain holds, and whether it was made of new ones. Main definitions: `Heap.Spine`,
`Heap.heads`. Main statement: `Heap.newChain_spine`.
-/

namespace HostedLisp.Heap

variable {h h' : Heap} {ids : List CellId} {value last : Value}

/-- Following the tails from a value leads through these pairs, one after the other, to the last
value. -/
def Spine (h : Heap) : List CellId → Value → Value → Prop
  | [], value, last => value = last
  | id :: ids, value, last => value = .pair id ∧ h.Spine ids (h.cell id).tail last

/-- What pairs hold. -/
def heads (h : Heap) (ids : List CellId) : List Value := ids.map fun id => (h.cell id).head

/-- The pairs are not older than the heap, and there in the later one. -/
def MadeSince (h h' : Heap) (ids : List CellId) : Prop :=
  ∀ id ∈ ids, h.cells.size ≤ id.index ∧ id.index < h'.cells.size

/-- A chain is the same in a heap that has the same in its pairs. -/
lemma Spine.of_cell (hs : h.Spine ids value last) (hcell : ∀ id ∈ ids, h'.cell id = h.cell id) :
    h'.Spine ids value last ∧ h'.heads ids = h.heads ids := by
  induction ids generalizing value with
  | nil => exact ⟨hs, rfl⟩
  | cons id ids ih =>
    rw [List.forall_mem_cons] at hcell
    obtain ⟨rfl, hs⟩ := hs
    obtain ⟨hs', hheads⟩ := ih hs hcell.2
    refine ⟨⟨rfl, by rwa [hcell.1]⟩, ?_⟩
    rw [heads, List.map_cons, hcell.1]
    exact congrArg ((h.cell id).head :: ·) hheads

lemma Spine.extend (hs : h.Spine ids value last) (hids : ∀ id ∈ ids, id.index < h.cells.size)
    (hext : h.Extends h') : h'.Spine ids value last ∧ h'.heads ids = h.heads ids :=
  hs.of_cell fun id hid => hext.cell id (hids id hid)

/-- A new chain holds the items in new pairs, one for each, and ends as it is meant to. -/
lemma newChain_spine (h : Heap) (items : List Value) (tail : Value) :
    h.Extends (h.newChain items tail).2 ∧
      ∃ ids, (h.newChain items tail).2.Spine ids (h.newChain items tail).1 tail ∧
        (h.newChain items tail).2.heads ids = items ∧ ids.Nodup ∧
        h.MadeSince (h.newChain items tail).2 ids := by
  induction items with
  | nil => exact ⟨Extends.refl h, [], rfl, rfl, .nil, nofun⟩
  | cons item rest ih =>
    obtain ⟨hext, ids, hspine, hheads, hnodup, hmade⟩ := ih
    rw [newChain_cons]
    generalize h.newChain rest tail = made at hext hspine hheads hmade
    obtain ⟨value, inner⟩ := made
    have hnew : inner.Extends (inner.newCell item value).2 := extends_newCell item value
    have hcell : (inner.newCell item value).2.cell ⟨inner.cells.size⟩ = ⟨item, value⟩ := by
      rw [cell_newCell, if_pos rfl]
    have hsize : (inner.newCell item value).2.cells.size = inner.cells.size + 1 :=
      Array.size_push _
    dsimp only
    obtain ⟨hspine', hheads'⟩ := hspine.extend (fun id hid => (hmade id hid).2) hnew
    refine ⟨hext.trans hnew, ⟨inner.cells.size⟩ :: ids, ⟨rfl, ?_⟩, ?_, ?_, ?_⟩
    · rwa [hcell]
    · rw [heads, List.map_cons, hcell]
      exact congrArg (item :: ·) (hheads'.trans hheads)
    · exact List.nodup_cons.2 ⟨fun hid => lt_irrefl _ (hmade _ hid).2, hnodup⟩
    · refine List.forall_mem_cons.2 ⟨⟨hext.cells, ?_⟩, fun id hid => ⟨(hmade id hid).1, ?_⟩⟩
      · rw [hsize]
        exact Nat.lt_succ_self _
      · rw [hsize]
        exact Nat.lt_succ_of_lt (hmade id hid).2

lemma frames_newChain (h : Heap) (items : List Value) (tail : Value) :
    (h.newChain items tail).2.frames = h.frames := by
  induction items with
  | nil => rfl
  | cons item rest ih => exact ih

end HostedLisp.Heap
