import HostedLisp.Proofs.Heap.Rendering

/-!
# Reading the text of a value

A value without cycles unfolds to a tree, and if its leaves are plain, its text is read as that
tree. Main definition: `Heap.Plain`. Main statement: `Heap.read_render_of_acyclic`.
-/

namespace HostedLisp.Heap

/-- What can be written so that it is read back: a container of the heap, or an atom other than
floating point numbers and symbols whose names are read as something else. -/
def Plain (h : Heap) : Value → Prop
  | .nil | .bool _ | .int _ | .str _ => True
  | .sym name => Datum.read name.name = .ok (.sym name)
  | .pair id => id.index < h.cells.size
  | .vector id => id.index < h.vectors.size
  | _ => False

variable {h : Heap} {v w : Value}

/-! ### Unfolding -/

lemma exists_unfoldsAll {values : List Value}
    (hv : ∀ v ∈ values, ∃ d : Datum, d.Readable ∧ h.Unfolds d v) :
    ∃ items, Datum.AllReadable items ∧ h.UnfoldsAll items values := by
  induction values with
  | nil => exact ⟨[], trivial, rfl⟩
  | cons v values ih =>
    rw [List.forall_mem_cons] at hv
    obtain ⟨⟨d, hd, hv⟩, hvalues⟩ := hv
    obtain ⟨items, hitems, hvalues⟩ := ih hvalues
    exact ⟨d :: items, ⟨hd, hitems⟩, v, values, rfl, hv, hvalues⟩

/-- A value unfolds if its parts do. -/
lemma exists_unfolds_of_parts (hv : h.Plain v)
    (hparts : ∀ w, h.HasPart v w → ∃ d : Datum, d.Readable ∧ h.Unfolds d w) :
    ∃ d : Datum, d.Readable ∧ h.Unfolds d v := by
  cases v with
  | nil => exact ⟨.nil, trivial, rfl⟩
  | bool b => exact ⟨.bool b, trivial, rfl⟩
  | int n => exact ⟨.int n, trivial, rfl⟩
  | str text => exact ⟨.str text, trivial, rfl⟩
  | sym name => exact ⟨.sym name, hv, rfl⟩
  | pair id =>
    obtain ⟨head, hd, hhead⟩ := hparts (h.cell id).head List.mem_cons_self
    obtain ⟨tail, ht, htail⟩ :=
      hparts (h.cell id).tail (List.mem_cons_of_mem _ List.mem_cons_self)
    exact ⟨.pair head tail, ⟨hd, ht⟩, id, rfl, hv, hhead, htail⟩
  | vector id =>
    obtain ⟨items, hd, hitems⟩ := exists_unfoldsAll hparts
    exact ⟨.vector items, hd, id, rfl, hv, hitems⟩
  | float | closure | primitive | object => exact hv.elim

/-- A plain value without cycles unfolds to a tree that can be read. -/
theorem exists_unfolding (hv : h.Acyclic v) (hplain : ∀ w, h.Within v w → h.Plain w) :
    ∃ d : Datum, d.Readable ∧ h.Unfolds d v := by
  exact hv.induction fun w hw => exists_unfolds_of_parts (hplain w hw)

/-! ### Reading the text -/

/-- The text of a value without cycles and with at most 63 levels of lists and vectors is read as
the tree that the value stands for. Placed in the heap as it then is, that tree is equal to the
value, whatever the value shares. -/
theorem read_render_of_acyclic (hv : h.Acyclic v) (hplain : ∀ w, h.Within v w → h.Plain w) :
    ∃ d : Datum, h.Unfolds d v ∧ (d.nesting ≤ 63 → Datum.read (h.render v) = .ok d ∧
      ∀ h', h.Extends h' → (h'.place d).2.equal v (h'.place d).1 = true ∧
        (h'.place d).2.equal (h'.place d).1 v = true) := by
  obtain ⟨d, hd, hunfolds⟩ := exists_unfolding hv hplain
  refine ⟨d, hunfolds, fun hlevels => ⟨?_, fun h' hext => ?_⟩⟩
  · rw [render_of_unfolds hunfolds]
    exact Datum.read_render hd hlevels
  · obtain ⟨hext', hplaced⟩ := place_unfolds h' d
    have hv' := hunfolds.extend (hext.trans hext')
    exact ⟨equal_of_unfolds hd hv' hplaced, equal_of_unfolds hd hplaced hv'⟩

/-! ### A value with a shared part -/

/-- Pairs are as old as their handles say; everything else is younger. -/
def age : Value → Nat
  | .pair id => id.index + 1
  | _ => 0

/-- The heap of `((1) 1)`, whose first part is its tail as well. -/
def sharing : Heap := { empty with cells := #[⟨.int 1, .nil⟩, ⟨.pair ⟨0⟩, .pair ⟨0⟩⟩] }

/-- The text `((1) 1)` is read as the list that was written. -/
theorem read_render_sharing :
    sharing.Acyclic (.pair ⟨1⟩) ∧ (∀ w, sharing.Within (.pair ⟨1⟩) w → sharing.Plain w) ∧
      Datum.read (sharing.render (.pair ⟨1⟩)) =
        .ok (.pair (.pair (.int 1) .nil) (.pair (.int 1) .nil)) := by
  let values : List Value := [.pair ⟨1⟩, .pair ⟨0⟩, .int 1, .nil]
  have hclosed : ∀ u ∈ values, ∀ w ∈ sharing.partsOf u, w ∈ values := by decide
  have hage : ∀ u ∈ values, ∀ w ∈ sharing.partsOf u, age w < age u := by decide
  have hacyclic := acyclic_of_descending (h := sharing) List.mem_cons_self hclosed age hage
  have hplain (w : Value) (hw : sharing.Within (.pair ⟨1⟩) w) : sharing.Plain w := by
    have hmem : w ∈ values := within_of_closed List.mem_cons_self hclosed hw
    simp only [values, List.mem_cons, List.not_mem_nil, or_false] at hmem
    obtain rfl | rfl | rfl | rfl := hmem
    · exact Nat.lt_succ_self 1
    · exact Nat.zero_lt_two
    · trivial
    · trivial
  have hunfolds : sharing.Unfolds (.pair (.pair (.int 1) .nil) (.pair (.int 1) .nil))
      (.pair ⟨1⟩) := by
    have hone : sharing.Unfolds (.pair (.int 1) .nil) (.pair ⟨0⟩) :=
      ⟨⟨0⟩, rfl, Nat.zero_lt_two, rfl, rfl⟩
    exact ⟨⟨1⟩, rfl, Nat.lt_succ_self 1, hone, hone⟩
  obtain ⟨d, hd, hread⟩ := read_render_of_acyclic hacyclic hplain
  obtain rfl := hd.unique hunfolds
  exact ⟨hacyclic, hplain, (hread (by decide)).1⟩

end HostedLisp.Heap
