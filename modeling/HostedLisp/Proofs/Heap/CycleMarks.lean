import HostedLisp.Proofs.Heap.Printing

/-!
# Marks of cycles

While a value is written, the opened containers are those on the path to the part that is being
written, each of which has the next one as a part. A container is so marked only inside itself, and
a value without cycles is written as its tree, whatever it shares. Main definition: `Heap.Leads`.
Main statement: `Heap.printing_ends`.
-/

namespace HostedLisp.Heap

/-- The containers of a path, the innermost first, lead from a value to another one. -/
inductive Leads (h : Heap) (root : Value) : List Container → Value → Prop
  | root : Leads h root [] root
  | part {path c v} (hpath : Leads h root path c.value) (hpart : h.HasPart c.value v) :
      Leads h root (c :: path) v

/-- If a piece is a mark, it is inside the container that it stands for. -/
def Rightly (h : Heap) (root : Value) : Piece → Prop
  | .text _ => True
  | .mark path c => h.Leads root path c.value ∧ c ∈ path

variable {h : Heap} {path : List Container} {p p' : Printer} {task : Task} {out : List Piece}
  {root v : Value} {c : Container} {levels : Nat}

/-! ### Right marks -/

lemma Leads.within (hv : h.Leads root path v) : h.Within root v := by
  induction hv with
  | root => exact .refl
  | part _ hpart ih => exact ih.tail hpart

/-- A container of the path has the value inside it. -/
lemma Leads.inside (hv : h.Leads root path v) (hc : c ∈ path) :
    Relation.TransGen h.HasPart c.value v := by
  induction hv with
  | root => cases hc
  | part _ hpart ih =>
    obtain rfl | hc := List.mem_cons.1 hc
    · exact .single hpart
    · exact (ih hc).tail hpart

lemma Leads.head {id : CellId} (hv : h.Leads root path (.pair id)) :
    h.Leads root (.pair id :: path) (h.cell id).head :=
  .part (c := .pair id) hv List.mem_cons_self

lemma Leads.tail {id : CellId} (hv : h.Leads root path (.pair id)) :
    h.Leads root (.pair id :: path) (h.cell id).tail :=
  .part (c := .pair id) hv (List.mem_cons_of_mem _ List.mem_cons_self)

lemma value_of_container? (hv : v.container? = some c) : c.value = v := by
  cases v with
  | pair | vector =>
    cases hv
    rfl
  | _ => cases hv

lemma mem_enter_iff (hpath : ∀ d, d ∈ p.opened ↔ d ∈ path) (d : Container) :
    d ∈ (p.enter c).opened ↔ d ∈ c :: path := by
  rw [Printer.enter, Finset.mem_insert, List.mem_cons, hpath]

/-- As long as the containers of the path are those that are opened, all marks are right. -/
lemma Writes.rightly (hw : h.Writes path p task out p') (hpath : ∀ c, c ∈ p.opened ↔ c ∈ path)
    (htask : ∀ v ∈ task.values, h.Leads root path v) : ∀ piece ∈ out, h.Rightly root piece := by
  induction hw with
  | atom | elided | restNil => exact List.forall_mem_singleton.2 trivial
  | itemsNil => exact nofun
  | again hv hopen =>
    have hleads := htask _ (List.mem_singleton_self _)
    rw [← value_of_container? hv] at hleads
    exact List.forall_mem_singleton.2 ⟨hleads, (hpath _).1 hopen⟩
  | pair hnew hshown hhead hrest ihhead ihrest =>
    have hleads := htask _ (List.mem_singleton_self _)
    obtain rfl := hhead.restores
    rw [List.forall_mem_cons, List.forall_mem_append]
    refine ⟨trivial, ihhead (mem_enter_iff hpath) ?_, ihrest (mem_enter_iff hpath) ?_⟩
    · exact List.forall_mem_singleton.2 hleads.head
    · exact List.forall_mem_singleton.2 hleads.tail
  | vector hnew hshown hitems ihitems =>
    have hleads := htask _ (List.mem_singleton_self _)
    rw [List.forall_mem_cons, List.forall_mem_append, List.forall_mem_singleton]
    refine ⟨trivial, ihitems (mem_enter_iff hpath) fun v hv => ?_, trivial⟩
    exact .part hleads hv
  | restAgain hopen =>
    have hleads := htask _ (List.mem_singleton_self _)
    rw [List.forall_mem_cons, List.forall_mem_cons, List.forall_mem_singleton]
    exact ⟨trivial, ⟨hleads, (hpath _).1 hopen⟩, trivial⟩
  | restPair hnew hhead hrest ihhead ihrest =>
    have hleads := htask _ (List.mem_singleton_self _)
    obtain rfl := hhead.restores
    rw [List.forall_mem_cons, List.forall_mem_append]
    refine ⟨trivial, ihhead (mem_enter_iff hpath) ?_, ihrest (mem_enter_iff hpath) ?_⟩
    · exact List.forall_mem_singleton.2 hleads.head
    · exact List.forall_mem_singleton.2 hleads.tail
  | restOther hnil hpair hvalue ihvalue =>
    rw [List.forall_mem_cons, List.forall_mem_append, List.forall_mem_singleton]
    exact ⟨trivial, ihvalue hpath htask, trivial⟩
  | itemsCons hitem hitems ihitem ihitems =>
    obtain rfl := hitem.restores
    rw [Task.values, List.forall_mem_cons] at htask
    rw [List.forall_mem_cons, List.forall_mem_append]
    refine ⟨trivial, ihitem hpath ?_, ihitems hpath htask.2⟩
    exact List.forall_mem_singleton.2 htask.1

/-- In a value without cycles nothing is marked. -/
lemma Acyclic.isText (hv : h.Acyclic v) {piece : Piece} (hpiece : h.Rightly v piece) :
    piece.IsText := by
  cases piece with
  | text => trivial
  | mark path c => exact hv c.value hpiece.1.within (hpiece.1.inside hpiece.2)

/-! ### Without marks -/

/-- The text of a task is that of the trees that its values unfold to. -/
def Plainly (h : Heap) (p : Printer) (text : List Char) : Task → Prop
  | .value v => ∀ t, h.Expands t v → text = h.writeTree (Datum.shownLevels - p.depth) t
  | .rest _ tail => ∀ t, h.Expands t tail →
      text = h.writeTreeTail (Datum.shownLevels - p.depth) t
  | .items continued values => ∀ ts, h.ExpandsAll ts values →
      text = h.writeTrees (Datum.shownLevels - p.depth) continued ts

lemma writeTreeTail_of_other {t : Tree} (ht : h.Expands t v) (hnil : v ≠ .nil)
    (hpair : ∀ id, v ≠ .pair id) :
    h.writeTreeTail levels t = [' ', '.', ' '] ++ h.writeTree levels t ++ [')'] := by
  cases v with
  | nil => exact absurd rfl hnil
  | pair id => exact absurd rfl (hpair id)
  | vector =>
    obtain ⟨items, rfl, -⟩ := ht.eq_vector
    cases levels <;> simp [writeTreeTail, writeTree]
  | _ =>
    rw [ht.eq_leaf rfl]
    rfl

lemma writeTree_zero {t : Tree} (hv : v.container? = some c) (ht : h.Expands t v) :
    h.writeTree 0 t = c.elided := by
  cases v with
  | pair =>
    cases hv
    obtain ⟨head, tail, rfl, -⟩ := ht.eq_pair
    rfl
  | vector =>
    cases hv
    obtain ⟨items, rfl, -⟩ := ht.eq_vector
    rfl
  | _ => cases hv

lemma levels_of_shown (hshown : p.depth < Datum.shownLevels) (c : Container) :
    Datum.shownLevels - p.depth = Datum.shownLevels - (p.enter c).depth + 1 := by
  rw [Printer.depth_enter]
  omega

/-- Where nothing is marked, values are written as their trees. -/
lemma Writes.plainly (hw : h.Writes path p task out p') (hout : ∀ piece ∈ out, piece.IsText) :
    h.Plainly p (Piece.join out) task := by
  induction hw with
  | atom hv =>
    intro t ht
    rw [ht.eq_leaf hv]
    exact List.append_nil _
  | again => exact (List.forall_mem_singleton.1 hout).elim
  | elided hv hnew hdeep =>
    intro t ht
    rw [Nat.sub_eq_zero_of_le hdeep, writeTree_zero hv ht]
    exact List.append_nil _
  | pair hnew hshown hhead hrest ihhead ihrest =>
    rw [List.forall_mem_cons, List.forall_mem_append] at hout
    obtain rfl := hhead.restores
    intro t ht
    obtain ⟨head, tail, rfl, hthead, httail⟩ := ht.eq_pair
    rw [levels_of_shown hshown, writeTree, ← ihhead hout.2.1 head hthead,
      ← ihrest hout.2.2 tail httail]
    simp
  | vector hnew hshown hitems ihitems =>
    rw [List.forall_mem_cons, List.forall_mem_append] at hout
    intro t ht
    obtain ⟨items, rfl, htitems⟩ := ht.eq_vector
    rw [levels_of_shown hshown, writeTree, ← ihitems hout.2.1 items htitems]
    simp
  | restNil =>
    intro t ht
    rw [ht.eq_leaf rfl]
    rfl
  | restAgain =>
    rw [List.forall_mem_cons, List.forall_mem_cons] at hout
    exact hout.2.1.elim
  | restPair hnew hhead hrest ihhead ihrest =>
    rw [List.forall_mem_cons, List.forall_mem_append] at hout
    obtain rfl := hhead.restores
    intro t ht
    obtain ⟨head, tail, rfl, hthead, httail⟩ := ht.eq_pair
    have hheadtext := ihhead hout.2.1 head hthead
    have hresttext := ihrest hout.2.2 tail httail
    rw [Printer.depth_advance] at hheadtext hresttext
    rw [writeTreeTail, ← hheadtext, ← hresttext]
    simp
  | restOther hnil hpair hvalue ihvalue =>
    rw [List.forall_mem_cons, List.forall_mem_append] at hout
    intro t ht
    rw [writeTreeTail_of_other ht hnil hpair, ← ihvalue hout.2.1 t ht]
    simp
  | itemsNil =>
    intro ts hts
    cases ts with
    | nil => rfl
    | cons t ts =>
      obtain ⟨v, rest, hcons, -⟩ := hts
      cases hcons
  | itemsCons hitem hitems ihitem ihitems =>
    rw [List.forall_mem_cons, List.forall_mem_append] at hout
    obtain rfl := hitem.restores
    intro ts hts
    cases ts with
    | nil => cases hts
    | cons t ts =>
      obtain ⟨v, rest, hcons, ht, hts⟩ := hts
      cases hcons
      rw [writeTrees, ← ihitem hout.2.1 t ht, ← ihitems hout.2.2 ts hts]
      simp

/-! ### The text of a value -/

lemma exists_writes_fresh (h : Heap) (v : Value) :
    ∃ out, h.Writes [] .fresh (.value v) out .fresh ∧ Piece.join out = h.write v ∧
      ∀ piece ∈ out, h.Rightly v piece := by
  obtain ⟨out, hout, htext⟩ :=
    h.writesAs_writeWithin rfl [] .fresh .empty v rfl Printer.agrees_fresh
  refine ⟨out, hout, htext, hout.rightly (fun c => ?_) (List.forall_mem_singleton.2 .root)⟩
  exact iff_of_false (Finset.notMem_empty c) List.not_mem_nil

/-- A value that unfolds to a tree is written as that tree. -/
lemma write_of_expands {t : Tree} (ht : h.Expands t v) :
    h.write v = h.writeTree Datum.shownLevels t := by
  obtain ⟨out, hout, htext, hrightly⟩ := h.exists_writes_fresh v
  have hacyclic : h.Acyclic v := acyclic_iff_expands.2 ⟨t, ht⟩
  rw [← htext]
  exact hout.plainly (fun piece hpiece => hacyclic.isText (hrightly piece hpiece)) t ht

/-- Whatever a printer has opened already and however deep it is, writing a value ends, in one way
only, and leaves the printer as it was. From the start the text is that of the value. A container is
marked only where it is met again inside itself, and a value without cycles is written without marks
as the tree that it unfolds to. -/
theorem printing_ends (h : Heap) :
    (∀ path p v, ∃ out, h.Writes path p (.value v) out p ∧
      ∀ out' p', h.Writes path p (.value v) out' p' → out' = out ∧ p' = p) ∧
    ∀ v, ∃ out, h.Writes [] .fresh (.value v) out .fresh ∧ Piece.join out = h.write v ∧
      (∀ path c, .mark path c ∈ out → h.Leads v path c.value ∧ c ∈ path) ∧
      (h.Acyclic v → (∀ piece ∈ out, piece.IsText) ∧
        ∃ t, h.Expands t v ∧ h.write v = h.writeTree Datum.shownLevels t) := by
  constructor
  · intro path p v
    obtain ⟨out, hout⟩ := h.exists_writes path p v
    exact ⟨out, hout, fun _ _ => hout.unique⟩
  · intro v
    obtain ⟨out, hout, htext, hrightly⟩ := h.exists_writes_fresh v
    refine ⟨out, hout, htext, fun path c hmark => hrightly _ hmark, fun hv => ?_⟩
    obtain ⟨t, ht⟩ := acyclic_iff_expands.1 hv
    exact ⟨fun piece hpiece => hv.isText (hrightly piece hpiece), t, ht, write_of_expands ht⟩

/-- The heap of a ring of two pairs that hold the list `(2)` both. -/
def sharingRing : Heap :=
  { empty with cells := #[⟨.int 2, .nil⟩, ⟨.pair ⟨0⟩, .pair ⟨2⟩⟩, ⟨.pair ⟨0⟩, .pair ⟨1⟩⟩] }

/-- The ring is marked where it closes, and the list that is shared is not. -/
theorem printing_ends_ring : ∃ out, sharingRing.Writes [] .fresh (.value (.pair ⟨1⟩)) out .fresh ∧
    Piece.join out = "((2) (2) . #<cycle>)".toList ∧
    (∀ path c, .mark path c ∈ out → sharingRing.Leads (.pair ⟨1⟩) path c.value ∧ c ∈ path) ∧
    ∃ t, sharingRing.Expands t (.pair ⟨0⟩) ∧
      sharingRing.writeTree Datum.shownLevels t = "(2)".toList := by
  obtain ⟨-, hwrites⟩ := printing_ends sharingRing
  obtain ⟨out, hout, htext, hmarks, -⟩ := hwrites (.pair ⟨1⟩)
  obtain ⟨_, -, -, -, hplain⟩ := hwrites (.pair ⟨0⟩)
  have hlist : sharingRing.Expands (.pair (.leaf (.int 2)) (.leaf .nil)) (.pair ⟨0⟩) :=
    ⟨⟨0⟩, rfl, ⟨rfl, rfl⟩, rfl, rfl⟩
  obtain ⟨-, t, ht, htree⟩ := hplain (acyclic_iff_expands.2 ⟨_, hlist⟩)
  exact ⟨out, hout, htext.trans (by decide +kernel), hmarks, t, ht,
    htree.symm.trans (by decide +kernel)⟩

end HostedLisp.Heap
