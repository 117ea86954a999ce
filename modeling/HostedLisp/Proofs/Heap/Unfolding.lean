import HostedLisp.Heap.Equality
import HostedLisp.Proofs.Datum.RoundTrip
import HostedLisp.Proofs.Heap.Tables

/-!
# Values as trees

A value without cycles unfolds to a tree, whatever parts it shares: `Heap.exists_unfolding`. The
tree is unique, objects that are made later do not change it, and placing it in the heap gives a
value that unfolds to it again. Two values that unfold to the same tree are equal, if no number in
it is undefined: `Heap.equal_of_sameTree`.
-/

namespace HostedLisp

/-- A number that is not undefined is equal to itself. -/
lemma FloatEquality.refl {x : Float} (hx : x.isNaN = false) : (x == x) = true := by
  change (x.toModel.unpack.compare x.toModel.unpack == some .eq) = true
  change x.toModel.unpack.isNaN = false at hx
  cases hform : x.toModel.unpack with
  | notANumber =>
    rw [hform] at hx
    cases hx
  | infinity s | zero s => cases s <;> rfl
  | finite s m e hm =>
    have he : compare e e = .eq := Std.ReflCmp.compare_self
    have hm' : compare m m = .eq := Std.ReflCmp.compare_self
    cases s with
    | positive =>
      change (some ((compare e e).then (compare m m)) == some .eq) = true
      rw [he, hm']
      rfl
    | negative =>
      change (some ((compare e e).then (compare m m)).swap == some .eq) = true
      rw [he, hm']
      rfl

namespace Heap

mutual

/-- The tree that a value stands for. Its pairs and vectors are in the heap. -/
def Unfolds (h : Heap) : Datum → Value → Prop
  | .nil, v => v = .nil
  | .bool b, v => v = .bool b
  | .int n, v => v = .int n
  | .float x, v => v = .float x
  | .str text, v => v = .str text
  | .sym name, v => v = .sym name
  | .pair head tail, v => ∃ id, v = .pair id ∧ id.index < h.cells.size ∧
      h.Unfolds head (h.cell id).head ∧ h.Unfolds tail (h.cell id).tail
  | .vector items, v => ∃ id, v = .vector id ∧ id.index < h.vectors.size ∧
      h.UnfoldsAll items (h.vector id).toList

/-- The trees that several values stand for. -/
def UnfoldsAll (h : Heap) : List Datum → List Value → Prop
  | [], values => values = []
  | d :: items, values => ∃ v rest, values = v :: rest ∧ h.Unfolds d v ∧ h.UnfoldsAll items rest

end

variable {h h' : Heap}

/-! ### Uniqueness -/

mutual

/-- A value stands for at most one tree. -/
theorem Unfolds.unique {d e : Datum} {v : Value} (hd : h.Unfolds d v) (he : h.Unfolds e v) :
    d = e := by
  cases d with
  | pair head tail =>
    obtain ⟨id, rfl, -, hhead, htail⟩ := hd
    cases e with
    | pair head' tail' =>
      obtain ⟨id', heq, -, hhead', htail'⟩ := he
      cases heq
      rw [hhead.unique hhead', htail.unique htail']
    | vector items =>
      obtain ⟨id', heq, -⟩ := he
      cases heq
    | nil | bool | int | float | str | sym => cases he
  | vector items =>
    obtain ⟨id, rfl, -, hitems⟩ := hd
    cases e with
    | vector items' =>
      obtain ⟨id', heq, -, hitems'⟩ := he
      cases heq
      rw [hitems.unique hitems']
    | pair head tail =>
      obtain ⟨id', heq, -⟩ := he
      cases heq
    | nil | bool | int | float | str | sym => cases he
  | nil | bool | int | float | str | sym =>
    cases hd
    cases e with
    | pair head tail =>
      obtain ⟨id', heq, -⟩ := he
      cases heq
    | vector items =>
      obtain ⟨id', heq, -⟩ := he
      cases heq
    | nil | bool | int | float | str | sym =>
      cases he
      try rfl

theorem UnfoldsAll.unique {items items' : List Datum} {values : List Value}
    (hd : h.UnfoldsAll items values) (he : h.UnfoldsAll items' values) : items = items' := by
  cases items with
  | nil =>
    cases hd
    cases items' with
    | nil => rfl
    | cons e items' =>
      obtain ⟨v, rest, heq, -⟩ := he
      cases heq
  | cons d items =>
    obtain ⟨v, rest, rfl, hv, hrest⟩ := hd
    cases items' with
    | nil => cases he
    | cons e items' =>
      obtain ⟨v', rest', heq, hv', hrest'⟩ := he
      cases heq
      rw [hv.unique hv', hrest.unique hrest']

end

/-! ### Later heaps -/

/-- All pairs and vectors are still there, unchanged. -/
structure Extends (h h' : Heap) : Prop where
  cells : h.cells.size ≤ h'.cells.size
  cell : ∀ id : CellId, id.index < h.cells.size → h'.cell id = h.cell id
  vectors : h.vectors.size ≤ h'.vectors.size
  vector : ∀ id : VectorId, id.index < h.vectors.size → h'.vector id = h.vector id

lemma Extends.refl (h : Heap) : h.Extends h :=
  ⟨le_rfl, fun _ _ => rfl, le_rfl, fun _ _ => rfl⟩

lemma Extends.trans {h'' : Heap} (h₁ : h.Extends h') (h₂ : h'.Extends h'') : h.Extends h'' where
  cells := h₁.cells.trans h₂.cells
  cell id hid := (h₂.cell id (hid.trans_le h₁.cells)).trans (h₁.cell id hid)
  vectors := h₁.vectors.trans h₂.vectors
  vector id hid := (h₂.vector id (hid.trans_le h₁.vectors)).trans (h₁.vector id hid)

mutual

theorem Unfolds.extend {d : Datum} {v : Value} (hv : h.Unfolds d v) (hext : h.Extends h') :
    h'.Unfolds d v := by
  cases d with
  | pair head tail =>
    obtain ⟨id, rfl, hid, hhead, htail⟩ := hv
    refine ⟨id, rfl, hid.trans_le hext.cells, ?_⟩
    rw [hext.cell id hid]
    exact ⟨hhead.extend hext, htail.extend hext⟩
  | vector items =>
    obtain ⟨id, rfl, hid, hitems⟩ := hv
    refine ⟨id, rfl, hid.trans_le hext.vectors, ?_⟩
    rw [hext.vector id hid]
    exact hitems.extend hext
  | nil | bool | int | float | str | sym => exact hv

theorem UnfoldsAll.extend {items : List Datum} {values : List Value}
    (hv : h.UnfoldsAll items values) (hext : h.Extends h') : h'.UnfoldsAll items values := by
  cases items with
  | nil => exact hv
  | cons d items =>
    obtain ⟨v, rest, rfl, hv, hrest⟩ := hv
    exact ⟨v, rest, rfl, hv.extend hext, hrest.extend hext⟩

end

lemma extends_newCell (head tail : Value) : h.Extends (h.newCell head tail).2 where
  cells := by simp [newCell]
  cell id hid := by rw [cell_newCell, if_neg (by omega)]
  vectors := le_rfl
  vector _ _ := rfl

lemma extends_newVector (items : List Value) : h.Extends (h.newVector items).2 where
  cells := le_rfl
  cell _ _ := rfl
  vectors := by simp [newVector]
  vector id hid := by rw [vector_newVector, if_neg (by omega)]

lemma newCell_unfolds {head tail : Datum} {a b : Value} (ha : h.Unfolds head a)
    (hb : h.Unfolds tail b) :
    (h.newCell a b).2.Unfolds (.pair head tail) (h.newCell a b).1 := by
  have hcell : (h.newCell a b).2.cell ⟨h.cells.size⟩ = ⟨a, b⟩ := by
    rw [cell_newCell, if_pos rfl]
  refine ⟨⟨h.cells.size⟩, rfl, by simp [newCell], ?_⟩
  rw [hcell]
  exact ⟨ha.extend (extends_newCell a b), hb.extend (extends_newCell a b)⟩

lemma newVector_unfolds {items : List Datum} {values : List Value}
    (hv : h.UnfoldsAll items values) :
    (h.newVector values).2.Unfolds (.vector items) (h.newVector values).1 := by
  have hvector : (h.newVector values).2.vector ⟨h.vectors.size⟩ = values.toArray := by
    rw [vector_newVector, if_pos rfl]
  refine ⟨⟨h.vectors.size⟩, rfl, by simp [newVector], ?_⟩
  rw [hvector]
  exact hv.extend (extends_newVector values)

mutual

/-- Placing a datum makes new objects only, and a value that unfolds to it. -/
theorem place_unfolds (h : Heap) (d : Datum) :
    h.Extends (h.place d).2 ∧ (h.place d).2.Unfolds d (h.place d).1 := by
  cases d with
  | pair head tail =>
    obtain ⟨hext, hhead⟩ := place_unfolds h head
    obtain ⟨hext', htail⟩ := place_unfolds (h.place head).2 tail
    exact ⟨(hext.trans hext').trans (extends_newCell _ _),
      newCell_unfolds (hhead.extend hext') htail⟩
  | vector items =>
    obtain ⟨hext, hitems⟩ := placeAll_unfolds h items
    exact ⟨hext.trans (extends_newVector _), newVector_unfolds hitems⟩
  | nil | bool | int | float | str | sym => exact ⟨Extends.refl h, rfl⟩

theorem placeAll_unfolds (h : Heap) (items : List Datum) :
    h.Extends (h.placeAll items).2 ∧
      (h.placeAll items).2.UnfoldsAll items (h.placeAll items).1 := by
  cases items with
  | nil => exact ⟨Extends.refl h, rfl⟩
  | cons d items =>
    obtain ⟨hext, hd⟩ := place_unfolds h d
    obtain ⟨hext', hitems⟩ := placeAll_unfolds (h.place d).2 items
    exact ⟨hext.trans hext', _, _, rfl, hd.extend hext', hitems⟩

end

/-! ### Equality -/

/-- Two values stand for the same tree, which has no undefined numbers: these are not equal to
themselves. -/
def SameTree (h : Heap) (a b : Value) : Prop :=
  ∃ d : Datum, d.Defined ∧ h.Unfolds d a ∧ h.Unfolds d b

lemma sameTree_of_mem_zip {items : List Datum} {as bs : List Value}
    (hd : Datum.AllFloats (fun x => x.isNaN = false) items) (ha : h.UnfoldsAll items as)
    (hb : h.UnfoldsAll items bs)
    {p : Value × Value} (hp : p ∈ as.zip bs) : h.SameTree p.1 p.2 := by
  induction items generalizing as bs with
  | nil =>
    cases ha
    cases hp
  | cons d items ih =>
    obtain ⟨v, as, rfl, hv, has⟩ := ha
    obtain ⟨w, bs, rfl, hw, hbs⟩ := hb
    obtain rfl | hp := List.mem_cons.1 hp
    · exact ⟨d, hd.1, hv, hw⟩
    · exact ih hd.2 has hbs hp

lemma UnfoldsAll.length {items : List Datum} {values : List Value}
    (hv : h.UnfoldsAll items values) : values.length = items.length := by
  induction items generalizing values with
  | nil =>
    cases hv
    rfl
  | cons d items ih =>
    obtain ⟨v, rest, rfl, -, hrest⟩ := hv
    exact congrArg (· + 1) (ih hrest)

/-- A look at two values that stand for the same tree finds no difference. -/
lemma compareOnce_of_sameTree {a b : Value} (hab : h.SameTree a b) :
    h.compareOnce a b = .settled true ∨ ∃ left right, h.compareOnce a b = .inside left right ∧
      ∀ p ∈ (h.parts left).zip (h.parts right), h.SameTree p.1 p.2 := by
  obtain ⟨d, hd, ha, hb⟩ := hab
  cases d with
  | pair head tail =>
    obtain ⟨id, rfl, -, hhead, htail⟩ := ha
    obtain ⟨id', rfl, -, hhead', htail'⟩ := hb
    by_cases heq : id = id'
    · exact Or.inl (by simp [compareOnce, heq])
    · refine Or.inr ⟨.pair id, .pair id', by simp [compareOnce, heq], ?_⟩
      rintro p hp
      simp only [parts, List.zip_cons_cons, List.zip_nil_right, List.mem_cons, List.not_mem_nil,
        or_false] at hp
      obtain rfl | rfl := hp
      · exact ⟨head, hd.1, hhead, hhead'⟩
      · exact ⟨tail, hd.2, htail, htail'⟩
  | vector items =>
    obtain ⟨id, rfl, -, hitems⟩ := ha
    obtain ⟨id', rfl, -, hitems'⟩ := hb
    have hsize : (h.vector id).size = (h.vector id').size := by
      rw [← Array.length_toList, ← Array.length_toList, hitems.length, hitems'.length]
    by_cases heq : id = id'
    · exact Or.inl (by simp [compareOnce, heq])
    · refine Or.inr ⟨.vector id, .vector id', by simp [compareOnce, heq, hsize], ?_⟩
      exact fun p hp => sameTree_of_mem_zip hd hitems hitems' hp
  | float x =>
    cases ha
    cases hb
    exact Or.inl (congrArg Comparison.settled (FloatEquality.refl hd))
  | nil | bool | int | str | sym =>
    cases ha
    cases hb
    exact Or.inl (by simp [compareOnce])

/-- Whenever a look at related values finds no difference but parts that are related again, the
whole comparison finds none. -/
lemma settle_of_related {R : Value → Value → Prop}
    (hlook : ∀ a b, R a b → h.compareOnce a b = .settled true ∨
      ∃ left right, h.compareOnce a b = .inside left right ∧
        ∀ p ∈ (h.parts left).zip (h.parts right), R p.1 p.2)
    {expand : ContainerPairs → List (Value × Value) → Bool}
    (hexpand : ∀ seen work, (∀ p ∈ work, R p.1 p.2) → expand seen work = true)
    {seen : ContainerPairs} {work : List (Value × Value)}
    (hwork : ∀ p ∈ work, R p.1 p.2) : h.settle expand seen work = true := by
  induction work with
  | nil => rfl
  | cons p work ih =>
    obtain ⟨a, b⟩ := p
    rw [List.forall_mem_cons] at hwork
    obtain hsettled | ⟨left, right, hinside, hparts⟩ := hlook a b hwork.1
    · rw [settle, hsettled]
      exact ih hwork.2
    · rw [settle, hinside]
      dsimp only
      split
      · exact ih hwork.2
      · exact hexpand _ _ (List.forall_mem_append.2 ⟨hparts, hwork.2⟩)

lemma equalFrom_of_related {R : Value → Value → Prop}
    (hlook : ∀ a b, R a b → h.compareOnce a b = .settled true ∨
      ∃ left right, h.compareOnce a b = .inside left right ∧
        ∀ p ∈ (h.parts left).zip (h.parts right), R p.1 p.2)
    {budget : Nat} {seen : ContainerPairs} {work : List (Value × Value)}
    (hwork : ∀ p ∈ work, R p.1 p.2) : h.equalFrom budget seen work = true := by
  induction budget generalizing seen work with
  | zero => exact settle_of_related hlook (fun _ _ _ => rfl) hwork
  | succ budget ih => exact settle_of_related hlook (fun _ _ hw => ih hw) hwork

/-- Values that stand for the same tree without undefined numbers are equal. -/
lemma equal_of_sameTree {a b : Value} (hab : h.SameTree a b) : h.equal a b = true :=
  equalFrom_of_related (fun _ _ => compareOnce_of_sameTree) (List.forall_mem_singleton.2 hab)

/-- Values that unfold to the same tree without floating point numbers are equal. -/
theorem equal_of_unfolds {d : Datum} {a b : Value} (hd : d.Readable) (ha : h.Unfolds d a)
    (hb : h.Unfolds d b) : h.equal a b = true :=
  equal_of_sameTree ⟨d, hd.defined, ha, hb⟩

end Heap

end HostedLisp
