import HostedLisp.Proofs.Datum.Image
import HostedLisp.Proofs.Heap.Bisimilarity

/-!
# Reading the text of what was read

The value of a text that was read is written and read again. The new value is equal to the old one
exactly if no number in it is infinite: for trees without undefined numbers equality says that they
are the same tree, and the text of an infinite number is read as a symbol. Main statement:
`Heap.reread_equal_iff`.
-/

namespace HostedLisp.Heap

variable {h h' : Heap} {a b v : Value} {d : Datum}

/-! ### What an equal value tells -/

mutual

/-- If a tree and what its text is read as look the same, it has no infinite numbers. -/
lemma finite_of_unfoldsAlike (d : Datum) {a b : Value} (ha : h.Unfolds d a)
    (hb : h.Unfolds d.reread b) (hab : h.UnfoldsAlike a b) : d.Finite := by
  obtain ⟨hsame, hparts⟩ := hab.parts
  cases d with
  | float x =>
    change x.isFinite = true
    by_contra hx
    rw [Datum.reread, if_neg hx] at hb
    cases ha
    cases hb
    cases hsame
  | pair head tail =>
    obtain ⟨id, rfl, -, hhead, htail⟩ := ha
    obtain ⟨id', rfl, -, hhead', htail'⟩ := hb
    cases hparts with
    | cons hheads htails =>
      cases htails with
      | cons htails =>
        exact ⟨finite_of_unfoldsAlike head hhead hhead' hheads,
          finite_of_unfoldsAlike tail htail htail' htails⟩
  | vector items =>
    obtain ⟨id, rfl, -, hitems⟩ := ha
    obtain ⟨id', rfl, -, hitems'⟩ := hb
    exact allFinite_of_unfoldsAlike items hitems hitems' hparts
  | nil | bool | int | str | sym => trivial

lemma allFinite_of_unfoldsAlike (items : List Datum) {as bs : List Value}
    (ha : h.UnfoldsAll items as) (hb : h.UnfoldsAll (Datum.rereadAll items) bs)
    (hab : List.Forall₂ h.UnfoldsAlike as bs) :
    Datum.AllFloats (fun x => x.isFinite = true) items := by
  cases items with
  | nil => trivial
  | cons d items =>
    obtain ⟨a, as, rfl, ha, has⟩ := ha
    obtain ⟨b, bs, rfl, hb, hbs⟩ := hb
    cases hab with
    | cons hab habs =>
      exact ⟨finite_of_unfoldsAlike d ha hb hab, allFinite_of_unfoldsAlike items has hbs habs⟩

end

/-! ### Placing data in a regular heap -/

lemma Admits.extend (hv : h.Admits v) (hext : h.Extends h') : h'.Admits v := by
  obtain ⟨hrange, hnumber⟩ := hv
  cases v with
  | pair id => exact ⟨hrange.trans_le hext.cells, by simp [label, Label.IsNumber]⟩
  | vector id => exact ⟨hrange.trans_le hext.vectors, by simp [label, Label.IsNumber]⟩
  | _ => exact ⟨trivial, hnumber⟩

lemma admits_of_unfolds (hd : d.Defined) (hv : h.Unfolds d v) : h.Admits v := by
  cases d with
  | pair head tail =>
    obtain ⟨id, rfl, hid, -⟩ := hv
    exact ⟨hid, by simp [label, Label.IsNumber]⟩
  | vector items =>
    obtain ⟨id, rfl, hid, -⟩ := hv
    exact ⟨hid, by simp [label, Label.IsNumber]⟩
  | float x =>
    cases hv
    refine ⟨trivial, fun y hy => ?_⟩
    cases hy
    exact hd
  | nil | bool | int | str | sym =>
    cases hv
    exact ⟨trivial, by simp [label, Label.IsNumber]⟩

lemma admits_of_unfoldsAll {items : List Datum} {values : List Value}
    (hd : Datum.AllFloats (fun x => x.isNaN = false) items) (hv : h.UnfoldsAll items values) :
    ∀ v ∈ values, h.Admits v := by
  induction items generalizing values with
  | nil =>
    cases hv
    simp
  | cons d items ih =>
    obtain ⟨v, rest, rfl, hv, hrest⟩ := hv
    exact List.forall_mem_cons.2 ⟨admits_of_unfolds hd.1 hv, ih hd.2 hrest⟩

lemma regular_newCell (hh : h.Regular) (ha : h.Admits a) (hb : h.Admits b) :
    (h.newCell a b).2.Regular := by
  intro v hv
  have hstored : v ∈ h.stored ∨ v = a ∨ v = b := by
    simp only [stored, newCell, Array.toList_push, List.flatMap_append, List.flatMap_cons,
      List.flatMap_nil, List.mem_append, List.mem_cons, List.not_mem_nil, or_false] at hv ⊢
    tauto
  refine Admits.extend ?_ (extends_newCell a b)
  obtain hv | rfl | rfl := hstored
  · exact hh v hv
  · exact ha
  · exact hb

lemma regular_newVector {values : List Value} (hh : h.Regular)
    (hvalues : ∀ v ∈ values, h.Admits v) : (h.newVector values).2.Regular := by
  intro v hv
  have hstored : v ∈ h.stored ∨ v ∈ values := by
    simp only [stored, newVector, Array.toList_push, List.flatMap_append, List.flatMap_cons,
      List.flatMap_nil, List.mem_append, List.not_mem_nil, or_false] at hv ⊢
    tauto
  refine Admits.extend ?_ (extends_newVector values)
  obtain hv | hv := hstored
  · exact hh v hv
  · exact hvalues v hv

mutual

/-- Placing a datum without undefined numbers keeps a heap regular. -/
lemma regular_place (d : Datum) {h : Heap} (hh : h.Regular) (hd : d.Defined) :
    (h.place d).2.Regular := by
  cases d with
  | pair head tail =>
    have hhead := (place_unfolds h head).2
    obtain ⟨hext, htail⟩ := place_unfolds (h.place head).2 tail
    exact regular_newCell (regular_place tail (regular_place head hh hd.1) hd.2)
      (admits_of_unfolds hd.1 (hhead.extend hext)) (admits_of_unfolds hd.2 htail)
  | vector items =>
    exact regular_newVector (regular_placeAll items hh hd)
      (admits_of_unfoldsAll hd (placeAll_unfolds h items).2)
  | nil | bool | int | float | str | sym => exact hh

lemma regular_placeAll (items : List Datum) {h : Heap} (hh : h.Regular)
    (hd : Datum.AllFloats (fun x => x.isNaN = false) items) : (h.placeAll items).2.Regular := by
  cases items with
  | nil => exact hh
  | cons d items => exact regular_placeAll items (regular_place d hh hd.1) hd.2

end

/-! ### Reading again -/

/-- Whatever text is read, the text of its value is read again. The two values are equal if no
number in the first is infinite and, in a heap without undefined numbers, only then. -/
theorem reread_equal_iff {text : String} {h₁ h₂ : Heap} {w : Value} (h : Heap)
    (hread : Datum.read text = .ok d) (hv : h.place d = (v, h₁))
    (hw : h₁.place d.reread = (w, h₂)) :
    Datum.read (h₁.render v) = .ok d.reread ∧ (d.Finite → h₂.equal v w = true) ∧
      (h.Regular → h₂.equal v w = true → d.Finite) := by
  obtain ⟨-, hdefined, -⟩ := Datum.denotable_of_read hread
  obtain ⟨-, hunfolds⟩ := place_unfolds h d
  obtain ⟨hext, hunfolds'⟩ := place_unfolds h₁ d.reread
  rw [hv] at hunfolds
  rw [hw] at hext hunfolds'
  have hunfolds₂ : h₂.Unfolds d v := hunfolds.extend hext
  refine ⟨?_, fun hfinite => ?_, fun hh heq => ?_⟩
  · rw [render_of_unfolds hunfolds]
    exact Datum.read_render_of_read hread
  · rw [Datum.reread_of_finite d hfinite] at hunfolds'
    exact equal_of_sameTree ⟨d, hdefined, hunfolds₂, hunfolds'⟩
  · have hregular : h₁.Regular := by
      have hplaced := regular_place d hh hdefined
      rwa [hv] at hplaced
    have hregular' : h₂.Regular := by
      have hplaced := regular_place d.reread hregular hdefined.reread
      rwa [hw] at hplaced
    have halike := (equal_iff hregular' (admits_of_unfolds hdefined hunfolds₂)
      (admits_of_unfolds hdefined.reread hunfolds')).1 heq
    exact finite_of_unfoldsAlike d hunfolds₂ hunfolds' halike

/-- The list `(1.5 . x)`. -/
def fraction : Datum := .pair (.float (Decimal.toFloat ⟨false, 15, -1⟩)) (.sym ⟨"x"⟩)

/-- A list with a fraction in it is read again, as an equal list. -/
theorem reread_equal_fraction :
    Datum.read "(1.5 . x)" = .ok fraction ∧ fraction.Finite ∧
      Datum.read ((empty.place fraction).2.render (.pair ⟨0⟩)) = .ok fraction ∧
      ((empty.place fraction).2.place fraction).2.equal (.pair ⟨0⟩) (.pair ⟨1⟩) = true := by
  have hread : Datum.read "(1.5 . x)" = .ok fraction := rfl
  have hnumber : (Decimal.toFloat ⟨false, 15, -1⟩).isFinite = true := by decide +kernel
  have hfinite : fraction.Finite := ⟨hnumber, trivial⟩
  have hagain : fraction.reread = fraction := Datum.reread_of_finite fraction hfinite
  have hw : (empty.place fraction).2.place fraction.reread =
      (.pair ⟨1⟩, ((empty.place fraction).2.place fraction).2) := by
    rw [hagain]
    rfl
  obtain ⟨hread', hequal, -⟩ := reread_equal_iff empty hread rfl hw
  rw [hagain] at hread'
  exact ⟨hread, hfinite, hread', hequal hfinite⟩

/-- The text `1e999` is read as an infinite number, whose text is read as the symbol `inf`. -/
theorem infinity_reread :
    Datum.read "1e999" = .ok (.float (Decimal.toFloat ⟨false, 1, 999⟩)) ∧
      Datum.read (empty.render (.float (Decimal.toFloat ⟨false, 1, 999⟩))) = .ok (.sym ⟨"inf"⟩) ∧
      empty.equal (.float (Decimal.toFloat ⟨false, 1, 999⟩)) (.sym ⟨"inf"⟩) = false := by
  have hdisplay : Decimal.display (Decimal.toFloat ⟨false, 1, 999⟩) = "inf" := by decide +kernel
  have hrender : empty.render (.float (Decimal.toFloat ⟨false, 1, 999⟩)) = "inf" := by
    rw [render_of_unfolds (d := .float (Decimal.toFloat ⟨false, 1, 999⟩)) rfl, Datum.render,
      Datum.write, Datum.writeWithin, hdisplay]
    rfl
  refine ⟨rfl, ?_, rfl⟩
  rw [hrender]
  rfl

end HostedLisp.Heap
