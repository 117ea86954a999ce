import HostedLisp.Heap.Equality
import HostedLisp.Proofs.Heap.Acyclic
import Mathlib

/-!
# Equality as bisimilarity

A value unfolds to a tree, an infinite one where it contains itself. Two values are equal exactly
if they unfold to the same tree: the pairs that a comparison has seen and found nothing against are
a bisimulation, and there are only so many pairs of containers to look into. Floating point numbers
are compared as numbers, so none of them may be NaN. Main statement: `equal_iff_unfoldsAlike`.
-/

namespace HostedLisp

/-! ### Floating point numbers -/

namespace FloatEquality

open Float.Model

lemma compare_eq_iff {a b : UnpackedFloat} : a.compare b = some .eq ↔
    (a = b ∧ a ≠ .notANumber) ∨ ∃ s t, a = .zero s ∧ b = .zero t := by
  cases a with
  | infinity s =>
    cases b with
    | infinity t => cases s <;> cases t <;> simp [UnpackedFloat.compare] <;> decide
    | notANumber | zero t | finite t m e hm => cases s <;> simp [UnpackedFloat.compare]
  | notANumber => simp [UnpackedFloat.compare]
  | zero s =>
    cases b with
    | infinity t | finite t m e hm => cases t <;> simp [UnpackedFloat.compare]
    | notANumber | zero t => simp [UnpackedFloat.compare]
  | finite s m e hm =>
    cases b with
    | notANumber | zero t => cases s <;> simp [UnpackedFloat.compare]
    | infinity t => cases t <;> cases s <;> simp [UnpackedFloat.compare]
    | finite t m' e' hm' =>
      cases s <;> cases t <;> simp [UnpackedFloat.compare, Ordering.then_eq_eq, and_comm]

lemma beq_iff {x y : Float} :
    (x == y) = true ↔ x.toModel.unpack.compare y.toModel.unpack = some .eq := by
  show (x.toModel.unpack.compare y.toModel.unpack == some .eq) = true ↔ _
  rw [beq_iff_eq]

lemma symm {x y : Float} (hxy : (x == y) = true) : (y == x) = true := by
  rw [beq_iff, compare_eq_iff] at hxy ⊢
  obtain ⟨heq, hnan⟩ | ⟨s, t, hx, hy⟩ := hxy
  · exact .inl ⟨heq.symm, heq ▸ hnan⟩
  · exact .inr ⟨t, s, hy, hx⟩

lemma trans {x y z : Float} (hxy : (x == y) = true) (hyz : (y == z) = true) :
    (x == z) = true := by
  rw [beq_iff, compare_eq_iff] at hxy hyz ⊢
  obtain ⟨heq, hnan⟩ | ⟨s, t, hx, hy⟩ := hxy
  · rwa [heq]
  · obtain ⟨heq, hnan⟩ | ⟨s', t', hy', hz⟩ := hyz
    · exact .inr ⟨s, t, hx, heq ▸ hy⟩
    · exact .inr ⟨s, t', hx, hz⟩

end FloatEquality

/-! ### Trees -/

/-- What a node of the tree of a value shows. Callables and host objects show which one they are,
pairs and vectors only how many parts they have. -/
inductive Label where
  | nil
  | bool (b : Bool)
  | int (n : Int64)
  | float (x : Float)
  | str (text : String)
  | sym (name : Symbol)
  | pair
  | vector (size : Nat)
  | closure (id : ClosureId)
  | primitive (id : Nat)
  | object (id : ObjectId)

namespace Label

/-- Numbers are the same as numbers: the two zeros are, and NaN is not even itself. -/
inductive Same : Label → Label → Prop
  | number {x y : Float} (hxy : (x == y) = true) : Same (float x) (float y)
  | other {l : Label} (hl : ∀ x, l ≠ float x) : Same l l

lemma Same.eq {l m : Label} (hlm : l.Same m) (hl : ∀ x, l ≠ float x) : l = m := by
  cases hlm with
  | number => exact absurd rfl (hl _)
  | other => rfl

/-- Not a label of NaN. -/
def IsNumber (l : Label) : Prop := ∀ x, l = float x → x.isNaN = false

lemma Same.refl {l : Label} (hl : l.IsNumber) : l.Same l := by
  cases l with
  | float x => exact .number (FloatEquality.refl (hl x rfl))
  | _ => exact .other (by simp)

lemma Same.symm {l m : Label} (hlm : l.Same m) : m.Same l := by
  cases hlm with
  | number hxy => exact .number (FloatEquality.symm hxy)
  | other hl => exact .other hl

lemma Same.trans {l m n : Label} (hlm : l.Same m) (hmn : m.Same n) : l.Same n := by
  cases hlm with
  | other => exact hmn
  | number hxy =>
    cases hmn with
    | number hyz => exact .number (FloatEquality.trans hxy hyz)
    | other hl => exact absurd rfl (hl _)

end Label

namespace Heap

def label (h : Heap) : Value → Label
  | .nil => .nil
  | .bool b => .bool b
  | .int n => .int n
  | .float x => .float x
  | .str text => .str text
  | .sym name => .sym name
  | .pair _ => .pair
  | .vector id => .vector (h.vector id).size
  | .closure id => .closure id
  | .primitive p => .primitive p.id
  | .object id => .object id

/-- The value at the end of a path, which names a part at every step. -/
def node? (h : Heap) (v : Value) : List Nat → Option Value
  | [] => some v
  | i :: path => (h.partsOf v)[i]?.bind fun part => h.node? part path

/-- The tree that a value unfolds to: every path leads to a label or leaves the tree. -/
def tree (h : Heap) (v : Value) (path : List Nat) : Option Label := (h.node? v path).map h.label

/-- Two values unfold to the same tree. -/
def UnfoldsAlike (h : Heap) (a b : Value) : Prop :=
  ∀ path, Option.Rel Label.Same (h.tree a path) (h.tree b path)

/-- A value whose handles the heap has and which is not NaN. -/
structure Admits (h : Heap) (v : Value) : Prop where
  inRange : h.InRange v
  number : (h.label v).IsNumber

/-- No handle in a pair or vector leads nowhere, and no number there is NaN. -/
def Regular (h : Heap) : Prop := ∀ v ∈ h.stored, h.Admits v

/-- The comparison with a bound on the containers it looks into. Where the bound is met, `last`
answers. -/
def equalWithin (h : Heap) (last : ContainerPairs → List (Value × Value) → Bool) :
    Nat → ContainerPairs → List (Value × Value) → Bool
  | 0 => h.settle last
  | budget + 1 => h.settle (h.equalWithin last budget)

variable {h : Heap} {a b c v : Value}

/-! ### Trees step by step -/

lemma tree_cons (h : Heap) (v : Value) (i : Nat) (path : List Nat) :
    h.tree v (i :: path) = (h.partsOf v)[i]?.bind fun part => h.tree part path := by
  rw [tree, node?, Option.map_bind]
  rfl

lemma rel_getElem?_of_forall₂ {R : Value → Value → Prop} {as bs : List Value}
    (hab : List.Forall₂ R as bs) (i : Nat) : Option.Rel R as[i]? bs[i]? := by
  induction hab generalizing i with
  | nil => exact .none
  | cons hhead _ ih =>
    cases i with
    | zero => exact .some hhead
    | succ i => exact ih i

lemma forall₂_of_rel_getElem? {R : Value → Value → Prop} {as bs : List Value}
    (hab : ∀ i : Nat, Option.Rel R as[i]? bs[i]?) : List.Forall₂ R as bs := by
  induction as generalizing bs with
  | nil =>
    cases bs with
    | nil => exact .nil
    | cons b bs => cases hab 0
  | cons a as ih =>
    cases bs with
    | nil => cases hab 0
    | cons b bs =>
      refine .cons ?_ (ih fun i => hab (i + 1))
      cases hab 0 with
      | some hhead => exact hhead

/-- The same tree means the same label and, part by part, the same trees. -/
lemma UnfoldsAlike.parts (hab : h.UnfoldsAlike a b) :
    (h.label a).Same (h.label b) ∧ List.Forall₂ h.UnfoldsAlike (h.partsOf a) (h.partsOf b) := by
  constructor
  · cases hab [] with
    | some hsame => exact hsame
  · refine forall₂_of_rel_getElem? fun i => ?_
    have hpaths (path : List Nat) := hab (i :: path)
    simp only [tree_cons] at hpaths
    cases ha : (h.partsOf a)[i]? with
    | none =>
      cases hb : (h.partsOf b)[i]? with
      | none => exact .none
      | some part =>
        have hroot := hpaths []
        rw [ha, hb] at hroot
        cases hroot
    | some part =>
      cases hb : (h.partsOf b)[i]? with
      | none =>
        have hroot := hpaths []
        rw [ha, hb] at hroot
        cases hroot
      | some part' =>
        refine .some fun path => ?_
        simpa only [ha, hb, Option.bind_some] using hpaths path

/-- A relation that is kept from values to their parts relates only values that unfold to the same
tree. -/
lemma unfoldsAlike_of_bisimulation {R : Value → Value → Prop}
    (hR : ∀ a b, R a b →
      (h.label a).Same (h.label b) ∧ List.Forall₂ R (h.partsOf a) (h.partsOf b))
    (hab : R a b) : h.UnfoldsAlike a b := by
  intro path
  induction path generalizing a b with
  | nil => exact .some (hR a b hab).1
  | cons i path ih =>
    rw [tree_cons, tree_cons]
    cases ha : (h.partsOf a)[i]? with
    | none =>
      have hpart := rel_getElem?_of_forall₂ (hR a b hab).2 i
      rw [ha] at hpart
      cases hb : (h.partsOf b)[i]? with
      | none => exact .none
      | some part =>
        rw [hb] at hpart
        cases hpart
    | some part =>
      have hpart := rel_getElem?_of_forall₂ (hR a b hab).2 i
      rw [ha] at hpart
      cases hb : (h.partsOf b)[i]? with
      | none =>
        rw [hb] at hpart
        cases hpart
      | some part' =>
        rw [hb] at hpart
        cases hpart with
        | some hpart => exact ih hpart

/-! ### An equivalence -/

lemma Regular.admits_part (hh : h.Regular) (hv : h.Admits v) {w : Value}
    (hw : w ∈ h.partsOf v) : h.Admits w :=
  hh w (mem_stored_of_hasPart hv.inRange hw)

lemma UnfoldsAlike.refl (hh : h.Regular) (hv : h.Admits v) : h.UnfoldsAlike v v := by
  refine unfoldsAlike_of_bisimulation (R := fun a b => a = b ∧ h.Admits a) ?_ ⟨rfl, hv⟩
  rintro a _ ⟨rfl, ha⟩
  refine ⟨.refl ha.number, List.forall₂_same.2 fun part hpart => ?_⟩
  exact ⟨rfl, hh.admits_part ha hpart⟩

lemma UnfoldsAlike.symm (hab : h.UnfoldsAlike a b) : h.UnfoldsAlike b a := by
  intro path
  have hpath := hab path
  revert hpath
  generalize h.tree a path = l
  generalize h.tree b path = m
  intro hpath
  cases hpath with
  | none => exact .none
  | some hlm => exact .some hlm.symm

lemma UnfoldsAlike.trans (hab : h.UnfoldsAlike a b) (hbc : h.UnfoldsAlike b c) :
    h.UnfoldsAlike a c := by
  intro path
  have hleft := hab path
  have hright := hbc path
  revert hleft hright
  generalize h.tree a path = l
  generalize h.tree b path = m
  generalize h.tree c path = n
  intro hleft hright
  cases hleft with
  | none => exact hright
  | some hlm =>
    cases hright with
    | some hmn => exact .some (hlm.trans hmn)

/-! ### One look -/

/-- A look that finds no difference and no parts to look at. -/
lemma of_settled_true (hab : h.compareOnce a b = .settled true) :
    a = b ∨ (h.label a).Same (h.label b) ∧ h.partsOf a = [] ∧ h.partsOf b = [] := by
  cases a with
  | float x =>
    cases b with
    | float y =>
      have hxy : (x == y) = true := by simpa [compareOnce] using hab
      exact .inr ⟨.number hxy, rfl, rfl⟩
    | _ => cases hab
  | primitive p =>
    cases b with
    | primitive q =>
      have hid : p.id = q.id := by simpa [compareOnce] using hab
      refine .inr ⟨?_, rfl, rfl⟩
      rw [label, label, hid]
      exact .other (by simp)
    | _ => cases hab
  | pair id =>
    cases b with
    | pair id' =>
      rw [compareOnce] at hab
      split at hab
      case isTrue heq => exact .inl (congrArg Value.pair heq)
      case isFalse => cases hab
    | _ => cases hab
  | vector id =>
    cases b with
    | vector id' =>
      rw [compareOnce] at hab
      split at hab
      case isTrue heq => exact .inl (congrArg Value.vector heq)
      case isFalse => split at hab <;> cases hab
    | _ => cases hab
  | _ => cases b <;> simp_all [compareOnce]

/-- A look that leaves the parts to look at. -/
lemma of_inside {l r : Container} (hab : h.compareOnce a b = .inside l r) :
    a = l.value ∧ b = r.value ∧ (h.label a).Same (h.label b) ∧
      (h.parts l).length = (h.parts r).length := by
  cases a with
  | pair id =>
    cases b with
    | pair id' =>
      rw [compareOnce] at hab
      split at hab <;> cases hab
      exact ⟨rfl, rfl, .other (by simp [label]), rfl⟩
    | _ => cases hab
  | vector id =>
    cases b with
    | vector id' =>
      rw [compareOnce] at hab
      split at hab
      · cases hab
      · split at hab
        case isFalse => cases hab
        case isTrue hsize =>
          cases hab
          refine ⟨rfl, rfl, ?_, by simpa [parts] using hsize⟩
          rw [label, label, hsize]
          exact .other (by simp)
    | _ => cases hab
  | _ => cases b <;> cases hab

/-- A look that finds a difference. -/
lemma of_settled_false (hab : h.compareOnce a b = .settled false) :
    ¬(h.label a).Same (h.label b) := by
  intro hsame
  cases a with
  | float x =>
    cases b with
    | float y =>
      cases hsame with
      | number hxy => simp [compareOnce, hxy] at hab
      | other hl => exact hl _ rfl
    | _ => cases hsame
  | pair id =>
    cases b with
    | pair id' =>
      rw [compareOnce] at hab
      split at hab <;> cases hab
    | _ => cases hsame
  | vector id =>
    cases b with
    | vector id' =>
      have hsize : (h.vector id).size = (h.vector id').size :=
        Label.vector.inj (hsame.eq (by simp [label]))
      rw [compareOnce, if_pos hsize] at hab
      split at hab <;> cases hab
    | _ => cases hsame
  | _ =>
    have heq := hsame.eq (by simp [label])
    cases b <;> simp_all [label, compareOnce]

/-! ### No difference is overlooked -/

/-- What a comparison that has seen these containers together takes as equal. -/
def Passed (h : Heap) (seen : ContainerPairs) (a b : Value) : Prop :=
  h.compareOnce a b = .settled true ∨
    ∃ l r, h.compareOnce a b = .inside l r ∧ seen.contains l r = true

/-- Containers with as many parts, all of which are taken as equal. -/
def PartsPassed (h : Heap) (seen : ContainerPairs) (l r : Container) : Prop :=
  (h.parts l).length = (h.parts r).length ∧
    ∀ p ∈ (h.parts l).zip (h.parts r), h.Passed seen p.1 p.2

/-- What a comparison without differences has seen in the end: everything that was left to compare
is taken as equal, and so are the parts of all containers that it looked into. -/
def Vouches (h : Heap) (seen final : ContainerPairs) (work : List (Value × Value)) : Prop :=
  (∀ l r, seen.contains l r = true → final.contains l r = true) ∧
    (∀ p ∈ work, h.Passed final p.1 p.2) ∧
    ∀ l r, final.contains l r = true → seen.contains l r = true ∨ h.PartsPassed final l r

lemma settle_vouches {expand : ContainerPairs → List (Value × Value) → Bool}
    (hexpand : ∀ seen work, expand seen work = true → ∃ final, h.Vouches seen final work)
    {seen : ContainerPairs} {work : List (Value × Value)}
    (htrue : h.settle expand seen work = true) : ∃ final, h.Vouches seen final work := by
  induction work with
  | nil => exact ⟨seen, fun _ _ hlr => hlr, by simp, fun _ _ hlr => .inl hlr⟩
  | cons p work ih =>
    obtain ⟨a, b⟩ := p
    rw [settle] at htrue
    cases hab : h.compareOnce a b with
    | settled same =>
      rw [hab] at htrue
      cases same with
      | false => cases htrue
      | true =>
        obtain ⟨final, hsub, hwork, hparts⟩ := ih htrue
        exact ⟨final, hsub, List.forall_mem_cons.2 ⟨.inl hab, hwork⟩, hparts⟩
    | inside l r =>
      rw [hab] at htrue
      dsimp only at htrue
      split at htrue
      case isTrue hseen =>
        obtain ⟨final, hsub, hwork, hparts⟩ := ih htrue
        refine ⟨final, hsub, List.forall_mem_cons.2 ⟨?_, hwork⟩, hparts⟩
        exact .inr ⟨l, r, hab, hsub l r hseen⟩
      case isFalse =>
        obtain ⟨final, hsub, hwork, hparts⟩ := hexpand _ _ htrue
        rw [List.forall_mem_append] at hwork
        have hlr : final.contains l r = true := hsub l r (by simp)
        refine ⟨final, fun l' r' hseen => hsub l' r' (by simp [hseen]), ?_, ?_⟩
        · exact List.forall_mem_cons.2 ⟨.inr ⟨l, r, hab, hlr⟩, hwork.2⟩
        · intro l' r' hfinal
          obtain hseen | hpassed := hparts l' r' hfinal
          · rw [ContainerPairs.contains_insert, Bool.or_eq_true, decide_eq_true_eq] at hseen
            obtain ⟨rfl, rfl⟩ | hseen := hseen
            · exact .inr ⟨(of_inside hab).2.2.2, hwork.1⟩
            · exact .inl hseen
          · exact .inr hpassed

lemma equalWithin_vouches {budget : Nat} {seen : ContainerPairs} {work : List (Value × Value)}
    (htrue : h.equalWithin (fun _ _ => false) budget seen work = true) :
    ∃ final, h.Vouches seen final work := by
  induction budget generalizing seen work with
  | zero =>
    refine settle_vouches ?_ htrue
    simp
  | succ budget ih => exact settle_vouches (fun _ _ hw => ih hw) htrue

/-- What a comparison takes as equal in the end is a bisimulation. -/
lemma unfoldsAlike_of_vouches (hh : h.Regular) {final : ContainerPairs}
    {work : List (Value × Value)} (hfinal : h.Vouches .empty final work)
    (ha : h.Admits a) (hb : h.Admits b) (hab : (a, b) ∈ work) : h.UnfoldsAlike a b := by
  obtain ⟨-, hwork, hparts⟩ := hfinal
  refine unfoldsAlike_of_bisimulation
    (R := fun a b => (h.Passed final a b ∨ a = b) ∧ h.Admits a ∧ h.Admits b) ?_
    ⟨.inl (hwork _ hab), ha, hb⟩
  rintro a b ⟨hpassed | rfl, ha, hb⟩
  · obtain hsettled | ⟨l, r, hinside, hlr⟩ := hpassed
    · obtain rfl | ⟨hsame, hnil, hnil'⟩ := of_settled_true hsettled
      · refine ⟨.refl ha.number, List.forall₂_same.2 fun part hpart => ?_⟩
        exact ⟨.inr rfl, hh.admits_part ha hpart, hh.admits_part ha hpart⟩
      · rw [hnil, hnil']
        exact ⟨hsame, .nil⟩
    · obtain ⟨rfl, rfl, hsame, hlength⟩ := of_inside hinside
      refine ⟨hsame, ?_⟩
      obtain hseen | hpassed := hparts l r hlr
      · rw [ContainerPairs.contains_empty] at hseen
        cases hseen
      rw [List.forall₂_iff_zip, partsOf_value, partsOf_value]
      refine ⟨hlength, fun {part part'} hpart => ⟨.inl (hpassed.2 _ hpart), ?_, ?_⟩⟩
      · exact hh.admits_part ha ((partsOf_value h l).symm ▸ (List.of_mem_zip hpart).1)
      · exact hh.admits_part hb ((partsOf_value h r).symm ▸ (List.of_mem_zip hpart).2)
  · refine ⟨.refl ha.number, List.forall₂_same.2 fun part hpart => ?_⟩
    exact ⟨.inr rfl, hh.admits_part ha hpart, hh.admits_part ha hpart⟩

/-! ### The comparison comes to an end -/

/-- All pairs of pairs and all pairs of vectors. -/
def containerPairs (h : Heap) : Finset (Container × Container) :=
  (Finset.range h.cells.size ×ˢ Finset.range h.cells.size).image
      (fun p => (.pair ⟨p.1⟩, .pair ⟨p.2⟩)) ∪
    (Finset.range h.vectors.size ×ˢ Finset.range h.vectors.size).image
      fun p => (.vector ⟨p.1⟩, .vector ⟨p.2⟩)

/-- Those that a comparison has not seen. -/
def unseen (h : Heap) (seen : ContainerPairs) : Finset (Container × Container) :=
  h.containerPairs.filter fun p => seen.contains p.1 p.2 = false

lemma card_unseen_le (h : Heap) (seen : ContainerPairs) :
    (h.unseen seen).card ≤ h.comparisons :=
  calc (h.unseen seen).card
    _ ≤ h.containerPairs.card := Finset.card_filter_le _ _
    _ ≤ _ := Finset.card_union_le _ _
    _ ≤ h.comparisons := by
      refine Nat.add_le_add ?_ ?_ <;>
        exact Finset.card_image_le.trans (by rw [Finset.card_product, Finset.card_range])

lemma mem_containerPairs {l r : Container} (hab : h.compareOnce a b = .inside l r)
    (ha : h.InRange a) (hb : h.InRange b) : (l, r) ∈ h.containerPairs := by
  obtain ⟨rfl, rfl, hsame, -⟩ := of_inside hab
  rw [containerPairs, Finset.mem_union, Finset.mem_image, Finset.mem_image]
  cases l with
  | pair id =>
    cases r with
    | pair id' =>
      refine .inl ⟨(id.index, id'.index), ?_, rfl⟩
      exact Finset.mem_product.2 ⟨Finset.mem_range.2 ha, Finset.mem_range.2 hb⟩
    | vector id' => cases hab
  | vector id =>
    cases r with
    | pair id' => cases hab
    | vector id' =>
      refine .inr ⟨(id.index, id'.index), ?_, rfl⟩
      exact Finset.mem_product.2 ⟨Finset.mem_range.2 ha, Finset.mem_range.2 hb⟩

lemma card_unseen_insert {l r : Container} {seen : ContainerPairs}
    (hlr : (l, r) ∈ h.unseen seen) :
    (h.unseen (seen.insert l r)).card < (h.unseen seen).card := by
  refine Finset.card_lt_card ((Finset.ssubset_iff_of_subset ?_).2 ⟨(l, r), hlr, ?_⟩)
  · intro p hp
    rw [unseen, Finset.mem_filter, ContainerPairs.contains_insert, Bool.or_eq_false_iff] at hp
    exact Finset.mem_filter.2 ⟨hp.1, hp.2.2⟩
  · simp [unseen]

/-- Comparisons that go on in the same way from every new pair of containers agree. -/
lemma settle_congr (hh : h.Regular) {f g : ContainerPairs → List (Value × Value) → Bool}
    {seen : ContainerPairs}
    (hfg : ∀ l r rest, (l, r) ∈ h.unseen seen →
      (∀ p ∈ rest, h.Admits p.1 ∧ h.Admits p.2) →
        f (seen.insert l r) rest = g (seen.insert l r) rest)
    {work : List (Value × Value)} (hwork : ∀ p ∈ work, h.Admits p.1 ∧ h.Admits p.2) :
    h.settle f seen work = h.settle g seen work := by
  induction work with
  | nil => rfl
  | cons p work ih =>
    obtain ⟨a, b⟩ := p
    rw [List.forall_mem_cons] at hwork
    rw [settle, settle]
    cases hab : h.compareOnce a b with
    | settled same =>
      cases same with
      | false => rfl
      | true => exact ih hwork.2
    | inside l r =>
      dsimp only
      split
      case isTrue => exact ih hwork.2
      case isFalse hnew =>
        have hlr := mem_containerPairs hab hwork.1.1.inRange hwork.1.2.inRange
        refine hfg l r _ (Finset.mem_filter.2 ⟨hlr, by simpa using hnew⟩) ?_
        refine List.forall_mem_append.2 ⟨fun q hq => ?_, hwork.2⟩
        obtain ⟨rfl, rfl, -⟩ := of_inside hab
        constructor
        · exact hh.admits_part hwork.1.1 ((partsOf_value h l).symm ▸ (List.of_mem_zip hq).1)
        · exact hh.admits_part hwork.1.2 ((partsOf_value h r).symm ▸ (List.of_mem_zip hq).2)

/-- With a bound of at least the number of unseen pairs, neither the bound nor the answer beyond it
matters. -/
lemma equalWithin_congr (hh : h.Regular)
    (last last' : ContainerPairs → List (Value × Value) → Bool) {budget budget' : Nat}
    {seen : ContainerPairs} {work : List (Value × Value)}
    (hwork : ∀ p ∈ work, h.Admits p.1 ∧ h.Admits p.2)
    (hbudget : (h.unseen seen).card ≤ budget) (hbudget' : (h.unseen seen).card ≤ budget') :
    h.equalWithin last budget seen work = h.equalWithin last' budget' seen work := by
  have hpos {l r : Container} {seen : ContainerPairs} (hlr : (l, r) ∈ h.unseen seen) :
      0 < (h.unseen seen).card := Finset.card_pos.2 ⟨_, hlr⟩
  induction budget generalizing budget' seen work with
  | zero =>
    have hnone {f g : ContainerPairs → List (Value × Value) → Bool} :
        h.settle f seen work = h.settle g seen work := by
      refine settle_congr hh (fun l r rest hlr => ?_) hwork
      exact absurd (hpos hlr) (by omega)
    cases budget' <;> exact hnone
  | succ budget ih =>
    cases budget' with
    | zero =>
      refine settle_congr hh (fun l r rest hlr => ?_) hwork
      exact absurd (hpos hlr) (by omega)
    | succ budget' =>
      refine settle_congr hh (fun l r rest hlr hrest => ?_) hwork
      have hless := card_unseen_insert hlr
      exact ih hrest (by omega) (by omega)

/-! ### The answer -/

lemma equalFrom_eq (h : Heap) (budget : Nat) :
    h.equalFrom budget = h.equalWithin (fun _ _ => true) budget := by
  induction budget with
  | zero => rfl
  | succ budget ih => rw [equalFrom, ih, equalWithin]

lemma equalWithin_eq_equal (hh : h.Regular) (ha : h.Admits a) (hb : h.Admits b)
    (last : ContainerPairs → List (Value × Value) → Bool) {budget : Nat}
    (hbudget : h.comparisons ≤ budget) :
    h.equalWithin last budget .empty [(a, b)] = h.equal a b := by
  rw [equal, equalFrom_eq]
  have hwork : ∀ p ∈ [(a, b)], h.Admits p.1 ∧ h.Admits p.2 :=
    List.forall_mem_singleton.2 ⟨ha, hb⟩
  exact equalWithin_congr hh _ _ hwork ((card_unseen_le h _).trans hbudget) (card_unseen_le h _)

lemma compareOnce_of_unfoldsAlike (hab : h.UnfoldsAlike a b) :
    h.compareOnce a b = .settled true ∨ ∃ l r, h.compareOnce a b = .inside l r ∧
      ∀ p ∈ (h.parts l).zip (h.parts r), h.UnfoldsAlike p.1 p.2 := by
  obtain ⟨hsame, hparts⟩ := hab.parts
  cases hlook : h.compareOnce a b with
  | settled same =>
    cases same with
    | false => exact absurd hsame (of_settled_false hlook)
    | true => exact .inl rfl
  | inside l r =>
    obtain ⟨rfl, rfl, -⟩ := of_inside hlook
    rw [partsOf_value, partsOf_value, List.forall₂_iff_zip] at hparts
    exact .inr ⟨l, r, rfl, fun p hp => hparts.2 hp⟩

lemma equal_iff (hh : h.Regular) (ha : h.Admits a) (hb : h.Admits b) :
    h.equal a b = true ↔ h.UnfoldsAlike a b := by
  constructor
  · intro heq
    rw [← equalWithin_eq_equal hh ha hb (fun _ _ => false) le_rfl] at heq
    obtain ⟨final, hfinal⟩ := equalWithin_vouches heq
    exact unfoldsAlike_of_vouches hh hfinal ha hb (List.mem_singleton_self _)
  · intro hab
    exact equalFrom_of_related (fun _ _ => compareOnce_of_unfoldsAlike)
      (List.forall_mem_singleton.2 hab)

lemma equal_of_identical (hab : identical a b = true) : h.equal a b = true := by
  have hsettled : h.compareOnce a b = .settled true := by
    cases a <;> cases b <;> simp_all [identical, compareOnce]
  refine equalFrom_of_related (R := fun x y => h.compareOnce x y = .settled true)
    (fun _ _ => .inl) (List.forall_mem_singleton.2 hsettled)

/-- In a heap without NaN, however its pairs and vectors are shared or contain themselves, every
comparison ends after looking into at most as many pairs of containers as there are, whatever it
would do after that, and its answer is whether the two values unfold to the same tree. So equality
is an equivalence there, and identical values are equal. -/
theorem equal_iff_unfoldsAlike (hh : h.Regular) :
    (∀ a b, h.Admits a → h.Admits b →
      (∀ last budget, h.comparisons ≤ budget →
        h.equalWithin last budget .empty [(a, b)] = h.equal a b) ∧
      (h.equal a b = true ↔ h.UnfoldsAlike a b)) ∧
    Equivalence (fun a b : {v // h.Admits v} => h.equal a b = true) ∧
    ∀ a b, identical a b = true → h.equal a b = true := by
  refine ⟨fun a b ha hb => ⟨fun last _ => equalWithin_eq_equal hh ha hb last, equal_iff hh ha hb⟩,
    ⟨?_, ?_, ?_⟩, fun _ _ => equal_of_identical⟩
  · intro a
    exact (equal_iff hh a.2 a.2).2 (.refl hh a.2)
  · intro a b hab
    exact (equal_iff hh b.2 a.2).2 ((equal_iff hh a.2 b.2).1 hab).symm
  · intro a b c hab hbc
    have hac := ((equal_iff hh a.2 b.2).1 hab).trans ((equal_iff hh b.2 c.2).1 hbc)
    exact (equal_iff hh a.2 c.2).2 hac

/-- Two endless lists of ones, with a cycle of one pair and a cycle of two. -/
def rings : Heap :=
  { empty with cells := #[⟨.int 1, .pair ⟨0⟩⟩, ⟨.int 1, .pair ⟨2⟩⟩, ⟨.int 1, .pair ⟨1⟩⟩] }

lemma admits_rings {i : Nat} (hi : i < 3) : rings.Admits (.pair ⟨i⟩) :=
  ⟨hi, by simp [label, Label.IsNumber]⟩

lemma regular_rings : rings.Regular := by
  intro v hv
  have hcases : v = .int 1 ∨ v = .pair ⟨0⟩ ∨ v = .pair ⟨2⟩ ∨ v = .pair ⟨1⟩ := by
    simpa [stored, rings, empty, or_assoc, or_comm, or_left_comm] using hv
  obtain rfl | rfl | rfl | rfl := hcases
  · exact ⟨trivial, by simp [label, Label.IsNumber]⟩
  all_goals exact admits_rings (by decide)

theorem equal_iff_unfoldsAlike_rings :
    rings.Regular ∧ rings.equal (.pair ⟨0⟩) (.pair ⟨1⟩) = true ∧
      rings.UnfoldsAlike (.pair ⟨0⟩) (.pair ⟨1⟩) := by
  have hequal : rings.equal (.pair ⟨0⟩) (.pair ⟨1⟩) = true := by decide +kernel
  have hcompared := (equal_iff_unfoldsAlike regular_rings).1 (.pair ⟨0⟩) (.pair ⟨1⟩)
    (admits_rings (by decide)) (admits_rings (by decide))
  exact ⟨regular_rings, hequal, hcompared.2.1 hequal⟩

end Heap

end HostedLisp
