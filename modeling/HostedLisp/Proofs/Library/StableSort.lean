import HostedLisp.Library.Sequence
import Mathlib.Data.List.Perm.Basic
import Mathlib.Tactic.Lemma

/-!
# Stable merging by halves

Merging two lists that are in order, and taking an item of the right one only if it is less than
that of the left one, gives a list in order in which equivalent items keep their order. So does
sorting both halves of a list and merging them. The relation has to be an order on the items of the
list only. Main definitions: `StrictWeakOrder`, `InOrder`, `arranged`. Main statement:
`arranged_inOrder`.
-/

namespace HostedLisp

variable {α : Type} {lt : α → α → Bool} {items left right : List α}

/-- Neither of two items comes before the other. -/
def equivalent (lt : α → α → Bool) (x y : α) : Bool := !lt x y && !lt y x

/-- A strict weak order of the items of a list. -/
structure StrictWeakOrder (lt : α → α → Bool) (items : List α) : Prop where
  irrefl : ∀ x ∈ items, lt x x = false
  trans : ∀ x ∈ items, ∀ y ∈ items, ∀ z ∈ items, lt x y → lt y z → lt x z
  equivalent_trans : ∀ x ∈ items, ∀ y ∈ items, ∀ z ∈ items,
    equivalent lt x y → equivalent lt y z → equivalent lt x z

/-- No item comes before an earlier one, and equivalent items stand as they do in `items`. -/
structure InOrder (lt : α → α → Bool) (items sorted : List α) : Prop where
  ascending : sorted.Pairwise fun x y => lt y x = false
  stable : ∀ x ∈ items, sorted.filter (equivalent lt x) = items.filter (equivalent lt x)

/-- Two lists in one, where an item of the right one comes first only if it is less. -/
abbrev merged (lt : α → α → Bool) (left right : List α) : List α :=
  left.merge right fun x y => !lt y x

/-- Both halves are sorted and merged. -/
def arranged (lt : α → α → Bool) (items : List α) : List α :=
  if items.length ≤ 1 then items
  else merged lt (arranged lt (items.take (items.length / 2)))
    (arranged lt (items.drop (items.length / 2)))
termination_by items.length
decreasing_by all_goals simp only [List.length_take, List.length_drop]; omega

lemma arranged_perm (lt : α → α → Bool) (items : List α) : (arranged lt items).Perm items := by
  fun_induction arranged lt items with
  | case1 => exact .refl _
  | case2 items _ ihl ihr =>
    refine (List.merge_perm_append _).trans ?_
    have hhalves := ihl.append ihr
    rwa [List.take_append_drop] at hhalves

namespace StrictWeakOrder

variable {x y z : α}

variable (h : StrictWeakOrder lt items) (hx : x ∈ items) (hy : y ∈ items) (hz : z ∈ items)

include h hx hy

lemma asymm (hxy : lt x y) : lt y x = false := by
  by_contra hyx
  have hxx := h.trans x hx y hy x hx hxy (by simpa using hyx)
  simp [h.irrefl x hx] at hxx

include hz

/-- What is between two items of which one comes before the other is on one side of one of them. -/
lemma lt_or_lt (hxz : lt x z) : lt x y ∨ lt y z := by
  by_contra hneither
  obtain ⟨hxy, hyz⟩ : lt x y = false ∧ lt y z = false := by simpa using hneither
  -- `y` is equivalent to both, since it would otherwise come before `x` or after `z`
  have hyx : lt y x = false := by
    by_contra hyx
    have := h.trans y hy x hx z hz (by simpa using hyx) hxz
    simp [hyz] at this
  have hzy : lt z y = false := by
    by_contra hzy
    have := h.trans x hx z hz y hy hxz (by simpa using hzy)
    simp [hxy] at this
  have hequivalent := h.equivalent_trans x hx y hy z hz (by simp [equivalent, hxy, hyx])
    (by simp [equivalent, hyz, hzy])
  simp [equivalent, hxz] at hequivalent

/-- What does not come before something not before a third one does not come before that. -/
lemma not_lt_trans (hyx : lt y x = false) (hzy : lt z y = false) : lt z x = false := by
  by_contra hzx
  obtain hzy' | hyx' := h.lt_or_lt hz hy hx (by simpa using hzx)
  · simp [hzy] at hzy'
  · simp [hyx] at hyx'

end StrictWeakOrder

/-- Items behind one that is not before them, and with which they are in order. -/
lemma not_lt_of_ascending {x y : α} (hl : (x :: left).Pairwise fun x y => lt y x = false)
    (hirrefl : lt x x = false) (hy : y ∈ x :: left) : lt y x = false := by
  obtain rfl | hy := List.mem_cons.1 hy
  · exact hirrefl
  · exact List.rel_of_pairwise_cons hl hy

/-- Merging keeps the order. -/
lemma merged_ascending (h : StrictWeakOrder lt items) (hleft : left ⊆ items)
    (hright : right ⊆ items) (hl : left.Pairwise fun x y => lt y x = false)
    (hr : right.Pairwise fun x y => lt y x = false) :
    (merged lt left right).Pairwise fun x y => lt y x = false := by
  induction left generalizing right with
  | nil => simpa [merged] using hr
  | cons a left ihl =>
    induction right with
    | nil => simpa [merged] using hl
    | cons b right ihr =>
      obtain ⟨ha, hleft'⟩ := List.cons_subset.1 hleft
      obtain ⟨hb, hright'⟩ := List.cons_subset.1 hright
      rw [merged, List.cons_merge_cons]
      by_cases hba : lt b a
      · rw [if_neg (by simpa using hba)]
        refine List.pairwise_cons.2 ⟨fun y hy => ?_, ihr hright' hr.tail⟩
        obtain hy | hy := List.mem_merge.1 hy
        · have hya := not_lt_of_ascending hl (h.irrefl a ha) hy
          have hab := h.asymm hb ha hba
          exact h.not_lt_trans hb ha (hleft hy) hab hya
        · exact List.rel_of_pairwise_cons hr hy
      · rw [if_pos (by simpa using hba)]
        refine List.pairwise_cons.2 ⟨fun y hy => ?_, ihl hleft' hright hl.tail hr⟩
        obtain hy | hy := List.mem_merge.1 hy
        · exact List.rel_of_pairwise_cons hl hy
        · have hyb := not_lt_of_ascending hr (h.irrefl b hb) hy
          exact h.not_lt_trans ha hb (hright hy) (by simpa using hba) hyb

/-- Merging keeps equivalent items as they are, those of the left list first. -/
lemma filter_merged (h : StrictWeakOrder lt items) (hleft : left ⊆ items)
    (hright : right ⊆ items) (hl : left.Pairwise fun x y => lt y x = false) {x : α}
    (hx : x ∈ items) :
    (merged lt left right).filter (equivalent lt x) =
      left.filter (equivalent lt x) ++ right.filter (equivalent lt x) := by
  induction left generalizing right with
  | nil => simp [merged]
  | cons a left ihl =>
    induction right with
    | nil => simp [merged]
    | cons b right ihr =>
      obtain ⟨ha, hleft'⟩ := List.cons_subset.1 hleft
      obtain ⟨hb, hright'⟩ := List.cons_subset.1 hright
      rw [merged, List.cons_merge_cons]
      by_cases hba : lt b a
      · rw [if_neg (by simpa using hba), List.filter_cons, ← merged, ihr hright']
        split
        · next hxb =>
          -- everything on the left comes after `b`, so nothing there is equivalent to `x`
          have hnone : (a :: left).filter (equivalent lt x) = [] := by
            rw [List.filter_eq_nil_iff]
            intro y hy hxy
            have hya := not_lt_of_ascending hl (h.irrefl a ha) hy
            have hby : lt b y := by
              obtain hby | hya' := h.lt_or_lt hb (hleft hy) ha hba
              · exact hby
              · simp [hya] at hya'
            have hbx : equivalent lt b x := by simpa [equivalent, and_comm] using hxb
            have hequivalent := h.equivalent_trans b hb x hx y (hleft hy) hbx hxy
            simp [equivalent, hby] at hequivalent
          rw [hnone, List.filter_cons, if_pos hxb]
          rfl
        · next hxb => rw [List.filter_cons (x := b), if_neg hxb]
      · rw [if_pos (by simpa using hba), List.filter_cons, ← merged,
          ihl hleft' hright hl.tail, List.filter_cons (x := a)]
        split <;> rfl

section Halves

variable {all : List α} (h : StrictWeakOrder lt all) (hall : items ⊆ all)

include h hall

lemma arranged_ascending : (arranged lt items).Pairwise fun x y => lt y x = false := by
  fun_induction arranged lt items with
  | case1 items hone =>
    match items, hone with
    | [], _ => exact .nil
    | [x], _ => exact List.pairwise_singleton _ x
  | case2 items _ ihl ihr =>
    have hleft := List.Subset.trans (List.take_subset (items.length / 2) items) hall
    have hright := List.Subset.trans (List.drop_subset (items.length / 2) items) hall
    exact merged_ascending h (List.Subset.trans (arranged_perm lt _).subset hleft)
      (List.Subset.trans (arranged_perm lt _).subset hright) (ihl hleft) (ihr hright)

lemma filter_arranged {x : α} (hx : x ∈ all) :
    (arranged lt items).filter (equivalent lt x) = items.filter (equivalent lt x) := by
  fun_induction arranged lt items with
  | case1 => rfl
  | case2 items _ ihl ihr =>
    have hleft := List.Subset.trans (List.take_subset (items.length / 2) items) hall
    have hright := List.Subset.trans (List.drop_subset (items.length / 2) items) hall
    rw [filter_merged h (List.Subset.trans (arranged_perm lt _).subset hleft)
      (List.Subset.trans (arranged_perm lt _).subset hright) (arranged_ascending h hleft) hx,
      ihl hleft, ihr hright, ← List.filter_append, List.take_append_drop]

end Halves

/-- Sorting both halves and merging them puts the items in order. -/
theorem arranged_inOrder (h : StrictWeakOrder lt items) : InOrder lt items (arranged lt items) :=
  have hall := List.Subset.refl items
  ⟨arranged_ascending h hall, fun _ hx => filter_arranged h hall hx⟩

end HostedLisp
