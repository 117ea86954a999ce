import HostedLisp.Text.Snippet
import Mathlib.Tactic.Lemma

/-!
# What a snippet shows

A position counts bytes, and the characters that a snippet leaves out at the start are counted by
it. So the snippet is right as far as bytes and characters come to the same. Main definition:
`Snippet.Shows`. Main statement: `around_shows_iff`.
-/

namespace HostedLisp.Text

/-! ### Bytes and characters -/

lemma length_le_byteLength (text : List Char) : text.length ≤ byteLength text := by
  induction text with
  | nil => exact Nat.le_refl 0
  | cons c text ih =>
    have hc := c.utf8Size_pos
    rw [List.length_cons, byteLength_cons]
    omega

/-- There are as many bytes as characters exactly if every character is encoded by one byte. -/
lemma byteLength_le_length_iff {text : List Char} :
    byteLength text ≤ text.length ↔ ∀ c ∈ text, c.utf8Size = 1 := by
  induction text with
  | nil => simp
  | cons c text ih =>
    have hc := c.utf8Size_pos
    have htext := length_le_byteLength text
    rw [List.forall_mem_cons, ← ih, List.length_cons, byteLength_cons]
    omega

lemma byteLength_pos {text : List Char} (hne : text ≠ []) : 0 < byteLength text :=
  Nat.lt_of_lt_of_le (List.length_pos_iff.2 hne) (length_le_byteLength text)

namespace Snippet

variable {before after left right : List Char}

/-- A snippet shows the place between `before` and `after` in a text, where `left` and `right` are
the parts that it leaves out. It is a run of the text of limited length, begins not too far before
the place, has the character there if there is one, and is marked where something is left out. -/
structure Shows (s : Snippet) (before after left right : List Char) : Prop where
  run : left ++ s.shown ++ right = before ++ after
  length_le : s.shown.length ≤ width
  near : before.length ≤ left.length + lead
  holds : after ≠ [] →
    left.length ≤ before.length ∧ before.length < left.length + s.shown.length
  cutBefore : s.cutBefore = true ↔ left ≠ []
  cutAfter : s.cutAfter = true ↔ right ≠ []

/-- What comes before the snippet, the snippet, and what comes after it. -/
lemma around_run (text : List Char) (offset : Nat) :
    text.take (offset - lead) ++ (around text offset).shown ++
      text.drop (offset - lead + width) = text := by
  rw [around, ← List.drop_drop, List.append_assoc, List.take_append_drop, List.take_append_drop]

/-- The mark after the snippet compares a number of characters with a number of bytes. -/
lemma around_cutAfter_iff (text : List Char) (offset : Nat) :
    (around text offset).cutAfter = true ↔ offset - lead <
      byteLength (text.take (offset - lead)) + byteLength (text.drop (offset - lead + width)) := by
  have hbytes := congrArg byteLength (around_run text offset)
  rw [byteLength_append, byteLength_append] at hbytes
  change decide (offset - lead + byteLength (around text offset).shown < byteLength text) = true ↔ _
  rw [decide_eq_true_eq]
  omega

/-- The mark after the snippet is right exactly if something is left out there, or all that is left
out before it is encoded by single bytes. -/
lemma around_cutAfter_right_iff (before after : List Char) :
    ((around (before ++ after) (byteLength before)).cutAfter = true ↔
      (before ++ after).drop (byteLength before - lead + width) ≠ []) ↔
      ((before ++ after).length ≤ byteLength before - lead + width →
        ∀ c ∈ (before ++ after).take (byteLength before - lead), c.utf8Size = 1) := by
  rw [around_cutAfter_iff, ← byteLength_le_length_iff, Ne, List.drop_eq_nil_iff, List.length_take]
  have hprefix : byteLength before ≤ byteLength (before ++ after) := by
    rw [byteLength_append]
    omega
  generalize before ++ after = text at hprefix ⊢
  by_cases hend : text.length ≤ byteLength before - lead + width
  · have hright : byteLength (text.drop (byteLength before - lead + width)) = 0 := by
      rw [List.drop_eq_nil_of_le hend, byteLength_nil]
    by_cases hstart : byteLength before - lead ≤ text.length
    · rw [Nat.min_eq_left hstart]
      omega
    · -- the snippet is empty, and more bytes are left out than characters would allow
      have hlead : lead = 20 := rfl
      rw [List.take_of_length_le (by omega : text.length ≤ _)]
      omega
  · have hright : 0 < byteLength (text.drop (byteLength before - lead + width)) :=
      byteLength_pos fun hnil => hend (List.drop_eq_nil_iff.1 hnil)
    have hleft := length_le_byteLength (text.take (byteLength before - lead))
    rw [List.length_take] at hleft
    omega

/-- A snippet around a place shows it exactly if there are not more than twenty bytes beyond one for
each character before the place, unless that is the end of the text, and, where the snippet reaches
the end of the text, all that is left out before it is encoded by single bytes. Everything else that
a snippet is to be it always is. -/
theorem around_shows_iff (before after : List Char) :
    (around (before ++ after) (byteLength before)).Shows before after
      ((before ++ after).take (byteLength before - lead))
      ((before ++ after).drop (byteLength before - lead + width)) ↔
    (after ≠ [] → byteLength before ≤ before.length + lead) ∧
      ((before ++ after).length ≤ byteLength before - lead + width →
        ∀ c ∈ (before ++ after).take (byteLength before - lead), c.utf8Size = 1) := by
  have hbytes := length_le_byteLength before
  have hlength : (before ++ after).length = before.length + after.length := List.length_append
  have hshown : (around (before ++ after) (byteLength before)).shown.length =
      min width ((before ++ after).length - (byteLength before - lead)) := by
    rw [around, List.length_take, List.length_drop]
  have hleft : ((before ++ after).take (byteLength before - lead)).length =
      min (byteLength before - lead) (before ++ after).length := List.length_take
  constructor
  · intro hshows
    refine ⟨fun hafter => ?_, (around_cutAfter_right_iff before after).1 hshows.cutAfter⟩
    obtain ⟨hstart, hwithin⟩ := hshows.holds hafter
    have hpos := List.length_pos_iff.2 hafter
    omega
  · rintro ⟨hplace, hsingle⟩
    have hwidth : width = 100 := rfl
    have hlead : lead = 20 := rfl
    refine ⟨around_run _ _, ?_, ?_, fun hafter => ?_, ?_,
      (around_cutAfter_right_iff before after).2 hsingle⟩
    · omega
    · omega
    · have hpos := List.length_pos_iff.2 hafter
      have hbound := hplace hafter
      omega
    · rw [← List.length_pos_iff, hleft]
      change decide (0 < byteLength before - lead) = true ↔ _
      rw [decide_eq_true_eq]
      have hnonempty : 0 < byteLength before → 0 < before.length := by
        rw [List.length_pos_iff]
        rintro hpos rfl
        exact absurd hpos (Nat.lt_irrefl 0)
      omega

/-- Behind thirty letters of two bytes each and a space, a parenthesis is left out of the snippet
that is to show it. -/
theorem around_beyond_letters :
    let before := List.replicate 30 'é' ++ [' ']
    byteLength before = 61 ∧ ∀ left right,
      ¬(around (before ++ [')']) (byteLength before)).Shows before [')'] left right := by
  refine ⟨rfl, fun left right hshows => ?_⟩
  have hshown : (around ((List.replicate 30 'é' ++ [' ']) ++ [')'])
      (byteLength (List.replicate 30 'é' ++ [' ']))).shown = [] := rfl
  have hplace := hshows.holds (List.cons_ne_nil _ _)
  rw [hshown, List.length_nil] at hplace
  omega

end Snippet

end HostedLisp.Text
