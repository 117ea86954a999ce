import HostedLisp.Text.Blank
import Mathlib.Data.List.DropRight

/-!
# Blanks at the ends of a text

Trimming takes the blanks at both ends away and nothing else. Main definitions: `Padded`, `Trims`.
Main statement: `trim_eq_iff`.
-/

namespace HostedLisp.Text

variable {text core before after : List Char}

/-- A text is a core with any blanks before and after it. -/
def Padded (text core : List Char) : Prop :=
  ∃ before after, (∀ c ∈ before, isBlank c = true) ∧ (∀ c ∈ after, isBlank c = true) ∧
    text = before ++ core ++ after

/-- A core is what a text is without the blanks at its ends. -/
structure Trims (text core : List Char) : Prop where
  padded : Padded text core
  first : ∀ c ∈ core.head?, isBlank c = false
  last : ∀ c ∈ core.getLast?, isBlank c = false

/-- Where nothing in the core is blank, it is all that is left. -/
lemma Padded.trims (h : Padded text core) (hcore : ∀ c ∈ core, isBlank c = false) :
    Trims text core where
  padded := h
  first c hc := hcore c (List.mem_of_mem_head? hc)
  last c hc := hcore c (List.mem_of_mem_getLast? hc)

lemma trimLeft_append (hbefore : ∀ c ∈ before, isBlank c = true) :
    trimLeft (before ++ text) = trimLeft text :=
  List.dropWhile_append_of_pos hbefore

lemma trimLeft_eq_self (hfirst : ∀ c ∈ text.head?, isBlank c = false) : trimLeft text = text := by
  cases text with
  | nil => rfl
  | cons c text => exact List.dropWhile_cons_of_neg (by simp [hfirst c rfl])

lemma trimRight_append (hafter : ∀ c ∈ after, isBlank c = true) :
    trimRight (text ++ after) = trimRight text := by
  change (trimLeft (text ++ after).reverse).reverse = (trimLeft text.reverse).reverse
  rw [List.reverse_append, trimLeft_append (by simpa using hafter)]

lemma trimRight_eq_self (hlast : ∀ c ∈ text.getLast?, isBlank c = false) :
    trimRight text = text := by
  change (trimLeft text.reverse).reverse = text
  rw [trimLeft_eq_self (by simpa using hlast), List.reverse_reverse]

lemma trims_trim (text : List Char) : Trims text (trim text) where
  padded := by
    refine ⟨text.takeWhile isBlank, (trimLeft text).rtakeWhile isBlank,
      fun c hc => List.mem_takeWhile_imp hc, fun c hc => List.mem_rtakeWhile_imp hc, ?_⟩
    have hright : trim text ++ (trimLeft text).rtakeWhile isBlank = trimLeft text :=
      List.rdropWhile_append_rtakeWhile
    rw [List.append_assoc, hright]
    exact List.takeWhile_append_dropWhile.symm
  first c hc := by
    have hprefix : trim text <+: trimLeft text := List.rdropWhile_prefix _ _
    obtain ⟨rest, hrest⟩ := hprefix
    have hhead := List.head?_dropWhile_not isBlank text
    rw [show text.dropWhile isBlank = trim text ++ rest from hrest.symm] at hhead
    simpa [List.head?_append, Option.mem_def.1 hc] using hhead
  last c hc := by
    obtain ⟨hne, rfl⟩ := List.mem_getLast?_eq_getLast hc
    exact Bool.eq_false_iff.2 (List.rdropWhile_last_not isBlank (trimLeft text) hne)

lemma Trims.trim_eq (h : Trims text core) : trim text = core := by
  obtain ⟨⟨before, after, hbefore, hafter, rfl⟩, hfirst, hlast⟩ := h
  rw [trim, List.append_assoc, trimLeft_append hbefore]
  cases core with
  | nil =>
    have hnil : trimLeft after = [] := List.dropWhile_eq_nil_iff.2 hafter
    rw [List.nil_append, hnil]
    rfl
  | cons c core =>
    rw [trimLeft_eq_self (by simpa using hfirst), trimRight_append hafter,
      trimRight_eq_self hlast]

/-- Trimming leaves exactly the text that stands between the blanks at both ends. -/
theorem trim_eq_iff : trim text = core ↔ Trims text core := by
  constructor
  · rintro rfl
    exact trims_trim text
  · exact Trims.trim_eq

/-- Nothing is left exactly of a text of blanks. -/
lemma trim_eq_nil_iff : trim text = [] ↔ ∀ c ∈ text, isBlank c = true := by
  rw [trim_eq_iff]
  constructor
  · rintro ⟨⟨before, after, hbefore, hafter, rfl⟩, -, -⟩ c hc
    rw [List.append_nil, List.mem_append] at hc
    exact hc.elim (hbefore c) (hafter c)
  · intro hall
    exact ⟨⟨text, [], hall, nofun, by simp⟩, nofun, nofun⟩

end HostedLisp.Text
