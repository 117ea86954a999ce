import HostedLisp.Proofs.Datum.Image
import HostedLisp.Proofs.Heap.Vocabulary

/-!
# Values on a single line

Strings are written with escapes and numbers as tokens, so the text of a value has a line break in
it only if a word in the heap has one: `Heap.newline_not_mem_render`. Words without line breaks
therefore make a vocabulary whose messages have none either, `Vocabulary.plain`.
-/

namespace HostedLisp

/-- Words and messages without line breaks. -/
def Vocabulary.plain : Vocabulary where
  symbol name := '\n' ∉ name.name.toList
  primitive p := '\n' ∉ p.name.toList
  tag tag := '\n' ∉ tag.toList
  text t := '\n' ∉ t.toList

lemma Datum.IsToken.newline_not_mem {token : List Char} (h : IsToken token) : '\n' ∉ token :=
  fun hmem => absurd (h.2 '\n' hmem) (by decide)

lemma Text.newline_not_mem_quote (text : List Char) : '\n' ∉ quote text := by
  have hescape (c : Char) : '\n' ∉ escape c := by
    unfold escape
    split
    · decide
    · decide
    · decide
    · decide
    · decide
    · next hline _ _ => exact fun hmem => hline (List.mem_singleton.1 hmem).symm
  simp [quote, hescape]

mutual

/-- Whatever is read has names between delimiters, and line breaks are delimiters. -/
lemma Datum.Legible.plain {d : Datum} (hd : d.Legible) : d.In .plain := by
  cases d with
  | sym name => exact hd.1.newline_not_mem
  | pair head tail => exact ⟨Datum.Legible.plain hd.1, Datum.Legible.plain hd.2⟩
  | vector items => exact Datum.AllLegible.plain hd
  | _ => exact trivial

lemma Datum.AllLegible.plain {ds : List Datum} (hds : Datum.AllLegible ds) :
    Datum.AllIn .plain ds := by
  cases ds with
  | nil => exact trivial
  | cons d rest => exact ⟨Datum.Legible.plain hds.1, Datum.AllLegible.plain hds.2⟩

end

namespace Heap

variable {h : Heap} {inner : ContainerSet → Value → List Char}

lemma newline_not_mem_writeNamed {kind name : String} (hkind : '\n' ∉ kind.toList)
    (hname : '\n' ∉ name.toList) : '\n' ∉ writeNamed kind name := by
  simp [writeNamed, String.toList_append, toString, hkind, hname]

lemma newline_not_mem_writeSpine (hh : h.In .plain)
    (hinner : ∀ opened v, v.In .plain → '\n' ∉ inner opened v) (budget : Nat)
    (opened : ContainerSet) {tail : Value} (ht : tail.In .plain) :
    '\n' ∉ h.writeSpine inner budget opened tail := by
  induction budget generalizing opened tail with
  | zero => simp [writeSpine]
  | succ budget ih =>
    cases tail with
    | nil => simp [writeSpine]
    | pair id =>
      rw [writeSpine]
      split
      · decide
      · simp [hinner _ _ (hh.head id), ih _ (hh.tail id)]
    | _ => simp [writeSpine, hinner _ _ ht]

lemma newline_not_mem_writeItems {inner : Value → List Char} {items : List Value}
    (hinner : ∀ v, v.In .plain → '\n' ∉ inner v) (hi : AllIn .plain items) :
    '\n' ∉ writeItems inner items := by
  fun_induction writeItems inner items with
  | case1 => simp
  | case2 value => exact hinner value (AllIn.cons_iff.1 hi).1
  | case3 value rest hne ih =>
    rw [AllIn.cons_iff] at hi
    simp [hinner value hi.1, ih hi.2]

lemma newline_not_mem_writeValue (hh : h.In .plain)
    {parts : Option (ContainerSet → Value → List Char)}
    (hparts : ∀ inner, parts = some inner → ∀ opened v, v.In .plain → '\n' ∉ inner opened v)
    (opened : ContainerSet) {value : Value} (hv : value.In .plain) :
    '\n' ∉ h.writeValue parts opened value := by
  cases value with
  | nil => simp [writeValue]
  | bool b => exact (Datum.isToken_writeBool b).newline_not_mem
  | int n => exact (Datum.isToken_writeInt n).newline_not_mem
  | float x => exact (Datum.legible_float x).1.newline_not_mem
  | str text => exact Text.newline_not_mem_quote _
  | sym name => exact hv
  | pair id =>
    unfold writeValue
    dsimp only
    split
    · decide
    · cases parts with
      | none => exact (by decide : '\n' ∉ Datum.elidedList)
      | some inner =>
        have hinner := hparts inner rfl
        simp [hinner _ _ (hh.head id), newline_not_mem_writeSpine hh hinner _ _ (hh.tail id)]
  | vector id =>
    unfold writeValue
    dsimp only
    split
    · decide
    · cases parts with
      | none => exact (by decide : '\n' ∉ Datum.elidedVector)
      | some inner =>
        simp [newline_not_mem_writeItems (hparts inner rfl _) (hh.slots id)]
  | closure id =>
    refine newline_not_mem_writeNamed (by decide) ?_
    cases hname : (h.closure id).name with
    | none => exact (by decide : '\n' ∉ "anonymous".toList)
    | some name => exact hh.name id name hname
  | primitive p => exact newline_not_mem_writeNamed (by decide) hv
  | object id => exact newline_not_mem_writeNamed (by decide) (hh.tag id)

lemma newline_not_mem_writeWithin (hh : h.In .plain) (levels : Nat) (opened : ContainerSet)
    {value : Value} (hv : value.In .plain) : '\n' ∉ h.writeWithin levels opened value := by
  induction levels generalizing opened value with
  | zero => exact newline_not_mem_writeValue hh (by simp) opened hv
  | succ levels ih =>
    refine newline_not_mem_writeValue hh (fun inner heq => ?_) opened hv
    cases heq
    exact fun opened v hv => ih opened hv

/-- The text of a value has no line break if no word in the heap has one. -/
theorem newline_not_mem_render (hh : h.In .plain) {value : Value} (hv : value.In .plain) :
    '\n' ∉ (h.render value).toList := by
  rw [render, String.toList_ofList]
  exact newline_not_mem_writeWithin hh _ _ hv

end Heap

instance : Vocabulary.plain.Coherent where
  field := (by decide : '\n' ∉ DeviceField.tag.toList)
  read hread := (Datum.denotable_of_read hread).legible.plain
  line hline := hline
  append {a b} ha hb := by
    have hboth : '\n' ∉ a.toList ++ b.toList := List.mem_append.not.2 (not_or.2 ⟨ha, hb⟩)
    rwa [← String.toList_append] at hboth
  symbol hname := hname
  primitive hp := hp
  value hh hv := Heap.newline_not_mem_render hh hv

end HostedLisp
