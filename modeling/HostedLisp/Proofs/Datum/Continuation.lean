import HostedLisp.Proofs.Datum.Recognition

/-!
# Texts that go on

Each part of the grammar leaves an end of the text, and what a part denotes does not change when
more text follows, as long as that does not carry on the token that the part ends with. The
reader looks no further than that, so the same holds of what it reads. Main statement:
`Denotes.append`.
-/

namespace HostedLisp.Datum

variable {comments : Bool} {levels : Nat} {text rest : List Char} {d tail : Datum}
  {items : List Datum}

lemma ends_nil : Ends [] := nofun

lemma Ends.of_delimiter {c : Char} (hc : isDelimiter c = true) : Ends (c :: rest) := by
  rintro _ ⟨rfl⟩
  exact hc

lemma Ends.append {more : List Char} (hrest : Ends rest) (hmore : rest = [] → Ends more) :
    Ends (rest ++ more) := by
  cases rest with
  | nil => exact hmore rfl
  | cons c rest => exact hrest

/-! ### Gaps -/

lemma Gap.suffix (hgap : Gap comments text rest) : rest <:+ text := by
  induction hgap with
  | none => exact List.suffix_rfl
  | separator _ _ ih => exact ih.trans (List.suffix_cons _ _)
  | @comment body text _ _ _ _ ih =>
    have hline : text <:+ ';' :: (body ++ '\n' :: text) :=
      ((List.suffix_cons _ _).trans (List.suffix_append _ _)).trans (List.suffix_cons _ _)
    exact ih.trans hline
  | lastComment => exact List.nil_suffix

lemma Gap.ne_nil {c : Char} (hgap : Gap comments text (c :: rest)) : text ≠ [] := by
  rintro rfl
  cases List.suffix_nil.1 hgap.suffix

/-- A gap that has ended goes no further when more follows. -/
lemma Gap.append (hgap : Gap comments text rest) (hne : rest ≠ []) (more : List Char) :
    Gap comments (text ++ more) (rest ++ more) := by
  induction hgap with
  | none => exact .none _
  | separator hc _ ih => exact .separator hc (ih hne)
  | comment hcomments hbody _ ih =>
    rw [List.cons_append, List.append_assoc, List.cons_append]
    exact .comment hcomments hbody (ih hne)
  | lastComment => exact absurd rfl hne

/-- A new line ends every gap, also one that ends in a comment. -/
lemma Gap.append_line (hgap : Gap comments text []) (more : List Char) :
    Gap comments (text ++ '\n' :: more) more := by
  generalize hrest : ([] : List Char) = rest at hgap
  induction hgap with
  | none text =>
    subst hrest
    exact .separator (by simp) (.none _)
  | separator hc _ ih => exact .separator hc (ih hrest)
  | comment hcomments hbody _ ih =>
    rw [List.cons_append, List.append_assoc, List.cons_append]
    exact .comment hcomments hbody (ih hrest)
  | lastComment hcomments hbody => exact .comment hcomments hbody (.none _)

lemma skip_skip (comments : Bool) (text : List Char) :
    skip comments (skip comments text) = skip comments text :=
  (gap_skip comments text).skip_eq.symm

/-- Nothing is skipped exactly at what is neither a separator nor the start of a comment. -/
lemma skip_eq_self_iff {c : Char} : skip comments (c :: text) = c :: text ↔
    isSeparator c = false ∧ (comments = true → c ≠ ';') := by
  rw [skip, skipFrom]
  by_cases hc : isSeparator c = true
  · rw [if_pos hc]
    refine ⟨fun heq => ?_, fun h => absurd hc (by simp [h.1])⟩
    have hlength := (gap_skipFrom comments text).1.length_le
    rw [heq] at hlength
    exact absurd hlength (by simp)
  · rw [if_neg hc]
    by_cases hcomment : (comments && decide (c = ';')) = true
    · rw [if_pos hcomment]
      simp only [Bool.and_eq_true, decide_eq_true_eq] at hcomment
      refine ⟨fun heq => ?_, fun h => absurd hcomment.2 (h.2 hcomment.1)⟩
      have hlength := ((gap_skipFrom comments text).2 hcomment.1).length_le
      rw [heq, ← hcomment.2] at hlength
      by_cases hline : '\n' ∈ text
      · obtain ⟨body, after, rfl, hbody⟩ := List.eq_append_cons_of_mem hline
        rw [skipFrom_line hbody] at heq
        have hafter := (gap_skipFrom comments after).1.length_le
        rw [heq] at hafter
        simp only [List.length_cons, List.length_append] at hafter
        omega
      · rw [skipFrom_lastLine hline] at heq
        cases heq
    · rw [if_neg hcomment]
      simp only [Bool.and_eq_true, decide_eq_true_eq, not_and] at hcomment
      exact ⟨fun _ => ⟨by simpa using hc, hcomment⟩, fun _ => rfl⟩

lemma skip_append (hne : skip comments text ≠ []) (more : List Char) :
    skip comments (text ++ more) = skip comments text ++ more := by
  obtain ⟨c, start, hstart⟩ := List.exists_cons_of_ne_nil hne
  have hself : skip comments (c :: start) = c :: start := hstart ▸ skip_skip comments text
  rw [((gap_skip comments text).append hne more).skip_eq, hstart]
  exact skip_eq_self_iff.2 (skip_eq_self_iff.1 hself)

/-! ### Strings and points -/

lemma StringBody.suffix {chars : List Char} (hbody : StringBody text chars rest) :
    rest <:+ text := by
  induction hbody with
  | close => exact List.suffix_cons _ _
  | escape _ _ ih => exact ih.trans ((List.suffix_cons _ _).trans (List.suffix_cons _ _))
  | plain _ _ _ ih => exact ih.trans (List.suffix_cons _ _)

lemma StringBody.append {chars : List Char} (hbody : StringBody text chars rest)
    (more : List Char) : StringBody (text ++ more) chars (rest ++ more) := by
  induction hbody with
  | close => exact .close _
  | escape hletter _ ih => exact .escape hletter ih
  | plain hquote hbackslash _ ih => exact .plain hquote hbackslash ih

/-- A point announces a tail if it stands by itself. -/
lemma afterPoint?_eq_some_iff {after : List Char} :
    afterPoint? text = some after ↔ text = '.' :: after ∧ Ends after := by
  unfold afterPoint?
  split
  case h_1 =>
    refine ⟨fun heq => ?_, fun h => congrArg some (List.cons.inj h.1).2⟩
    cases heq
    exact ⟨rfl, ends_nil⟩
  case h_2 c rest =>
    simp only [Option.ite_none_right_eq_some, Option.some.injEq, List.cons.injEq, true_and]
    constructor
    · rintro ⟨hc, rfl⟩
      exact ⟨rfl, by simpa [Ends] using hc⟩
    · rintro ⟨rfl, hends⟩
      exact ⟨hends c rfl, rfl⟩
  case h_3 hsingle hmore =>
    constructor
    · intro hnone
      cases hnone
    · rintro ⟨rfl, -⟩
      cases after with
      | nil => exact absurd rfl hsingle
      | cons c rest => exact absurd rfl (hmore c rest)

lemma afterPoint?_append {after more : List Char} (hafter : afterPoint? text = some after)
    (hmore : after = [] → Ends more) : afterPoint? (text ++ more) = some (after ++ more) := by
  obtain ⟨rfl, hends⟩ := afterPoint?_eq_some_iff.1 hafter
  exact afterPoint?_eq_some_iff.2 ⟨rfl, hends.append hmore⟩

lemma afterPoint?_append_eq_none (hpoint : afterPoint? text = none) (hne : text ≠ [])
    (more : List Char) : afterPoint? (text ++ more) = none := by
  rw [Option.eq_none_iff_forall_ne_some] at hpoint ⊢
  intro after hafter
  obtain ⟨c, rest, rfl⟩ := List.exists_cons_of_ne_nil hne
  obtain ⟨heq, hends⟩ := afterPoint?_eq_some_iff.1 hafter
  obtain ⟨rfl, rfl⟩ := List.cons.inj heq
  have hshort : Ends rest := by
    cases rest with
    | nil => exact ends_nil
    | cons c rest => exact hends
  exact hpoint rest (afterPoint?_eq_some_iff.2 ⟨rfl, hshort⟩)

/-! ### Data inside data -/

section Inner

variable {inner : List Char → Datum → List Char → Prop}

/-- Data leave an end of the text. -/
def LeavesSuffix (inner : List Char → Datum → List Char → Prop) : Prop :=
  ∀ text d rest, inner text d rest → rest <:+ text

/-- Data stay what they are when more text follows that does not carry on their last token. -/
def Appendable (inner : List Char → Datum → List Char → Prop) : Prop :=
  ∀ text d rest more, inner text d rest → (rest = [] → Ends more) →
    inner (text ++ more) d (rest ++ more)

lemma Items.suffix (hinner : LeavesSuffix inner) (hitems : Items comments inner text items rest) :
    rest <:+ text := by
  induction hitems with
  | nil => exact List.suffix_rfl
  | cons hgap hd _ ih => exact ih.trans ((hinner _ _ _ hd).trans hgap.suffix)

lemma Close.suffix (hinner : LeavesSuffix inner) {tailed : Prop}
    (hclose : Close comments inner tailed text tail rest) : rest <:+ text := by
  cases hclose with
  | parenthesis hclose => exact (List.suffix_cons _ _).trans hclose.suffix
  | point _ hpoint _ hgap htail hclose =>
    have hstart := hgap.suffix.trans ((List.suffix_cons _ _).trans hpoint.suffix)
    have hend := (List.suffix_cons _ _).trans hclose.suffix
    exact hend.trans ((hinner _ _ _ htail).trans hstart)

lemma Phrase.suffix (hinner : LeavesSuffix inner)
    (hphrase : Phrase Atom comments inner text d rest) : rest <:+ text := by
  cases hphrase with
  | quote hgap hd => exact ((hinner _ _ _ hd).trans hgap.suffix).trans (List.suffix_cons _ _)
  | vector hitems hclose =>
    have hend := ((List.suffix_cons _ _).trans hclose.suffix).trans (hitems.suffix hinner)
    exact hend.trans ((List.suffix_cons _ _).trans (List.suffix_cons _ _))
  | list hitems hclose =>
    exact ((hclose.suffix hinner).trans (hitems.suffix hinner)).trans (List.suffix_cons _ _)
  | string hbody => exact hbody.suffix.trans (List.suffix_cons _ _)
  | atom => exact List.suffix_append _ _

lemma Items.trans {middle : List Char} {others : List Datum}
    (hitems : Items comments inner text items middle)
    (hothers : Items comments inner middle others rest) :
    Items comments inner text (items ++ others) rest := by
  induction hitems with
  | nil => exact hothers
  | cons hgap hd _ ih => exact .cons hgap hd (ih hothers)

lemma Items.append (hinner : Appendable inner) (hitems : Items comments inner text items rest)
    {more : List Char} (hstarts : ∀ text d rest, inner text d rest → text ≠ [])
    (hmore : rest = [] → Ends more) :
    Items comments inner (text ++ more) items (rest ++ more) := by
  induction hitems with
  | nil => exact .nil _
  | @cons text start next rest d items hgap hd hitems ih =>
    refine .cons (hgap.append (hstarts _ _ _ hd) more) (hinner _ _ _ more hd ?_) (ih hmore)
    rintro rfl
    -- at the end of the text there is no further item
    cases hitems with
    | nil => exact hmore rfl
    | cons hgap hd =>
      have hnil := List.suffix_nil.1 hgap.suffix
      exact absurd hnil (hstarts _ _ _ hd)

lemma Close.ne_nil {tailed : Prop} (hclose : Close comments inner tailed text tail rest) :
    text ≠ [] := by
  cases hclose with
  | parenthesis hclose => exact hclose.ne_nil
  | point _ hpoint => exact hpoint.ne_nil

lemma Close.append (hinner : Appendable inner) {tailed : Prop}
    (hclose : Close comments inner tailed text tail rest)
    (hstarts : ∀ text d rest, inner text d rest → text ≠ []) (more : List Char) :
    Close comments inner tailed (text ++ more) tail (rest ++ more) := by
  cases hclose with
  | parenthesis hclose => exact .parenthesis (hclose.append (by simp) more)
  | point htailed hpoint hc hgap htail hclose =>
    exact .point htailed (hpoint.append (by simp) more) hc (hgap.append (hstarts _ _ _ htail) more)
      (hinner _ _ _ more htail fun hnil => absurd hnil hclose.ne_nil) (hclose.append (by simp) more)

lemma Phrase.append (hinner : Appendable inner)
    (hstarts : ∀ text d rest, inner text d rest → text ≠ [])
    (hphrase : Phrase Atom comments inner text d rest) {more : List Char}
    (hmore : rest = [] → Ends more) :
    Phrase Atom comments inner (text ++ more) d (rest ++ more) := by
  cases hphrase with
  | quote hgap hd =>
    exact .quote (hgap.append (hstarts _ _ _ hd) more) (hinner _ _ _ more hd hmore)
  | vector hitems hclose =>
    exact .vector (hitems.append hinner hstarts fun hnil => absurd hnil hclose.ne_nil)
      (hclose.append (by simp) more)
  | list hitems hclose =>
    exact .list (hitems.append hinner hstarts fun hnil => absurd hnil hclose.ne_nil)
      (hclose.append hinner hstarts more)
  | string hbody => exact .string (hbody.append more)
  | atom htoken hends hd =>
    rw [List.append_assoc]
    exact .atom htoken (hends.append hmore) hd

end Inner

lemma Denotes.ne_nil (hd : Denotes Atom comments levels text d rest) : text ≠ [] :=
  hd.begins.ne_nil

lemma Denotes.suffix (hd : Denotes Atom comments levels text d rest) : rest <:+ text := by
  induction levels generalizing text d rest with
  | zero => exact hd.elim
  | succ levels ih => exact Phrase.suffix (fun _ _ _ => ih) hd

/-- What follows a datum does not change it, unless it carries on the token that it ends with. -/
theorem Denotes.append (hd : Denotes Atom comments levels text d rest) {more : List Char}
    (hmore : rest = [] → Ends more) :
    Denotes Atom comments levels (text ++ more) d (rest ++ more) := by
  induction levels generalizing text d rest more with
  | zero => exact hd.elim
  | succ levels ih =>
    exact Phrase.append (fun _ _ _ _ hd hmore => ih hd hmore) (fun _ _ _ => Denotes.ne_nil) hd hmore

end HostedLisp.Datum
