import HostedLisp.Proofs.Datum.Failures

/-!
# Blanks between tokens

Between tokens one separator is as good as another, and a blank that is no separator is never read.
Where a character stands is decided by quotes, backslashes, semicolons and the ends of lines before
it, without a reader. Main definition: `Region.after`. Main statement: `readAll_respaced_iff`.
-/

namespace HostedLisp.Datum

/-- What a place in a text is inside of. -/
inductive Region where
  /-- Neither a comment nor a string. -/
  | code
  /-- A comment, up to the end of its line. -/
  | comment
  | string
  /-- A string, right after a backslash. -/
  | escape
deriving DecidableEq, Repr

/-- The region after a character. -/
def Region.after : Region → Char → Region
  | code, c => if c = ';' then comment else if c = '"' then string else code
  | comment, c => if c = '\n' then code else comment
  | string, c => if c = '"' then code else if c = '\\' then escape else string
  | escape, _ => string

/-- The region at the end of a text. -/
def regionAfter (text : List Char) : Region := text.foldl Region.after .code

/-- Two texts from some region on that differ only in the separators between tokens. -/
inductive Respaced : Region → List Char → List Char → Prop
  | nil (r : Region) : Respaced r [] []
  | same {r : Region} {c : Char} {text text' : List Char} (h : Respaced (r.after c) text text') :
      Respaced r (c :: text) (c :: text')
  | separator {b c : Char} {text text' : List Char} (hb : isSeparator b = true)
      (hc : isSeparator c = true) (h : Respaced .code text text') :
      Respaced .code (b :: text) (c :: text')

/-- From some region on, every blank that is not in a comment or a string is a separator. -/
def Separated : Region → List Char → Prop
  | _, [] => True
  | r, c :: text => (r = .code → Text.isBlank c = true → isSeparator c = true) ∧
      Separated (r.after c) text

variable {r : Region} {b c : Char} {text text' rest token chars : List Char} {d tail : Datum}
  {items data : List Datum} {levels : Nat}

/-! ### Regions -/

lemma after_code_of_ne (hcomment : c ≠ ';') (hstring : c ≠ '"') : Region.after .code c = .code := by
  rw [Region.after, if_neg hcomment, if_neg hstring]

lemma after_string_of_ne (hquote : c ≠ '"') (hbackslash : c ≠ '\\') :
    Region.after .string c = .string := by
  rw [Region.after, if_neg hquote, if_neg hbackslash]

lemma after_comment_of_ne (hline : c ≠ '\n') : Region.after .comment c = .comment := if_neg hline

lemma after_code_of_not_delimiter (hc : isDelimiter c = false) : Region.after .code c = .code := by
  apply after_code_of_ne
  · rintro rfl
    cases hc
  · rintro rfl
    cases hc

lemma after_code_of_separator (hc : isSeparator c = true) : Region.after .code c = .code := by
  apply after_code_of_ne
  · rintro rfl
    cases hc
  · rintro rfl
    cases hc

/-! ### Other separators -/

namespace Respaced

lemma refl (r : Region) (text : List Char) : Respaced r text text := by
  induction text generalizing r with
  | nil => exact .nil r
  | cons c text ih => exact .same (ih _)

/-- A separator outside of comments and strings is replaced by another one. -/
lemma of_separator {before after : List Char} (hcode : before.foldl Region.after r = .code)
    (hb : isSeparator b = true) (hc : isSeparator c = true) :
    Respaced r (before ++ b :: after) (before ++ c :: after) := by
  induction before generalizing r with
  | nil =>
    obtain rfl : r = .code := hcode
    exact .separator hb hc (refl _ _)
  | cons x before ih => exact .same (ih hcode)

/-- A character that cannot be replaced is the same. -/
lemma cons_inv (h : Respaced r (c :: text) text') (hc : r = .code → isSeparator c = false) :
    ∃ rest, text' = c :: rest ∧ Respaced (r.after c) text rest := by
  cases h with
  | same h => exact ⟨_, rfl, h⟩
  | separator hb =>
    rw [hc rfl] at hb
    cases hb

/-- A separator has become a separator. -/
lemma separator_inv (h : Respaced .code (b :: text) text') (hb : isSeparator b = true) :
    ∃ c rest, text' = c :: rest ∧ isSeparator c = true ∧ Respaced .code text rest := by
  cases h with
  | same h => exact ⟨b, _, rfl, hb, after_code_of_separator hb ▸ h⟩
  | separator _ hc h => exact ⟨_, _, rfl, hc, h⟩

lemma ends (h : Respaced .code rest text') (hends : Ends rest) : Ends text' := by
  cases h with
  | nil | same => exact hends
  | separator _ hc => exact .of_delimiter (isDelimiter_of_isSeparator hc)

lemma token_inv (htoken : ∀ c ∈ token, isDelimiter c = false)
    (h : Respaced .code (token ++ rest) text') :
    ∃ rest', text' = token ++ rest' ∧ Respaced .code rest rest' := by
  induction token generalizing text' with
  | nil => exact ⟨text', rfl, h⟩
  | cons c token ih =>
    rw [List.forall_mem_cons] at htoken
    obtain ⟨after, rfl, hafter⟩ := h.cons_inv fun _ => isSeparator_of_not_delimiter htoken.1
    rw [after_code_of_not_delimiter htoken.1] at hafter
    obtain ⟨rest', rfl, hrest⟩ := ih htoken.2 hafter
    exact ⟨rest', rfl, hrest⟩

/-- A comment is the same up to the end of its line. -/
lemma line_inv {body : List Char} (hbody : '\n' ∉ body)
    (h : Respaced .comment (body ++ '\n' :: rest) text') :
    ∃ rest', text' = body ++ '\n' :: rest' ∧ Respaced .code rest rest' := by
  induction body generalizing text' with
  | nil =>
    obtain ⟨rest', rfl, hrest⟩ := h.cons_inv nofun
    exact ⟨rest', rfl, hrest⟩
  | cons c body ih =>
    rw [List.mem_cons, not_or] at hbody
    obtain ⟨after, rfl, hafter⟩ := h.cons_inv nofun
    rw [after_comment_of_ne (Ne.symm hbody.1)] at hafter
    obtain ⟨rest', rfl, hrest⟩ := ih hbody.2 hafter
    exact ⟨rest', rfl, hrest⟩

lemma lastLine_inv {body : List Char} (hbody : '\n' ∉ body) (h : Respaced .comment body text') :
    text' = body := by
  induction body generalizing text' with
  | nil =>
    cases h
    rfl
  | cons c body ih =>
    rw [List.mem_cons, not_or] at hbody
    obtain ⟨after, rfl, hafter⟩ := h.cons_inv nofun
    rw [after_comment_of_ne (Ne.symm hbody.1)] at hafter
    rw [ih hbody.2 hafter]

end Respaced

/-- A gap is a gap with other separators too. -/
lemma Gap.respaced (hgap : Gap true text rest) (h : Respaced .code text text') :
    ∃ rest', Gap true text' rest' ∧ Respaced .code rest rest' := by
  induction hgap generalizing text' with
  | none => exact ⟨text', .none _, h⟩
  | separator hc _ ih =>
    obtain ⟨c', after, rfl, hc', hafter⟩ := h.separator_inv (isSeparator_iff.2 hc)
    obtain ⟨rest', hgap, hrest⟩ := ih hafter
    exact ⟨rest', .separator (isSeparator_iff.1 hc') hgap, hrest⟩
  | comment hcomments hbody _ ih =>
    obtain ⟨after, rfl, hafter⟩ := h.cons_inv fun _ => rfl
    obtain ⟨next, rfl, hnext⟩ := hafter.line_inv hbody
    obtain ⟨rest', hgap, hrest⟩ := ih hnext
    exact ⟨rest', .comment hcomments hbody hgap, hrest⟩
  | lastComment hcomments hbody =>
    obtain ⟨after, rfl, hafter⟩ := h.cons_inv fun _ => rfl
    obtain rfl := hafter.lastLine_inv hbody
    exact ⟨[], .lastComment hcomments hbody, .nil _⟩

/-- The gap before a character that is no separator. -/
lemma Gap.respaced_to (hgap : Gap true text (c :: rest)) (hc : isSeparator c = false)
    (h : Respaced .code text text') :
    ∃ rest', Gap true text' (c :: rest') ∧ Respaced (Region.after .code c) rest rest' := by
  obtain ⟨after, hgap, hafter⟩ := hgap.respaced h
  obtain ⟨rest', rfl, hrest⟩ := hafter.cons_inv fun _ => hc
  exact ⟨rest', hgap, hrest⟩

lemma StringBody.respaced (hbody : StringBody text chars rest) (h : Respaced .string text text') :
    ∃ rest', StringBody text' chars rest' ∧ Respaced .code rest rest' := by
  induction hbody generalizing text' with
  | close =>
    obtain ⟨rest', rfl, hrest⟩ := h.cons_inv nofun
    exact ⟨rest', .close _, hrest⟩
  | escape hletter _ ih =>
    obtain ⟨after, rfl, hafter⟩ := h.cons_inv nofun
    obtain ⟨next, rfl, hnext⟩ := hafter.cons_inv nofun
    obtain ⟨rest', hbody, hrest⟩ := ih hnext
    exact ⟨rest', .escape hletter hbody, hrest⟩
  | plain hquote hbackslash _ ih =>
    obtain ⟨after, rfl, hafter⟩ := h.cons_inv nofun
    rw [after_string_of_ne hquote hbackslash] at hafter
    obtain ⟨rest', hbody, hrest⟩ := ih hafter
    exact ⟨rest', .plain hquote hbackslash hbody, hrest⟩

section Inner

variable {inner : List Char → Datum → List Char → Prop}

/-- Data stay what they are with other separators between tokens. -/
def Respaceable (inner : List Char → Datum → List Char → Prop) : Prop :=
  ∀ text d rest text', inner text d rest → Respaced .code text text' →
    ∃ rest', inner text' d rest' ∧ Respaced .code rest rest'

lemma Items.respaced (hinner : Respaceable inner) (hitems : Items true inner text items rest)
    (h : Respaced .code text text') :
    ∃ rest', Items true inner text' items rest' ∧ Respaced .code rest rest' := by
  induction hitems generalizing text' with
  | nil => exact ⟨text', .nil _, h⟩
  | cons hgap hd _ ih =>
    obtain ⟨start, hgap, hstart⟩ := hgap.respaced h
    obtain ⟨next, hd, hnext⟩ := hinner _ _ _ _ hd hstart
    obtain ⟨rest', hitems, hrest⟩ := ih hnext
    exact ⟨rest', .cons hgap hd hitems, hrest⟩

lemma Close.respaced (hinner : Respaceable inner) {tailed : Prop}
    (hclose : Close true inner tailed text tail rest) (h : Respaced .code text text') :
    ∃ rest', Close true inner tailed text' tail rest' ∧ Respaced .code rest rest' := by
  cases hclose with
  | parenthesis hclose =>
    obtain ⟨rest', hclose, hrest⟩ := hclose.respaced_to rfl h
    exact ⟨rest', .parenthesis hclose, hrest⟩
  | point htailed hpoint hc hgap htail hclose =>
    obtain ⟨after, hpoint, hafter⟩ := hpoint.respaced_to rfl h
    have hends : Ends after := hafter.ends (.of_delimiter hc)
    obtain ⟨start, hgap, hstart⟩ := hgap.respaced hafter
    obtain ⟨close, htail, hend⟩ := hinner _ _ _ _ htail hstart
    obtain ⟨rest', hclose, hrest⟩ := hclose.respaced_to rfl hend
    cases hafter with
    | same => exact ⟨rest', .point htailed hpoint hc hgap htail hclose, hrest⟩
    | separator => exact ⟨rest', .point htailed hpoint (hends _ rfl) hgap htail hclose, hrest⟩

lemma Phrase.respaced (hinner : Respaceable inner) (hphrase : Phrase Atom true inner text d rest)
    (h : Respaced .code text text') :
    ∃ rest', Phrase Atom true inner text' d rest' ∧ Respaced .code rest rest' := by
  cases hphrase with
  | quote hgap hd =>
    obtain ⟨after, rfl, hafter⟩ := h.cons_inv fun _ => rfl
    obtain ⟨start, hgap, hstart⟩ := hgap.respaced hafter
    obtain ⟨rest', hd, hrest⟩ := hinner _ _ _ _ hd hstart
    exact ⟨rest', .quote hgap hd, hrest⟩
  | vector hitems hclose =>
    obtain ⟨hash, rfl, hhash⟩ := h.cons_inv fun _ => rfl
    obtain ⟨after, rfl, hafter⟩ := hhash.cons_inv fun _ => rfl
    obtain ⟨close, hitems, hend⟩ := hitems.respaced hinner hafter
    obtain ⟨rest', hclose, hrest⟩ := hclose.respaced_to rfl hend
    exact ⟨rest', .vector hitems hclose, hrest⟩
  | list hitems hclose =>
    obtain ⟨after, rfl, hafter⟩ := h.cons_inv fun _ => rfl
    obtain ⟨close, hitems, hend⟩ := hitems.respaced hinner hafter
    obtain ⟨rest', hclose, hrest⟩ := hclose.respaced hinner hend
    exact ⟨rest', .list hitems hclose, hrest⟩
  | string hbody =>
    obtain ⟨after, rfl, hafter⟩ := h.cons_inv fun _ => rfl
    obtain ⟨rest', hbody, hrest⟩ := hbody.respaced hafter
    exact ⟨rest', .string hbody, hrest⟩
  | atom htoken hends hd =>
    obtain ⟨rest', rfl, hrest⟩ := h.token_inv htoken.2
    exact ⟨rest', .atom htoken (hrest.ends hends) hd, hrest⟩

end Inner

lemma denotes_respaceable (levels : Nat) : Respaceable (Denotes Atom true levels) := by
  induction levels with
  | zero => exact fun _ _ _ _ hd => hd.elim
  | succ levels ih => exact fun _ _ _ _ hd h => Phrase.respaced ih hd h

/-- What is read is read with other separators between tokens. -/
lemma readAllChars_respaced (hread : readAllChars text = .ok data)
    (h : Respaced .code text text') : readAllChars text' = .ok data := by
  obtain ⟨close, hlead, hend⟩ := readAllChars_iff.1 hread
  obtain ⟨close', hlead, hclose⟩ := hlead.respaced (denotes_respaceable maxLevels) h
  obtain ⟨rest, hend, hrest⟩ := hend.respaced hclose
  cases hrest
  exact readAllChars_iff.2 ⟨close', hlead, hend⟩

/-! ### Other blanks -/

namespace Separated

/-- A character of the code that is no blank. -/
lemma mark (hc : Text.isBlank c = false) (h : Separated (Region.after .code c) text) :
    Separated .code (c :: text) := by
  refine ⟨fun _ hblank => ?_, h⟩
  rw [hc] at hblank
  cases hblank

lemma of_token (htoken : ∀ c ∈ token, isDelimiter c = false) (h : Separated .code rest) :
    Separated .code (token ++ rest) := by
  induction token with
  | nil => exact h
  | cons c token ih =>
    rw [List.forall_mem_cons] at htoken
    refine mark (isBlank_of_not_delimiter htoken.1) ?_
    rw [after_code_of_not_delimiter htoken.1]
    exact ih htoken.2

lemma of_line {body : List Char} (hbody : '\n' ∉ body) (h : Separated .code rest) :
    Separated .comment (body ++ '\n' :: rest) := by
  induction body with
  | nil => exact ⟨nofun, h⟩
  | cons c body ih =>
    rw [List.mem_cons, not_or] at hbody
    refine ⟨nofun, ?_⟩
    rw [after_comment_of_ne (Ne.symm hbody.1)]
    exact ih hbody.2

lemma of_lastLine {body : List Char} (hbody : '\n' ∉ body) : Separated .comment body := by
  induction body with
  | nil => trivial
  | cons c body ih =>
    rw [List.mem_cons, not_or] at hbody
    refine ⟨nofun, ?_⟩
    rw [after_comment_of_ne (Ne.symm hbody.1)]
    exact ih hbody.2

lemma of_gap (hgap : Gap true text rest) (h : Separated .code rest) : Separated .code text := by
  induction hgap with
  | none => exact h
  | separator hc _ ih =>
    rw [← isSeparator_iff] at hc
    refine ⟨fun _ _ => hc, ?_⟩
    rw [after_code_of_separator hc]
    exact ih h
  | comment _ hbody _ ih => exact mark rfl (of_line hbody (ih h))
  | lastComment _ hbody => exact mark rfl (of_lastLine hbody)

lemma of_body (hbody : StringBody text chars rest) (h : Separated .code rest) :
    Separated .string text := by
  induction hbody with
  | close => exact ⟨nofun, h⟩
  | escape _ _ ih => exact ⟨nofun, nofun, ih h⟩
  | plain hquote hbackslash _ ih =>
    refine ⟨nofun, ?_⟩
    rw [after_string_of_ne hquote hbackslash]
    exact ih h

section Inner

variable {inner : List Char → Datum → List Char → Prop}
  (hinner : ∀ text d rest, inner text d rest → Separated .code rest → Separated .code text)
include hinner

lemma of_items (hitems : Items true inner text items rest) (h : Separated .code rest) :
    Separated .code text := by
  induction hitems with
  | nil => exact h
  | cons hgap hd _ ih => exact of_gap hgap (hinner _ _ _ hd (ih h))

lemma of_close {tailed : Prop} (hclose : Close true inner tailed text tail rest)
    (h : Separated .code rest) : Separated .code text := by
  have hend {text : List Char} (hclose : Gap true text (')' :: rest)) : Separated .code text :=
    of_gap hclose (mark rfl h)
  cases hclose with
  | parenthesis hclose => exact hend hclose
  | point _ hpoint _ hgap htail hclose =>
    exact of_gap hpoint (mark rfl (of_gap hgap (hinner _ _ _ htail (hend hclose))))

lemma of_phrase (hphrase : Phrase Atom true inner text d rest) (h : Separated .code rest) :
    Separated .code text := by
  cases hphrase with
  | quote hgap hd => exact mark rfl (of_gap hgap (hinner _ _ _ hd h))
  | vector hitems hclose =>
    exact mark rfl (mark rfl (of_items hinner hitems (of_gap hclose (mark rfl h))))
  | list hitems hclose => exact mark rfl (of_items hinner hitems (of_close hinner hclose h))
  | string hbody => exact mark rfl (of_body hbody h)
  | atom htoken => exact of_token htoken.2 h

end Inner

lemma of_denotes (hd : Denotes Atom true levels text d rest) (h : Separated .code rest) :
    Separated .code text := by
  induction levels generalizing text d rest with
  | zero => exact hd.elim
  | succ levels ih => exact of_phrase (fun _ _ _ => ih) hd h

/-- In a text that is read, the only blanks between tokens are separators. -/
lemma of_read (hread : readAllChars text = .ok data) : Separated .code text := by
  obtain ⟨close, hlead, hend⟩ := readAllChars_iff.1 hread
  exact of_items (fun _ _ _ => of_denotes) hlead (of_gap hend trivial)

lemma isSeparator_of_code {before after : List Char} (h : Separated r (before ++ c :: after))
    (hcode : before.foldl Region.after r = .code) (hc : Text.isBlank c = true) :
    isSeparator c = true := by
  induction before generalizing r with
  | nil => exact h.1 hcode hc
  | cons x before ih => exact ih h.2 hcode

end Separated

/-! ### Replacing a blank -/

lemma toList_blank (before after : String) (c : Char) :
    (before ++ String.singleton c ++ after).toList = before.toList ++ c :: after.toList := by
  rw [String.toList_append, String.toList_append, String.toList_singleton, List.append_assoc]
  rfl

/-- Not all white space is equal. A blank of a text that is read, outside of its strings, of its
comments and of the ends of their lines, can be replaced by another blank exactly if that is a
separator: a space, a tab, a carriage return or a new line. Then the same data are read. Any other
blank there makes the text an error. -/
theorem readAll_respaced_iff {before after : String} {b c : Char} {data : List Datum}
    (hread : readAll (before ++ String.singleton b ++ after) = .ok data)
    (hcode : regionAfter before.toList = .code) (hb : Text.isBlank b = true)
    (hc : Text.isBlank c = true) :
    (readAll (before ++ String.singleton c ++ after) = .ok data ↔ c ∈ [' ', '\t', '\r', '\n']) ∧
      (c ∉ [' ', '\t', '\r', '\n'] →
        ∃ e, readAll (before ++ String.singleton c ++ after) = .error e) := by
  rw [readAll, toList_blank] at hread ⊢
  have hseparator (data : List Datum)
      (hread : readAllChars (before.toList ++ c :: after.toList) = .ok data) :
      isSeparator c = true :=
    (Separated.of_read hread).isSeparator_of_code hcode hc
  rw [← isSeparator_iff]
  refine ⟨⟨hseparator data, fun hc => ?_⟩, fun hc => ?_⟩
  · have hb : isSeparator b = true := (Separated.of_read hread).isSeparator_of_code hcode hb
    exact readAllChars_respaced hread (.of_separator hcode hb hc)
  · cases hread : readAllChars (before.toList ++ c :: after.toList) with
    | error e => exact ⟨e, rfl⟩
    | ok data => exact absurd (hseparator data hread) hc

/-- The space between two elements of a list may be a tab. -/
theorem readAll_respaced_iff_tab :
    readAll "(a b)" = .ok [.list [.sym ⟨"a"⟩, .sym ⟨"b"⟩]] ∧
      regionAfter "(a".toList = .code ∧ Text.isBlank ' ' = true ∧ Text.isBlank '\t' = true ∧
      readAll ("(a" ++ String.singleton '\t' ++ "b)") = .ok [.list [.sym ⟨"a"⟩, .sym ⟨"b"⟩]] := by
  have hread : readAll ("(a" ++ String.singleton ' ' ++ "b)") =
      .ok [.list [.sym ⟨"a"⟩, .sym ⟨"b"⟩]] := rfl
  have htab : Text.isBlank '\t' = true := rfl
  exact ⟨rfl, rfl, rfl, rfl, (readAll_respaced_iff hread rfl rfl htab).1.2 (by decide)⟩

/-- A form feed ends the first element of a list like the space in its place, but nothing is read
after it. -/
theorem readAll_form_feed_between :
    readAll "(a b)" = .ok [.list [.sym ⟨"a"⟩, .sym ⟨"b"⟩]] ∧ regionAfter "(a".toList = .code ∧
      Text.isBlank ' ' = true ∧ Text.isBlank '\x0c' = true ∧
      ∃ e, readAll "(a\x0cb)" = .error e :=
  ⟨rfl, rfl, rfl, rfl, _, rfl⟩

end HostedLisp.Datum
