import HostedLisp.Proofs.Datum.Unfinished

/-!
# Progress of the reader

The loops of the reader need no bound. Here they go round as long as there is something to read, and
end nevertheless, with what the bounded reader reads: each round takes something, and what is left
is always an end of the text. So is what is left where a reader fails, and the error of a text tells
at which byte it begins. Main definitions: `Datum.Scans`, `Datum.ScansElements`, `Datum.Proceeds`,
`Datum.Located`. Main statement: `Datum.reader_progresses`.
-/

namespace HostedLisp.Datum

variable {comments dotted : Bool} {depth levels : Nat} {text rest chars : List Char}
  {d tail : Datum} {items : List Datum} {f : Failure}

/-! ### Loops without a bound -/

/-- Separators and comments are left out as long as there are any. -/
inductive ScansGap (comments : Bool) : List Char → List Char → Prop
  | token {text : List Char}
      (hcomment : comments = true → ∀ body, text.dropWhile isSeparator ≠ ';' :: body) :
      ScansGap comments text (text.dropWhile isSeparator)
  | comment {text body rest : List Char} (hcomments : comments = true)
      (hbody : text.dropWhile isSeparator = ';' :: body)
      (hrest : ScansGap comments (body.dropWhile (· != '\n')) rest) : ScansGap comments text rest

/-- Characters are added to those of a string up to its closing quote. -/
inductive ScansString : List Char → List Char → Reading (List Char) → Prop
  | ended (chars : List Char) : ScansString chars [] (.error ⟨.unexpected, []⟩)
  | endedEscape (chars : List Char) : ScansString chars ['\\'] (.error ⟨.unexpected, []⟩)
  | close (chars rest : List Char) : ScansString chars ('"' :: rest) (.ok (chars, rest))
  | unknown {chars text : List Char} {letter : Char} (hletter : Text.unescape? letter = none) :
      ScansString chars ('\\' :: letter :: text) (.error ⟨.badEscape, '\\' :: letter :: text⟩)
  | escape {chars text : List Char} {letter c : Char} {reading : Reading (List Char)}
      (hletter : Text.unescape? letter = some c)
      (hrest : ScansString (chars ++ [c]) text reading) :
      ScansString chars ('\\' :: letter :: text) reading
  | plain {chars text : List Char} {c : Char} {reading : Reading (List Char)} (hquote : c ≠ '"')
      (hbackslash : c ≠ '\\') (hrest : ScansString (chars ++ [c]) text reading) :
      ScansString chars (c :: text) reading

/-- The elements so far, and those that are read after them. -/
def onto (items : List Datum) (reading : Reading (List Datum × Datum)) :
    Reading (List Datum × Datum) :=
  reading.map fun ((more, tail), rest) => ((items ++ more, tail), rest)

/-- Neither a quote nor a list, a vector or a string begins. -/
def OpensNothing (text : List Char) : Prop :=
  (∀ rest, text ≠ '\'' :: rest) ∧ (∀ rest, text ≠ '#' :: '(' :: rest) ∧
    (∀ rest, text ≠ '(' :: rest) ∧ ∀ rest, text ≠ '"' :: rest

mutual

/-- A datum that stands at a depth is read. -/
inductive Scans (comments : Bool) : Nat → List Char → Reading Datum → Prop
  | tooDeep {depth : Nat} {text : List Char} (hdepth : maxLevels ≤ depth) :
      Scans comments depth text (.error ⟨.tooDeep, text⟩)
  | quote {depth : Nat} {text rest : List Char} {found : Reading Datum} (hdepth : depth < maxLevels)
      (hskip : skip comments text = '\'' :: rest) (hfound : Scans comments (depth + 1) rest found) :
      Scans comments depth text (found.map fun (d, rest) => (quoted d, rest))
  | vector {depth : Nat} {text rest : List Char} {found : Reading (List Datum × Datum)}
      (hdepth : depth < maxLevels) (hskip : skip comments text = '#' :: '(' :: rest)
      (hfound : ScansElements comments depth false [] rest found) :
      Scans comments depth text (found.map fun ((items, _), rest) => (vector items, rest))
  | list {depth : Nat} {text rest : List Char} {found : Reading (List Datum × Datum)}
      (hdepth : depth < maxLevels) (hskip : skip comments text = '(' :: rest)
      (hfound : ScansElements comments depth true [] rest found) :
      Scans comments depth text (found.map fun ((items, tail), rest) => (chain items tail, rest))
  | string {depth : Nat} {text rest : List Char} {found : Reading (List Char)}
      (hdepth : depth < maxLevels) (hskip : skip comments text = '"' :: rest)
      (hfound : ScansString [] rest found) :
      Scans comments depth text (found.map fun (chars, rest) => (str (String.ofList chars), rest))
  | atom {depth : Nat} {text : List Char} (hdepth : depth < maxLevels)
      (hopens : OpensNothing (skip comments text)) :
      Scans comments depth text (readAtom (skip comments text))

/-- Elements are added to those of a list or vector up to the closing parenthesis. -/
inductive ScansElements (comments : Bool) :
    Nat → Bool → List Datum → List Char → Reading (List Datum × Datum) → Prop
  | close {depth : Nat} {dotted : Bool} {items : List Datum} {text rest : List Char}
      (hclose : skip comments text = ')' :: rest) :
      ScansElements comments depth dotted items text (.ok ((items, nil), rest))
  | tail {depth : Nat} {dotted : Bool} {items : List Datum} {text after : List Char}
      {found : Reading Datum} (hallowed : dotted = true ∧ items ≠ [])
      (hpoint : afterPoint? (skip comments text) = some after)
      (hfound : Scans comments (depth + 1) after found) :
      ScansElements comments depth dotted items text
        (found.bind fun (tail, rest) => onto items (readClose comments tail rest))
  | failed {depth : Nat} {dotted : Bool} {items : List Datum} {text : List Char} {f : Failure}
      (hclose : ∀ rest, skip comments text ≠ ')' :: rest)
      (hpoint : dotted = true ∧ items ≠ [] → afterPoint? (skip comments text) = none)
      (hfound : Scans comments (depth + 1) (skip comments text) (.error f)) :
      ScansElements comments depth dotted items text (.error f)
  | item {depth : Nat} {dotted : Bool} {items : List Datum} {text rest : List Char} {d : Datum}
      {reading : Reading (List Datum × Datum)} (hclose : ∀ rest, skip comments text ≠ ')' :: rest)
      (hpoint : dotted = true ∧ items ≠ [] → afterPoint? (skip comments text) = none)
      (hfound : Scans comments (depth + 1) (skip comments text) (.ok (d, rest)))
      (hrest : ScansElements comments depth dotted (items ++ [d]) rest reading) :
      ScansElements comments depth dotted items text reading

end

/-- Data are added to those of a text up to its end. -/
inductive ScansAll (input : List Char) :
    List Datum → List Char → Except ParseError (List Datum) → Prop
  | ended {data : List Datum} {text : List Char} (hend : skip true text = []) :
      ScansAll input data text (.ok data)
  | failed {data : List Datum} {text : List Char} {f : Failure} (hne : skip true text ≠ [])
      (hfound : Scans true 0 (skip true text) (.error f)) :
      ScansAll input data text (.error (f.toError input))
  | datum {data : List Datum} {text rest : List Char} {d : Datum}
      {result : Except ParseError (List Datum)} (hne : skip true text ≠ [])
      (hfound : Scans true 0 (skip true text) (.ok (d, rest)))
      (hrest : ScansAll input (data ++ [d]) rest result) : ScansAll input data text result

/-- A loop ends with an answer, and with no other. -/
def Settles {α : Type} (loop : α → Prop) (answer : α) : Prop :=
  ∀ a, loop a ↔ a = answer

/-! ### Gaps and strings -/

lemma skip_dropWhile (comments : Bool) (text : List Char) :
    skip comments (text.dropWhile isSeparator) = skip comments text := by
  induction text with
  | nil => rfl
  | cons c text ih =>
    rw [List.dropWhile_cons]
    split
    case isTrue hc => rw [ih, skip, skip, skipFrom, if_pos hc]
    case isFalse => rfl

lemma skip_token (hcomment : comments = true → ∀ body, text.dropWhile isSeparator ≠ ';' :: body) :
    skip comments text = text.dropWhile isSeparator := by
  rw [← skip_dropWhile]
  have hhead := List.head?_dropWhile_not isSeparator text
  generalize text.dropWhile isSeparator = start at hcomment hhead ⊢
  cases start with
  | nil => rfl
  | cons c start =>
    have hc : isSeparator c = false := by simpa using hhead
    cases comments with
    | false => rw [skip, skipFrom, hc]; rfl
    | true => exact skip_of_begin hc fun heq => hcomment rfl start (by rw [heq])

/-- A comment ends with its line. -/
lemma skipFrom_true (comments : Bool) (text : List Char) :
    skipFrom comments true text = skip comments (text.dropWhile (· != '\n')) := by
  induction text with
  | nil => rfl
  | cons c text ih =>
    rw [List.dropWhile_cons, skipFrom]
    by_cases hc : c = '\n'
    · subst hc
      rfl
    · have hinside : (c != '\n') = true := bne_iff_ne.2 hc
      rw [if_pos hinside, hinside, ih]

lemma skip_comment {body : List Char} (hcomments : comments = true)
    (hbody : text.dropWhile isSeparator = ';' :: body) :
    skip comments text = skip comments (body.dropWhile (· != '\n')) := by
  rw [← skip_dropWhile, hbody, ← skipFrom_true, hcomments]
  rfl

/-- What the loop leaves is the text from the next token on. -/
lemma settles_gap (comments : Bool) (text : List Char) :
    Settles (ScansGap comments text) (skip comments text) := by
  intro rest
  constructor
  · intro hgap
    induction hgap with
    | token hcomment => exact (skip_token hcomment).symm
    | comment hcomments hbody _ ih => rw [ih, skip_comment hcomments hbody]
  · rintro rfl
    induction hlength : text.length using Nat.strongRecOn generalizing text with
    | ind n ih =>
      by_cases hcomment : comments = true → ∀ body, text.dropWhile isSeparator ≠ ';' :: body
      · rw [skip_token hcomment]
        exact .token hcomment
      · simp only [Classical.not_imp, not_forall, not_not] at hcomment
        obtain ⟨hcomments, body, hbody⟩ := hcomment
        have hstart := (List.dropWhile_suffix (l := text) isSeparator).length_le
        have hline := (List.dropWhile_suffix (l := body) (· != '\n')).length_le
        rw [hbody, List.length_cons] at hstart
        rw [skip_comment hcomments hbody]
        exact .comment hcomments hbody (ih _ (by omega) _ rfl)

/-- The characters so far, and those that are read after them. -/
def ontoChars (chars : List Char) (reading : Reading (List Char)) : Reading (List Char) :=
  reading.map fun (more, rest) => (chars ++ more, rest)

lemma ontoChars_concat (chars : List Char) (c : Char) (reading : Reading (List Char)) :
    ontoChars (chars ++ [c]) reading =
      ontoChars chars (reading.map fun (more, rest) => (c :: more, rest)) := by
  cases reading with
  | error f => rfl
  | ok found => simp only [ontoChars, Except.map, List.append_assoc, List.singleton_append]

lemma ontoChars_nil (reading : Reading (List Char)) : ontoChars [] reading = reading := by
  cases reading <;> rfl

/-- The loop reads what the reader does, which adds the characters from the last to the first. -/
lemma settles_string (chars text : List Char) :
    Settles (ScansString chars text) (ontoChars chars (readString text)) := by
  intro reading
  constructor
  · intro hscan
    induction hscan with
    | ended | endedEscape => rfl
    | close chars rest =>
      rw [readString, ontoChars]
      simp only [Except.map, List.append_nil]
    | unknown hletter =>
      rw [readString, hletter]
      rfl
    | escape hletter _ ih =>
      rw [ih, ontoChars_concat, readString, hletter]
    | plain hquote hbackslash _ ih =>
      rw [ih, ontoChars_concat, readString_plain hquote hbackslash]
  · rintro rfl
    induction text using readString.induct generalizing chars with
    | case1 => exact .ended chars
    | case2 => exact .endedEscape chars
    | case3 rest =>
      rw [readString, ontoChars]
      simp only [Except.map, List.append_nil]
      exact .close chars rest
    | case4 letter rest c hletter ih =>
      rw [readString, hletter]
      exact .escape hletter (ontoChars_concat chars c _ ▸ ih (chars ++ [c]))
    | case5 letter rest hletter =>
      rw [readString, hletter]
      exact .unknown hletter
    | case6 c rest hend hquote hescape ih =>
      have hbackslash : c ≠ '\\' := ne_backslash hend hescape
      rw [readString_plain hquote hbackslash, ← ontoChars_concat]
      exact .plain hquote hbackslash (ih (chars ++ [c]))

/-! ### Data -/

lemma length_lt_of_readFrom (hread : readFrom comments levels text = .ok (d, rest)) :
    rest.length < text.length := by
  obtain ⟨start, hgap, hd⟩ := readFrom_iff.1 hread
  exact hd.length_lt.trans_le hgap.length_le

lemma onto_nil (reading : Reading (List Datum × Datum)) : onto [] reading = reading := by
  cases reading <;> rfl

lemma onto_concat (items : List Datum) (d : Datum) (reading : Reading (List Datum × Datum)) :
    onto (items ++ [d]) reading =
      onto items (reading.map fun ((more, tail), rest) => ((d :: more, tail), rest)) := by
  cases reading with
  | error f => rfl
  | ok found => simp only [onto, Except.map, List.append_assoc, List.singleton_append]

lemma onto_bind {α : Type} (items : List Datum) (found : Reading α)
    (next : α × List Char → Reading (List Datum × Datum)) :
    onto items (found.bind next) = found.bind fun a => onto items (next a) := by
  cases found <;> rfl

/-- If the data inside are read, so are the elements: with the same answer, from the first to the
last here and from the last to the first by the bounded reader. -/
lemma settles_elements {bound : List Char}
    (hdatum : ∀ text, Settles (Scans comments (depth + 1) text) (readFrom comments levels text))
    (hbound : text.length < bound.length) :
    Settles (ScansElements comments depth dotted items text) (onto items
      (readElements comments dotted (readFrom comments levels) bound (!items.isEmpty) text)) := by
  induction bound generalizing items text with
  | nil => cases hbound
  | cons x bound ih =>
    have hstarted : (!items.isEmpty) = true ↔ items ≠ [] := by simp
    have hstarted' (d : Datum) : (!(items ++ [d]).isEmpty) = true := by simp
    have hshort {d : Datum} {rest : List Char}
        (hread : readFrom comments levels (skip comments text) = .ok (d, rest)) :
        rest.length < bound.length := by
      have hskip := (gap_skip comments text).length_le
      have hrest := length_lt_of_readFrom hread
      rw [List.length_cons] at hbound
      omega
    intro reading
    constructor
    · intro hscan
      cases hscan with
      | close hclose =>
        rw [readElements_skip, hclose, readElements_close]
        simp only [onto, Except.map, List.append_nil]
      | tail hallowed hpoint hfound =>
        rw [readElements_of_point hallowed.1 (hstarted.2 hallowed.2) hpoint, onto_bind,
          (hdatum _ _).1 hfound]
      | failed hclose hpoint hfound =>
        rw [readElements_of_item hclose (by rwa [hstarted]), ← (hdatum _ _).1 hfound]
        rfl
      | @item _ _ _ _ rest d _ hclose hpoint hfound hrest =>
        have hread := ((hdatum _ _).1 hfound).symm
        rw [readElements_of_item hclose (by rwa [hstarted]), hread,
          (ih (hshort hread) reading).1 hrest, hstarted', onto_concat]
        rfl
    · rintro rfl
      by_cases hclose : ∃ rest, skip comments text = ')' :: rest
      · obtain ⟨rest, hclose⟩ := hclose
        rw [readElements_skip, hclose, readElements_close]
        simp only [onto, Except.map, List.append_nil]
        exact .close hclose
      · rw [not_exists] at hclose
        by_cases hpoint : (dotted = true ∧ items ≠ []) ∧
            ∃ after, afterPoint? (skip comments text) = some after
        · obtain ⟨hallowed, after, hpoint⟩ := hpoint
          rw [readElements_of_point hallowed.1 (hstarted.2 hallowed.2) hpoint, onto_bind]
          exact .tail hallowed hpoint ((hdatum after _).2 rfl)
        · have hpoint : dotted = true ∧ items ≠ [] → afterPoint? (skip comments text) = none :=
            fun hallowed => Option.eq_none_iff_forall_ne_some.2 fun after hafter =>
              hpoint ⟨hallowed, after, hafter⟩
          rw [readElements_of_item hclose (by rwa [hstarted])]
          cases hread : readFrom comments levels (skip comments text) with
          | error f => exact .failed hclose hpoint ((hdatum _ _).2 hread.symm)
          | ok found =>
            obtain ⟨d, rest⟩ := found
            have hrest : ScansElements comments depth dotted (items ++ [d]) rest
                (onto (items ++ [d])
                  (readElements comments dotted (readFrom comments levels) bound true rest)) :=
              (ih (hshort hread) _).2 (by rw [hstarted'])
            rw [onto_concat] at hrest
            exact .item hclose hpoint ((hdatum _ _).2 hread.symm) hrest

/-- What opens nothing is an atom. -/
lemma readFrom_of_opensNothing (hopens : OpensNothing (skip comments text)) :
    readFrom comments (levels + 1) text = readAtom (skip comments text) := by
  obtain ⟨hquote, hvector, hlist, hstring⟩ := hopens
  rw [readFrom]
  split
  case h_1 heq => exact absurd heq (hquote _)
  case h_2 heq => exact absurd heq (hvector _)
  case h_3 heq => exact absurd heq (hlist _)
  case h_4 heq => exact absurd heq (hstring _)
  case h_5 => rfl

/-- Down to the limit, what the loops read is what the bounded reader reads. -/
lemma settles_datum (comments : Bool) (depth : Nat) (text : List Char) :
    Settles (Scans comments depth text) (readFrom comments (maxLevels - depth) text) := by
  induction hlevels : maxLevels - depth generalizing depth text with
  | zero =>
    have hdeep : maxLevels ≤ depth := Nat.le_of_sub_eq_zero hlevels
    intro reading
    constructor
    · intro hscan
      cases hscan with
      | tooDeep => rfl
      | quote hdepth | vector hdepth | list hdepth | string hdepth | atom hdepth =>
        exact absurd hdeep hdepth.not_ge
    · rintro rfl
      exact .tooDeep hdeep
  | succ levels ih =>
    have hdepth : depth < maxLevels := by omega
    have hdatum (text : List Char) :
        Settles (Scans comments (depth + 1) text) (readFrom comments levels text) :=
      ih (depth + 1) text (by omega)
    have helements (dotted : Bool) (rest : List Char) :
        Settles (ScansElements comments depth dotted [] rest)
          (readElements comments dotted (readFrom comments levels) ('(' :: rest) false rest) := by
      have hbound : rest.length < ('(' :: rest).length := Nat.lt_succ_self rest.length
      rw [← onto_nil (readElements _ _ _ _ _ _)]
      exact settles_elements hdatum hbound
    have hstring (rest : List Char) : Settles (ScansString [] rest) (readString rest) :=
      ontoChars_nil (readString rest) ▸ settles_string [] rest
    have hgap : readFrom comments (levels + 1) text =
        readFrom comments (levels + 1) (skip comments text) := readFrom_gap (gap_skip comments text)
    intro reading
    constructor
    · intro hscan
      cases hscan with
      | tooDeep hdeep => exact absurd hdeep hdepth.not_ge
      | quote _ hskip hfound => rw [hgap, hskip, readFrom_quote, (hdatum _ _).1 hfound]
      | vector _ hskip hfound => rw [hgap, hskip, readFrom_vector, (helements _ _ _).1 hfound]
      | list _ hskip hfound => rw [hgap, hskip, readFrom_list, (helements _ _ _).1 hfound]
      | string _ hskip hfound => rw [hgap, hskip, readFrom_string, (hstring _ _).1 hfound]
      | atom _ hopens => exact (readFrom_of_opensNothing hopens).symm
    · rintro rfl
      by_cases hopens : OpensNothing (skip comments text)
      · rw [readFrom_of_opensNothing hopens]
        exact .atom hdepth hopens
      · simp only [OpensNothing, Classical.not_and_iff_not_or_not, not_forall, not_not] at hopens
        obtain ⟨rest, hskip⟩ | ⟨rest, hskip⟩ | ⟨rest, hskip⟩ | ⟨rest, hskip⟩ := hopens
        · rw [hgap, hskip, readFrom_quote]
          exact .quote hdepth hskip ((hdatum _ _).2 rfl)
        · rw [hgap, hskip, readFrom_vector]
          exact .vector hdepth hskip ((helements _ _ _).2 rfl)
        · rw [hgap, hskip, readFrom_list]
          exact .list hdepth hskip ((helements _ _ _).2 rfl)
        · rw [hgap, hskip, readFrom_string]
          exact .string hdepth hskip ((hstring _ _).2 rfl)

/-- Data that follow each other are read up to the end of a text, or up to the first failure. -/
lemma settles_all {input : List Char} {budget : Nat} {data : List Datum}
    (hbudget : text.length < budget) :
    Settles (ScansAll input data text) ((readAllFrom input budget text).map (data ++ ·)) := by
  induction budget generalizing data text with
  | zero => cases hbudget
  | succ budget ih =>
    have hdatum : Settles (Scans true 0 (skip true text))
        (readFrom true maxLevels (skip true text)) := settles_datum true 0 (skip true text)
    have hfailed {f : Failure} (hne : skip true text ≠ [])
        (hread : readFrom true maxLevels (skip true text) = .error f) :
        readAllFrom input (budget + 1) text = .error (f.toError input) :=
      readAllFrom_fails hne (readFrom_error_iff.1 hread)
    have hitem {d : Datum} {rest : List Char}
        (hread : readFrom true maxLevels (skip true text) = .ok (d, rest)) :
        (readAllFrom input (budget + 1) text).map (data ++ ·) =
          (readAllFrom input budget rest).map ((data ++ [d]) ++ ·) := by
      obtain ⟨start, hgap, hd⟩ := readFrom_iff.1 hread
      rw [readAllFrom_datum ((gap_skip true text).trans hgap) hd]
      cases readAllFrom input budget rest with
      | error e => rfl
      | ok more => simp only [Except.map, List.append_assoc, List.singleton_append]
    have hshort {d : Datum} {rest : List Char}
        (hread : readFrom true maxLevels (skip true text) = .ok (d, rest)) :
        rest.length < budget := by
      have hskip := (gap_skip true text).length_le
      have hrest := length_lt_of_readFrom hread
      omega
    intro result
    constructor
    · intro hscan
      cases hscan with
      | ended hend =>
        rw [readAllFrom_end hend]
        simp only [Except.map, List.append_nil]
      | failed hne hfound =>
        rw [hfailed hne ((hdatum _).1 hfound).symm]
        rfl
      | datum hne hfound hrest =>
        have hread := ((hdatum _).1 hfound).symm
        rw [hitem hread, (ih (hshort hread) result).1 hrest]
    · rintro rfl
      by_cases hend : skip true text = []
      · rw [readAllFrom_end hend]
        simp only [Except.map, List.append_nil]
        exact .ended hend
      · cases hread : readFrom true maxLevels (skip true text) with
        | error f =>
          rw [hfailed hend hread]
          exact .failed hend ((hdatum _).2 hread.symm)
        | ok found =>
          obtain ⟨d, rest⟩ := found
          rw [hitem hread]
          exact .datum hend ((hdatum _).2 hread.symm) ((ih (hshort hread) _).2 rfl)

/-! ### What is left -/

/-- A reading at the start of a text leaves an end of the text, which is shorter, or fails at an end
of the text. -/
structure Proceeds {α : Type} (text : List Char) (reading : Reading α) : Prop where
  taken : ∀ a rest, reading = .ok (a, rest) → rest <:+ text ∧ rest.length < text.length
  failed : ∀ f, reading = .error f → f.rest <:+ text

lemma Proceeds.onto {reading : Reading (List Datum × Datum)} (h : Proceeds text reading)
    (items : List Datum) : Proceeds text (onto items reading) := by
  constructor
  · intro a rest hread
    cases reading with
    | error f => cases hread
    | ok found =>
      cases hread
      exact h.taken found.1 found.2 rfl
  · intro f hread
    exact h.failed f (eq_error_of_map hread)

lemma proceeds_readFrom (comments : Bool) (levels : Nat) (text : List Char) :
    Proceeds text (readFrom comments levels text) where
  taken d rest hread := by
    obtain ⟨start, hgap, hd⟩ := readFrom_iff.1 hread
    exact ⟨hd.suffix.trans hgap.suffix, length_lt_of_readFrom hread⟩
  failed f hread := (readFrom_error_iff.1 hread).suffix

lemma proceeds_readElements {started : Bool} {bound : List Char}
    (hbound : text.length < bound.length) :
    Proceeds text (readElements comments dotted (readFrom comments levels) bound started text) where
  taken found rest hread := by
    obtain ⟨items, tail⟩ := found
    obtain ⟨close, hitems, hclose⟩ := items_of_readElements
      (fun _ _ _ => Denotes.length_lt) (fun _ _ _ => readFrom_iff.1) hread
    have hinner : LeavesSuffix (Denotes Atom comments levels) := fun _ _ _ => Denotes.suffix
    have hlength := hitems.length_le fun _ _ _ => Denotes.length_lt
    exact ⟨(hclose.suffix hinner).trans (hitems.suffix hinner),
      (hclose.length_lt fun _ _ _ => Denotes.length_lt).trans_le hlength⟩
  failed f hread := by
    obtain ⟨items, close, hitems, hend⟩ := breaks_of_readElements
      (fun _ _ _ => Denotes.length_lt) (fun _ _ _ => readFrom_iff.1)
      (fun _ _ => readFrom_error_iff.1) hread hbound
    exact (hend.suffix fun _ _ => Fails.suffix).trans (hitems.suffix fun _ _ _ => Denotes.suffix)

/-! ### Where errors are -/

/-- An error describes what is left of a text, and tells the number of bytes before it. -/
def Located (text : String) (rest : List Char) (describe : Nat → ParseError.Kind × String)
    (e : ParseError) : Prop :=
  ∃ before : String, text = before ++ String.ofList rest ∧
    e = .at (describe before.utf8ByteSize).1 (describe before.utf8ByteSize).2 text.toList
      before.utf8ByteSize

lemma byteLength_eq (text : List Char) :
    Text.byteLength text = (String.ofList text).utf8ByteSize := by
  induction text with
  | nil => rfl
  | cons c text ih =>
    rw [Text.byteLength_cons, ih, ← List.singleton_append, String.ofList_append,
      String.utf8ByteSize_append, ← String.singleton_eq_ofList, String.utf8ByteSize_singleton]

/-- What is left at an end of a text begins where all bytes before it end. -/
lemma located_of_suffix {text : String} (describe : Nat → ParseError.Kind × String)
    (hrest : rest <:+ text.toList) : Located text rest describe
      (.at (describe (offsetOf text.toList rest)).1 (describe (offsetOf text.toList rest)).2
        text.toList (offsetOf text.toList rest)) := by
  obtain ⟨before, hbefore⟩ := hrest
  have hoffset : offsetOf text.toList rest = (String.ofList before).utf8ByteSize := by
    rw [offsetOf, ← hbefore, Text.byteLength_append, Nat.add_sub_cancel, byteLength_eq]
  refine ⟨String.ofList before, ?_, by rw [hoffset]⟩
  rw [← String.ofList_append, hbefore, String.ofList_toList]

lemma located_failure {text : String} (hrest : f.rest <:+ text.toList) :
    Located text f.rest f.describe (f.toError text.toList) :=
  located_of_suffix f.describe hrest

/-- The error of what follows a datum. -/
def describeTrailing (rest : List Char) : Nat → ParseError.Kind × String := fun _ =>
  (.trailingContent, "Unexpected remaining input: '" ++ String.ofList rest ++ "'")

/-- A text that is not one datum fails, or something follows the datum. -/
lemma located_readWith {text : String} {e : ParseError}
    (hread : readWith comments text = .error e) :
    (∃ f, readFrom comments maxLevels text.toList = .error f ∧
      Located text f.rest f.describe e) ∨
    ∃ d rest, readFrom comments maxLevels text.toList = .ok (d, rest) ∧ skip comments rest ≠ [] ∧
      Located text (skip comments rest) (describeTrailing (skip comments rest)) e := by
  rw [readWith, readChars] at hread
  have hproceeds := proceeds_readFrom comments maxLevels text.toList
  cases hfrom : readFrom comments maxLevels text.toList with
  | error f =>
    rw [hfrom] at hread
    cases hread
    exact .inl ⟨f, rfl, located_failure (hproceeds.failed f hfrom)⟩
  | ok found =>
    obtain ⟨d, rest⟩ := found
    have hrest := (gap_skip comments rest).suffix.trans (hproceeds.taken d rest hfrom).1
    rw [hfrom] at hread
    dsimp only at hread
    split at hread
    case h_1 => cases hread
    case h_2 hne =>
      cases hread
      exact .inr ⟨d, rest, rfl, hne, located_of_suffix (describeTrailing _) hrest⟩

lemma located_readAll {text : String} {e : ParseError} (hread : readAll text = .error e) :
    ∃ f, Stalls text.toList f ∧ Located text f.rest f.describe e := by
  obtain ⟨f, hstalls, rfl⟩ := readAllChars_error_iff.1 hread
  obtain ⟨data, close, hlead, hne, hf⟩ := hstalls
  have hclose := (gap_skip true close).suffix.trans (hlead.suffix fun _ _ _ => Denotes.suffix)
  exact ⟨f, ⟨data, close, hlead, hne, hf⟩, located_failure (hf.suffix.trans hclose)⟩

/-! ### Progress -/

/-- How the loops of the reader come to an end, at every depth, and what is left of a text then. An
error tells where what is left of the whole text begins. -/
structure Progress (comments : Bool) : Prop where
  gap : ∀ text, Settles (ScansGap comments text) (skip comments text) ∧ skip comments text <:+ text
  string : ∀ text, Settles (ScansString [] text) (readString text)
  datum : ∀ depth text, ∃ reading, Settles (Scans comments depth text) reading ∧
    reading = readFrom comments (maxLevels - depth) text ∧ Proceeds text reading
  elements : ∀ depth dotted items text, ∃ reading,
    Settles (ScansElements comments depth dotted items text) reading ∧
    reading = onto items (readElements comments dotted
      (readFrom comments (maxLevels - (depth + 1))) ('(' :: text) (!items.isEmpty) text) ∧
    Proceeds text reading
  all : ∀ text : String, Settles (ScansAll text.toList [] text.toList) (readAll text)
  errorOfOne : ∀ text e, readWith comments text = .error e →
    (∃ f, readFrom comments maxLevels text.toList = .error f ∧
      Located text f.rest f.describe e) ∨
    ∃ d rest, readFrom comments maxLevels text.toList = .ok (d, rest) ∧ skip comments rest ≠ [] ∧
      Located text (skip comments rest) (describeTrailing (skip comments rest)) e
  errorOfAll : ∀ text e, readAll text = .error e →
    ∃ f, Stalls text.toList f ∧ Located text f.rest f.describe e

/-- With comments and without, the reader ends everywhere, has taken something if it succeeds, and
tells the place where it fails. -/
theorem reader_progresses (comments : Bool) : Progress comments where
  gap text := ⟨settles_gap comments text, (gap_skip comments text).suffix⟩
  string text := ontoChars_nil (readString text) ▸ settles_string [] text
  datum depth text := ⟨_, settles_datum comments depth text, rfl, proceeds_readFrom _ _ _⟩
  elements depth dotted items text := by
    have hbound : text.length < ('(' :: text).length := Nat.lt_succ_self _
    exact ⟨_, settles_elements (settles_datum comments (depth + 1)) hbound, rfl,
      (proceeds_readElements hbound).onto items⟩
  all text := by
    have hall : (readAll text).map ([] ++ ·) = readAll text := by cases readAll text <;> rfl
    rw [← hall]
    exact settles_all (Nat.lt_succ_self _)
  errorOfOne text e := located_readWith
  errorOfAll text e := located_readAll

/-- The unknown escape of a string after a letter of two bytes is found at the fifth byte. -/
theorem reader_progresses_escape :
    readAll "é \"\\q\"" = .error (.at .invalidSyntax "Unknown escape sequence at position 4"
      "é \"\\q\"".toList 4) ∧
    ∃ f, Stalls "é \"\\q\"".toList f ∧ Located "é \"\\q\"" f.rest f.describe
      (.at .invalidSyntax "Unknown escape sequence at position 4" "é \"\\q\"".toList 4) := by
  have hread : readAll "é \"\\q\"" = .error (.at .invalidSyntax
      "Unknown escape sequence at position 4" "é \"\\q\"".toList 4) := by rfl
  exact ⟨hread, (reader_progresses true).errorOfAll _ _ hread⟩

end HostedLisp.Datum
