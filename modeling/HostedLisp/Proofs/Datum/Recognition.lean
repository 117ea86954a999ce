import HostedLisp.Proofs.Datum.Grammar

/-!
# The reader accepts its grammar

A reader for the data inside a datum that agrees with the grammar makes a reader for the datum that
agrees with it; by induction on the levels, `Datum.readFrom` does. Main statement: `readWith_iff`.
-/

namespace HostedLisp.Datum

variable {comments dotted started : Bool} {levels : Nat} {text rest : List Char} {d tail : Datum}
  {items : List Datum}

lemma Gap.trans {middle : List Char} (hgap : Gap comments text middle)
    (hrest : Gap comments middle rest) : Gap comments text rest := by
  induction hgap with
  | none => exact hrest
  | separator hc _ ih => exact .separator hc (ih hrest)
  | comment hcomments hbody _ ih => exact .comment hcomments hbody (ih hrest)
  | lastComment hcomments hbody =>
    cases hrest
    exact .lastComment hcomments hbody

lemma Gap.skip_to {c : Char} (hgap : Gap comments text (c :: rest)) (hc : isSeparator c = false)
    (hne : c ≠ ';') : skip comments text = c :: rest := by
  rw [hgap.skip_eq, skip_of_begin hc hne]

lemma readElements_skip {element : List Char → Reading Datum} {x : Char} {bound : List Char} :
    readElements comments dotted element (x :: bound) started text =
      readElements comments dotted element (x :: bound) started (skip comments text) := by
  rw [readElements, readElements, ← (gap_skip comments text).skip_eq]

lemma afterPoint?_eq_some {after : List Char} (hafter : afterPoint? text = some after)
    (hne : after ≠ []) : ∃ c rest, isDelimiter c = true ∧ after = c :: rest ∧
      text = '.' :: c :: rest := by
  unfold afterPoint? at hafter
  split at hafter
  · exact absurd (Option.some.inj hafter).symm hne
  · split at hafter
    case isTrue hc => exact ⟨_, _, hc, (Option.some.inj hafter).symm, rfl⟩
    case isFalse => cases hafter
  · cases hafter

lemma readClose_eq_ok {found : List Datum × Datum}
    (hread : readClose comments tail text = .ok (found, rest)) :
    found = ([], tail) ∧ Gap comments text (')' :: rest) := by
  have hskip := gap_skip comments text
  rw [readClose] at hread
  split at hread
  case h_1 after hclose =>
    cases hread
    exact ⟨rfl, hclose ▸ hskip⟩
  case h_2 => cases hread

section Inner

variable {inner : List Char → Datum → List Char → Prop} {element : List Char → Reading Datum}

/-- A phrase begins as elements do. -/
lemma Phrase.begins (hphrase : Phrase Atom comments inner text d rest) : Begins text := by
  cases hphrase with
  | atom htoken _ hd => exact Begins.of_token htoken (readToken_iff.2 hd)
  | _ => exact Begins.of_char rfl (by decide)

lemma Items.length_le {close : List Char}
    (hless : ∀ text d rest, inner text d rest → rest.length < text.length)
    (hitems : Items comments inner text items close) : close.length ≤ text.length := by
  induction hitems with
  | nil => exact le_rfl
  | cons hgap hd _ ih =>
    have hstart := hgap.length_le
    have hnext := hless _ _ _ hd
    omega

lemma Close.length_lt (hless : ∀ text d rest, inner text d rest → rest.length < text.length)
    {tailed : Prop} (hclose : Close comments inner tailed text tail rest) :
    rest.length < text.length := by
  cases hclose with
  | parenthesis hclose => exact Nat.lt_of_succ_le hclose.length_le
  | point _ hpoint _ hgap htail hclose =>
    have htext := hpoint.length_le
    have hstart := hgap.length_le
    have hafter := hless _ _ _ htail
    have hrest := hclose.length_le
    simp only [List.length_cons] at htext hstart hrest
    omega

lemma Phrase.length_lt (hless : ∀ text d rest, inner text d rest → rest.length < text.length)
    (hphrase : Phrase Atom comments inner text d rest) : rest.length < text.length := by
  cases hphrase with
  | quote hgap hd =>
    have hstart := hgap.length_le
    have hrest := hless _ _ _ hd
    simp only [List.length_cons]
    omega
  | vector hitems hclose =>
    have hclosed := hitems.length_le hless
    have hrest := hclose.length_le
    simp only [List.length_cons] at hrest ⊢
    omega
  | list hitems hclose =>
    have hclosed := hitems.length_le hless
    have hrest := hclose.length_lt hless
    simp only [List.length_cons]
    omega
  | string hbody => exact hbody.length_lt.trans (Nat.lt_succ_self _)
  | atom htoken =>
    have hpos := List.length_pos_iff.2 htoken.1
    rw [List.length_append]
    omega

lemma Close.mono {tailed tailed' : Prop} (himp : tailed → tailed')
    (hclose : Close comments inner tailed text tail rest) :
    Close comments inner tailed' text tail rest := by
  cases hclose with
  | parenthesis hclose => exact .parenthesis hclose
  | point htailed hpoint hc hgap htail hclose =>
    exact .point (himp htailed) hpoint hc hgap htail hclose

/-! ### Lists and vectors -/

lemma readElements_of_close {bound : List Char}
    (helement : ∀ text start d rest, Gap comments text start → inner start d rest →
      element text = .ok (d, rest))
    (hclose : Close comments inner (dotted = true ∧ started = true) text tail rest)
    (hbound : bound ≠ []) :
    readElements comments dotted element bound started text = .ok (([], tail), rest) := by
  obtain ⟨x, bound, rfl⟩ := List.exists_cons_of_ne_nil hbound
  cases hclose with
  | parenthesis hclose =>
    rw [readElements_skip, hclose.skip_to rfl (by decide), readElements_close]
  | @point _ _ _ c after _ htailed hpoint hc hgap htail hclose =>
    obtain ⟨rfl, rfl⟩ := htailed
    have hafter : afterPoint? ('.' :: c :: after) = some (c :: after) := by
      rw [afterPoint?, if_pos hc]
    rw [readElements, hpoint.skip_to rfl (by decide)]
    split
    · next heq => exact absurd (List.cons.inj heq).1 (by decide)
    · simp only [Bool.and_self, if_true, hafter, helement _ _ _ _ hgap htail, Except.bind]
      rw [readClose, hclose.skip_to rfl (by decide)]
      rfl

/-- Data that stand one after the other up to the end of a list are read. -/
lemma readElements_of_items {bound close : List Char}
    (hbegins : ∀ text d rest, inner text d rest → Begins text)
    (hless : ∀ text d rest, inner text d rest → rest.length < text.length)
    (helement : ∀ text start d rest, Gap comments text start → inner start d rest →
      element text = .ok (d, rest))
    (hitems : Items comments inner text items close)
    (hclose : Close comments inner (dotted = true ∧ (started = true ∨ items ≠ [])) close tail rest)
    (hbound : text.length < bound.length) :
    readElements comments dotted element bound started text = .ok ((items, tail), rest) := by
  induction hitems generalizing started bound with
  | nil text =>
    refine readElements_of_close helement (hclose.mono ?_) (List.ne_nil_of_length_pos (by omega))
    rintro ⟨hdotted, hstarted | hnil⟩
    · exact ⟨hdotted, hstarted⟩
    · exact absurd rfl hnil
  | @cons text start next _ d items hgap hd hitems ih =>
    cases bound with
    | nil => simp at hbound
    | cons x bound =>
      have hstart := hgap.length_le
      have hnext := hless _ _ _ hd
      rw [List.length_cons] at hbound
      have hrest : readElements comments dotted element bound true next =
          .ok ((items, tail), rest) := by
        refine ih (hclose.mono ?_) (by omega)
        rintro ⟨hdotted, -⟩
        exact ⟨hdotted, .inl rfl⟩
      have hbegin := hbegins _ _ _ hd
      rw [readElements_skip, hgap.skip_eq, hbegin.skip,
        readElements_element hbegin (helement _ _ _ _ (.none _) hd), hrest]
      rfl

/-- Elements that are read are data that stand one after the other up to the end of a list. -/
lemma items_of_readElements {bound : List Char}
    (hless : ∀ text d rest, inner text d rest → rest.length < text.length)
    (hinner : ∀ text d rest, element text = .ok (d, rest) →
      ∃ start, Gap comments text start ∧ inner start d rest)
    (hread : readElements comments dotted element bound started text = .ok ((items, tail), rest)) :
    ∃ close, Items comments inner text items close ∧
      Close comments inner (dotted = true ∧ (started = true ∨ items ≠ [])) close tail rest := by
  induction bound generalizing started text items with
  | nil => cases hread
  | cons x bound ih =>
    have hskip := gap_skip comments text
    rw [readElements] at hread
    split at hread
    case h_1 after hclose =>
      cases hread
      rw [hclose] at hskip
      exact ⟨text, .nil _, .parenthesis hskip⟩
    case h_2 =>
      split at hread
      case h_1 after hafter =>
        split at hafter
        case isFalse => cases hafter
        case isTrue hallowed =>
          rw [Bool.and_eq_true] at hallowed
          cases htail : element after with
          | error e => simp [htail, Except.bind] at hread
          | ok found =>
            obtain ⟨d, closing⟩ := found
            simp only [htail, Except.bind] at hread
            obtain ⟨heq, hclose⟩ := readClose_eq_ok hread
            cases heq
            obtain ⟨start, hgap, hd⟩ := hinner _ _ _ htail
            have hne : after ≠ [] := by
              rintro rfl
              have hstart := hgap.length_le
              have hshort := hless _ _ _ hd
              simp only [List.length_nil] at hstart
              omega
            obtain ⟨c, next, hc, rfl, hpoint⟩ := afterPoint?_eq_some hafter hne
            rw [hpoint] at hskip
            exact ⟨text, .nil _, .point ⟨hallowed.1, .inl hallowed.2⟩ hskip hc hgap hd hclose⟩
      case h_2 =>
        cases hfirst : element (skip comments text) with
        | error e => simp [hfirst, Except.bind] at hread
        | ok first =>
          obtain ⟨d, next⟩ := first
          cases hothers : readElements comments dotted element bound true next with
          | error e => simp [hfirst, hothers, Except.bind, Except.map] at hread
          | ok others =>
            obtain ⟨⟨found, tail'⟩, rest'⟩ := others
            simp only [hfirst, hothers, Except.bind, Except.map, Except.ok.injEq,
              Prod.mk.injEq] at hread
            obtain ⟨⟨rfl, rfl⟩, rfl⟩ := hread
            obtain ⟨start, hgap, hd⟩ := hinner _ _ _ hfirst
            obtain ⟨close, hitems, hclose⟩ := ih hothers
            refine ⟨close, .cons (hskip.trans hgap) hd hitems, hclose.mono ?_⟩
            rintro ⟨hdotted, -⟩
            exact ⟨hdotted, .inr (by simp)⟩

end Inner

/-! ### Data -/

lemma readAtom_iff :
    readAtom text = .ok (d, rest) ↔ ∃ token, text = token ++ rest ∧ IsToken token ∧ Ends rest ∧
      Atom token d := by
  constructor
  · intro hread
    rw [readAtom, List.span_eq_takeWhile_dropWhile] at hread
    split at hread
    case h_1 => cases hread
    case h_2 token after hne hspan =>
      obtain ⟨rfl, rfl⟩ := Prod.mk.inj hspan
      cases hd : readToken (text.takeWhile fun c => !isDelimiter c) with
      | error fault => simp [hd] at hread
      | ok d' =>
        simp only [hd, Except.ok.injEq, Prod.mk.injEq] at hread
        obtain ⟨rfl, rfl⟩ := hread
        refine ⟨_, List.takeWhile_append_dropWhile.symm, ⟨hne, fun c hc => ?_⟩, ?_,
          readToken_iff.1 hd⟩
        · simpa using List.mem_takeWhile_imp hc
        · intro c hc
          have hhead := List.head?_dropWhile_not (fun c => !isDelimiter c) text
          rw [show (text.dropWhile fun c => !isDelimiter c).head? = some c from hc] at hhead
          simpa using hhead
  · rintro ⟨token, rfl, htoken, hends, hatom⟩
    exact readAtom_token htoken hends (readToken_iff.2 hatom)

lemma readFrom_gap {start : List Char} (hgap : Gap comments text start) :
    readFrom comments (levels + 1) text = readFrom comments (levels + 1) start := by
  rw [readFrom, readFrom, hgap.skip_eq]

lemma readFrom_quote : readFrom comments (levels + 1) ('\'' :: text) =
    (readFrom comments levels text).map fun (d, rest) => (quoted d, rest) := by
  rw [readFrom, skip_of_begin rfl (by decide)]
  rfl

lemma Denotes.length_lt (hd : Denotes Atom comments levels text d rest) :
    rest.length < text.length := by
  induction levels generalizing text d rest with
  | zero => exact hd.elim
  | succ levels ih => exact Phrase.length_lt (fun _ _ _ => ih) hd

lemma Denotes.begins (hd : Denotes Atom comments levels text d rest) : Begins text := by
  cases levels with
  | zero => exact hd.elim
  | succ levels => exact Phrase.begins hd

/-- What a phrase denotes is read if the data inside it are. -/
lemma readFrom_of_phrase
    (hread : ∀ text start d rest, Gap comments text start →
      Denotes Atom comments levels start d rest → readFrom comments levels text = .ok (d, rest))
    (hphrase : Phrase Atom comments (Denotes Atom comments levels) text d rest) :
    readFrom comments (levels + 1) text = .ok (d, rest) := by
  have hbegins (text : List Char) (d : Datum) (rest : List Char) :
      Denotes Atom comments levels text d rest → Begins text := Denotes.begins
  have hless (text : List Char) (d : Datum) (rest : List Char) :
      Denotes Atom comments levels text d rest → rest.length < text.length := Denotes.length_lt
  cases hphrase with
  | quote hgap hd =>
    rw [readFrom_quote, hread _ _ _ _ hgap hd]
    rfl
  | @vector text close rest items hitems hclose =>
    have hbound : text.length < ('(' :: text).length := Nat.lt_succ_self _
    have helements : readElements comments false (readFrom comments levels) ('(' :: text) false
        text = .ok ((items, nil), rest) :=
      readElements_of_items hbegins hless hread hitems (.parenthesis hclose) hbound
    rw [readFrom_vector, helements]
    rfl
  | @list text close rest items tail hitems hclose =>
    have hbound : text.length < ('(' :: text).length := Nat.lt_succ_self _
    have helements : readElements comments true (readFrom comments levels) ('(' :: text) false
        text = .ok ((items, tail), rest) :=
      readElements_of_items hbegins hless hread hitems
        (hclose.mono fun hne => ⟨rfl, .inr hne⟩) hbound
    rw [readFrom_list, helements]
    rfl
  | string hbody =>
    rw [readFrom_string, readString_of_body hbody]
    rfl
  | atom htoken hends hd =>
    exact readFrom_token htoken hends (readToken_iff.2 hd) (Nat.succ_pos levels)

/-- What is read is a phrase if what is read inside it is what the text denotes there. -/
lemma phrase_of_readFrom
    (hinner : ∀ text d rest, readFrom comments levels text = .ok (d, rest) →
      ∃ start, Gap comments text start ∧ Denotes Atom comments levels start d rest)
    (hread : readFrom comments (levels + 1) text = .ok (d, rest)) :
    Phrase Atom comments (Denotes Atom comments levels) (skip comments text) d rest := by
  have hless (text : List Char) (d : Datum) (rest : List Char) :
      Denotes Atom comments levels text d rest → rest.length < text.length := Denotes.length_lt
  rw [readFrom] at hread
  split at hread
  case h_1 after hskip =>
    rw [hskip]
    cases hd : readFrom comments levels after with
    | error e => simp [hd, Except.map] at hread
    | ok found =>
      simp only [hd, Except.map, Except.ok.injEq, Prod.mk.injEq] at hread
      obtain ⟨rfl, rfl⟩ := hread
      obtain ⟨start, hgap, hd⟩ := hinner _ _ _ hd
      exact .quote hgap hd
  case h_2 after hskip =>
    rw [hskip]
    cases helements : readElements comments false (readFrom comments levels) ('(' :: after) false
        after with
    | error e => simp [helements, Except.map] at hread
    | ok found =>
      obtain ⟨⟨items, tail⟩, rest'⟩ := found
      simp only [helements, Except.map, Except.ok.injEq, Prod.mk.injEq] at hread
      obtain ⟨rfl, rfl⟩ := hread
      obtain ⟨close, hitems, hclose⟩ := items_of_readElements hless hinner helements
      cases hclose with
      | parenthesis hclose => exact .vector hitems hclose
      | point htailed => exact absurd htailed.1 (by decide)
  case h_3 after hskip =>
    rw [hskip]
    cases helements : readElements comments true (readFrom comments levels) ('(' :: after) false
        after with
    | error e => simp [helements, Except.map] at hread
    | ok found =>
      obtain ⟨⟨items, tail⟩, rest'⟩ := found
      simp only [helements, Except.map, Except.ok.injEq, Prod.mk.injEq] at hread
      obtain ⟨rfl, rfl⟩ := hread
      obtain ⟨close, hitems, hclose⟩ := items_of_readElements hless hinner helements
      refine .list hitems (hclose.mono ?_)
      rintro ⟨-, hstarted | hne⟩
      · cases hstarted
      · exact hne
  case h_4 after hskip =>
    rw [hskip]
    cases hbody : readString after with
    | error e => simp [hbody, Except.map] at hread
    | ok found =>
      simp only [hbody, Except.map, Except.ok.injEq, Prod.mk.injEq] at hread
      obtain ⟨rfl, rfl⟩ := hread
      exact .string (body_of_readString hbody)
  case h_5 =>
    obtain ⟨token, heq, htoken, hends, hatom⟩ := readAtom_iff.1 hread
    rw [heq]
    exact .atom htoken hends hatom

/-- With the same number of levels, what is read is what the text denotes after a gap. -/
theorem readFrom_iff : readFrom comments levels text = .ok (d, rest) ↔
    ∃ start, Gap comments text start ∧ Denotes Atom comments levels start d rest := by
  induction levels generalizing text d rest with
  | zero =>
    refine ⟨by simp [readFrom], ?_⟩
    rintro ⟨start, -, hd⟩
    exact hd.elim
  | succ levels ih =>
    constructor
    · intro hread
      exact ⟨_, gap_skip comments text, phrase_of_readFrom (fun _ _ _ => ih.1) hread⟩
    · rintro ⟨start, hgap, hphrase⟩
      rw [readFrom_gap hgap]
      exact readFrom_of_phrase (fun _ start _ _ hgap hd => ih.2 ⟨start, hgap, hd⟩) hphrase

lemma readChars_iff {input : List Char} :
    readChars comments input = .ok d ↔ Sentence Atom comments input d := by
  rw [readChars, Sentence]
  cases hread : readFrom comments maxLevels input with
  | error f =>
    refine ⟨by simp, ?_⟩
    rintro ⟨start, rest, hgap, hd, -⟩
    rw [readFrom_iff.2 ⟨start, hgap, hd⟩] at hread
    cases hread
  | ok found =>
    obtain ⟨d', rest⟩ := found
    have hskip := gap_skip comments rest
    constructor
    · intro heq
      obtain ⟨start, hgap, hd⟩ := readFrom_iff.1 hread
      dsimp only at heq
      split at heq
      case h_1 hend =>
        cases heq
        exact ⟨start, rest, hgap, hd, hend ▸ hskip⟩
      case h_2 => cases heq
    · rintro ⟨start, rest', hgap, hd, hend⟩
      rw [readFrom_iff.2 ⟨start, hgap, hd⟩] at hread
      cases hread
      dsimp only
      rw [hend.skip_eq]
      rfl

/-- With comments or without, the reader accepts a text exactly if it is one datum between gaps, at
most `maxLevels` levels deep, and answers what it denotes. Every other text is an error. -/
theorem readWith_iff (comments : Bool) (text : String) :
    (∀ d, readWith comments text = .ok d ↔ Sentence Atom comments text.toList d) ∧
      ((∀ d, ¬Sentence Atom comments text.toList d) → ∃ e, readWith comments text = .error e) := by
  refine ⟨fun d => readChars_iff, fun hno => ?_⟩
  cases hread : readWith comments text with
  | error e => exact ⟨e, rfl⟩
  | ok d => exact absurd (readChars_iff.1 hread) (hno d)

/-- The name `+5x` has the shape of a number, so it is nothing, although it passes as a name. -/
theorem readWith_signed_name :
    Sentence LooseAtom true "+5x".toList (.sym ⟨"+5x"⟩) ∧
      ∀ d, readWith true "+5x" ≠ .ok d := by
  have hbad : readToken ['+', '5', 'x'] = .error .badFloat := rfl
  have hno (d : Datum) : ¬Atom ['+', '5', 'x'] d := by
    intro hatom
    rw [readToken_iff.2 hatom] at hbad
    cases hbad
  have htoken : IsToken ['+', '5', 'x'] := by
    refine ⟨by simp, ?_⟩
    simp only [List.forall_mem_cons]
    exact ⟨rfl, rfl, rfl, by simp⟩
  refine ⟨⟨['+', '5', 'x'], [], .none _, ?_, .none _⟩, fun d hread => ?_⟩
  · exact .atom htoken (by simp [Ends]) (.name hno (by decide))
  · have hread' : readFrom true maxLevels ['+', '5', 'x'] =
        .error ⟨.badFloat, ['+', '5', 'x']⟩ := rfl
    have hchars : readChars true ['+', '5', 'x'] = .ok d := hread
    rw [readChars, hread'] at hchars
    cases hchars

end HostedLisp.Datum
