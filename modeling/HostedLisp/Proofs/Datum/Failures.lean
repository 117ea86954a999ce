import HostedLisp.Proofs.Datum.Continuation

/-!
# Where reading fails

The grammar of data says what a text denotes; this is its counterpart for the texts that denote
nothing. Data are read up to a place where nothing fits, and the failure says what is missing there
and what text was left. Main statements: `readFrom_error_iff` for one datum, `readAllChars_iff` and
`readAllChars_error_iff` for a whole text.
-/

namespace HostedLisp.Datum

variable {comments dotted started : Bool} {levels : Nat} {text rest close : List Char}
  {d tail : Datum} {items : List Datum} {f : Failure}

/-- A result that fails after it was changed has failed before. -/
lemma eq_error_of_map {α β : Type} {g : α → β} {result : Except Failure α}
    (h : result.map g = .error f) : result = .error f := by
  cases result with
  | error e => exact congrArg Except.error (Except.error.inj h)
  | ok a => cases h

/-! ### Atoms and strings -/

/-- A string that is not closed or has an unknown escape, after its opening quote. -/
inductive StringFails : List Char → Failure → Prop
  | ended : StringFails [] ⟨.unexpected, []⟩
  | endedEscape : StringFails ['\\'] ⟨.unexpected, []⟩
  | unknown {letter : Char} {text : List Char} (hletter : Text.unescape? letter = none) :
      StringFails ('\\' :: letter :: text) ⟨.badEscape, '\\' :: letter :: text⟩
  | escape {letter : Char} {text : List Char} {f : Failure}
      (hletter : (Text.unescape? letter).isSome) (hf : StringFails text f) :
      StringFails ('\\' :: letter :: text) f
  | plain {c : Char} {text : List Char} {f : Failure} (hquote : c ≠ '"') (hbackslash : c ≠ '\\')
      (hf : StringFails text f) : StringFails (c :: text) f

/-- No token where one has to stand, or one that is nothing. -/
inductive AtomFails : List Char → Failure → Prop
  | noToken {text : List Char} (hends : Ends text) : AtomFails text ⟨.noToken, text⟩
  | badToken {token rest : List Char} {fault : Fault} (htoken : IsToken token) (hends : Ends rest)
      (hbad : readToken token = .error fault) : AtomFails (token ++ rest) ⟨fault, token ++ rest⟩

lemma readString_error_iff : readString text = .error f ↔ StringFails text f := by
  constructor
  · intro hread
    induction text using readString.induct with
    | case1 =>
      cases hread
      exact .ended
    | case2 =>
      cases hread
      exact .endedEscape
    | case3 => cases hread
    | case4 letter after c hletter ih =>
      rw [readString, hletter] at hread
      exact .escape (by rw [hletter]; rfl) (ih (eq_error_of_map hread))
    | case5 letter after hletter =>
      rw [readString, hletter] at hread
      cases hread
      exact .unknown hletter
    | case6 c after hend hquote hescape ih =>
      have hbackslash : c ≠ '\\' := ne_backslash hend hescape
      rw [readString_plain hquote hbackslash] at hread
      exact .plain hquote hbackslash (ih (eq_error_of_map hread))
  · intro hf
    induction hf with
    | ended | endedEscape => rfl
    | unknown hletter => rw [readString, hletter]
    | escape hletter _ ih =>
      obtain ⟨c, hc⟩ := Option.isSome_iff_exists.1 hletter
      rw [readString, hc]
      dsimp only
      rw [ih]
      rfl
    | plain hquote hbackslash _ ih =>
      rw [readString_plain hquote hbackslash, ih]
      rfl

lemma readAtom_error_iff : readAtom text = .error f ↔ AtomFails text f := by
  constructor
  · intro hread
    have hsplit : text.takeWhile (fun c => !isDelimiter c) ++
        text.dropWhile (fun c => !isDelimiter c) = text := List.takeWhile_append_dropWhile
    have hends : Ends (text.dropWhile fun c => !isDelimiter c) := by
      intro c hc
      have hhead := List.head?_dropWhile_not (fun c => !isDelimiter c) text
      rw [show (text.dropWhile fun c => !isDelimiter c).head? = some c from hc] at hhead
      simpa using hhead
    rw [readAtom, List.span_eq_takeWhile_dropWhile] at hread
    split at hread
    case h_1 after hspan =>
      obtain ⟨hnil, rfl⟩ := Prod.mk.inj hspan
      cases hread
      rw [hnil, List.nil_append] at hsplit
      rw [hsplit] at hends
      exact .noToken hends
    case h_2 token after hne hspan =>
      obtain ⟨rfl, rfl⟩ := Prod.mk.inj hspan
      cases hbad : readToken (text.takeWhile fun c => !isDelimiter c) with
      | ok d => simp [hbad] at hread
      | error fault =>
        have hatom := AtomFails.badToken
          ⟨hne, fun c hc => by simpa using List.mem_takeWhile_imp hc⟩ hends hbad
        simp only [hbad, Except.error.injEq] at hread
        rwa [hsplit, hread] at hatom
  · intro hf
    cases hf with
    | noToken hends =>
      cases text with
      | nil => rfl
      | cons c text => simp [readAtom, List.span_eq_takeWhile_dropWhile, hends c rfl]
    | @badToken token rest fault htoken hends hbad =>
      rw [readAtom, htoken.span hends]
      obtain ⟨c, token, rfl, -⟩ := htoken.exists_cons
      simp [hbad]

/-! ### Data inside data -/

section Phrases

variable (comments : Bool) (inner : List Char → Datum → List Char → Prop)
  (fails : List Char → Failure → Prop)

/-- How the end of a list or vector fails after its items: there is no item where one has to
stand, a point by itself has no tail after it, or something follows the tail. -/
inductive Breaks (tailed : Prop) : List Char → Failure → Prop
  | item {text : List Char} {f : Failure} (hclose : ∀ rest, skip comments text ≠ ')' :: rest)
      (hpoint : tailed → afterPoint? (skip comments text) = none)
      (hf : fails (skip comments text) f) : Breaks tailed text f
  | tail {text after : List Char} {f : Failure} (htailed : tailed)
      (hpoint : afterPoint? (skip comments text) = some after) (hf : fails after f) :
      Breaks tailed text f
  | close {text after start close : List Char} {tail : Datum} (htailed : tailed)
      (hpoint : afterPoint? (skip comments text) = some after) (hgap : Gap comments after start)
      (htail : inner start tail close) (hclose : ∀ rest, skip comments close ≠ ')' :: rest) :
      Breaks tailed text ⟨.unexpected, skip comments close⟩

/-- How a datum at the start of a text fails. The data inside are given by `inner`, their failures
by `fails`. -/
inductive Refuses : List Char → Failure → Prop
  | quote {text : List Char} {f : Failure} (hf : fails text f) : Refuses ('\'' :: text) f
  | vector {text close : List Char} {items : List Datum} {f : Failure}
      (hitems : Items comments inner text items close)
      (hend : Breaks comments inner fails False close f) : Refuses ('#' :: '(' :: text) f
  | list {text close : List Char} {items : List Datum} {f : Failure}
      (hitems : Items comments inner text items close)
      (hend : Breaks comments inner fails (items ≠ []) close f) : Refuses ('(' :: text) f
  | string {text : List Char} {f : Failure} (hf : StringFails text f) : Refuses ('"' :: text) f
  | atom {text : List Char} {f : Failure} (hopening : ∀ c ∈ text.head?, c ∉ ['\'', '(', '"'])
      (hvector : ¬['#', '('] <+: text) (hf : AtomFails text f) : Refuses text f

end Phrases

/-- How a datum fails that may have the given number of levels. Without levels nothing is looked
at. -/
def Fails (comments : Bool) : Nat → List Char → Failure → Prop
  | 0 => fun text f => f = ⟨.tooDeep, text⟩
  | levels + 1 => fun text f =>
    Refuses comments (Denotes Atom comments levels) (Fails comments levels) (skip comments text) f

lemma fails_succ_iff : Fails comments (levels + 1) text f ↔
    Refuses comments (Denotes Atom comments levels) (Fails comments levels) (skip comments text)
      f :=
  Iff.rfl

/-- What precedes a datum does not count for how it fails, if it has a level. -/
lemma fails_skip_iff :
    Fails comments (levels + 1) (skip comments text) f ↔ Fails comments (levels + 1) text f := by
  rw [fails_succ_iff, fails_succ_iff, ← (gap_skip comments text).skip_eq]

section Inner

variable {inner : List Char → Datum → List Char → Prop} {fails : List Char → Failure → Prop}
  {element : List Char → Reading Datum}

/-- What is read after a point, up to the parenthesis that has to follow. -/
lemma readElements_of_point {after bound : List Char} {x : Char} (hdotted : dotted = true)
    (hstarted : started = true) (hpoint : afterPoint? (skip comments text) = some after) :
    readElements comments dotted element (x :: bound) started text =
      (element after).bind fun (tail, rest) => readClose comments tail rest := by
  obtain ⟨heq, -⟩ := afterPoint?_eq_some_iff.1 hpoint
  rw [readElements, heq]
  split
  · next hclose => exact absurd (List.cons.inj hclose).1 (by decide)
  · rw [← heq, hdotted, hstarted, Bool.and_self, if_pos rfl, hpoint]

/-- What is read where neither a parenthesis nor a point stands. -/
lemma readElements_of_item {bound : List Char} {x : Char}
    (hclose : ∀ rest, skip comments text ≠ ')' :: rest)
    (hpoint : dotted = true ∧ started = true → afterPoint? (skip comments text) = none) :
    readElements comments dotted element (x :: bound) started text =
      (element (skip comments text)).bind fun (first, rest) =>
        (readElements comments dotted element bound true rest).map
          fun ((items, tail), rest) => ((first :: items, tail), rest) := by
  have hnone : (if (dotted && started) = true then afterPoint? (skip comments text) else none) =
      none := by
    split
    case isTrue h => exact hpoint (by simpa using h)
    case isFalse => rfl
  rw [readElements]
  split
  · next hclose' => exact absurd hclose' (hclose _)
  · rw [hnone]

lemma readElements_of_breaks {bound : List Char}
    (helement : ∀ text start d rest, Gap comments text start → inner start d rest →
      element text = .ok (d, rest))
    (hfails : ∀ text f, fails text f → element text = .error f)
    (hend : Breaks comments inner fails (dotted = true ∧ started = true) text f)
    (hbound : bound ≠ []) :
    readElements comments dotted element bound started text = .error f := by
  obtain ⟨x, bound, rfl⟩ := List.exists_cons_of_ne_nil hbound
  cases hend with
  | item hclose hpoint hf =>
    rw [readElements_of_item hclose hpoint, hfails _ _ hf]
    rfl
  | tail htailed hpoint hf =>
    rw [readElements_of_point htailed.1 htailed.2 hpoint, hfails _ _ hf]
    rfl
  | close htailed hpoint hgap htail hclose =>
    rw [readElements_of_point htailed.1 htailed.2 hpoint, helement _ _ _ _ hgap htail]
    simp only [Except.bind, readClose]

/-- Data that stand one after the other up to where the end of a list fails. -/
lemma readElements_of_items_breaks {bound : List Char}
    (hbegins : ∀ text d rest, inner text d rest → Begins text)
    (hless : ∀ text d rest, inner text d rest → rest.length < text.length)
    (helement : ∀ text start d rest, Gap comments text start → inner start d rest →
      element text = .ok (d, rest))
    (hfails : ∀ text f, fails text f → element text = .error f)
    (hitems : Items comments inner text items close)
    (hend : Breaks comments inner fails (dotted = true ∧ (started = true ∨ items ≠ [])) close f)
    (hbound : text.length < bound.length) :
    readElements comments dotted element bound started text = .error f := by
  induction hitems generalizing started bound with
  | nil text =>
    simp only [ne_eq, not_true_eq_false, or_false] at hend
    exact readElements_of_breaks helement hfails hend (List.ne_nil_of_length_pos (by omega))
  | @cons text start next _ d items hgap hd hitems ih =>
    cases bound with
    | nil => simp at hbound
    | cons x bound =>
      have hstart := hgap.length_le
      have hnext := hless _ _ _ hd
      rw [List.length_cons] at hbound
      have hrest : readElements comments dotted element bound true next = .error f := by
        refine ih ?_ (by omega)
        simpa using hend
      have hbegin := hbegins _ _ _ hd
      rw [readElements_skip, hgap.skip_eq, hbegin.skip,
        readElements_element hbegin (helement _ _ _ _ (.none _) hd), hrest]
      rfl

/-- Where reading elements fails, the end of the list does, after the data before it. -/
lemma breaks_of_readElements {bound : List Char}
    (hless : ∀ text d rest, inner text d rest → rest.length < text.length)
    (hinner : ∀ text d rest, element text = .ok (d, rest) →
      ∃ start, Gap comments text start ∧ inner start d rest)
    (hfails : ∀ text f, element text = .error f → fails text f)
    (hread : readElements comments dotted element bound started text = .error f)
    (hbound : text.length < bound.length) :
    ∃ items close, Items comments inner text items close ∧
      Breaks comments inner fails (dotted = true ∧ (started = true ∨ items ≠ [])) close f := by
  induction bound generalizing started text with
  | nil => simp at hbound
  | cons x bound ih =>
    have hskip := gap_skip comments text
    by_cases hclose : ∃ rest, skip comments text = ')' :: rest
    · obtain ⟨rest, hclose⟩ := hclose
      rw [readElements_skip, hclose, readElements_close] at hread
      cases hread
    rw [not_exists] at hclose
    by_cases hpoint : dotted = true ∧ started = true → afterPoint? (skip comments text) = none
    · rw [readElements_of_item hclose hpoint] at hread
      cases hfirst : element (skip comments text) with
      | error e =>
        simp only [hfirst, Except.bind, Except.error.injEq] at hread
        subst hread
        refine ⟨[], text, .nil _, .item hclose ?_ (hfails _ _ hfirst)⟩
        rintro ⟨hdotted, hstarted | hnil⟩
        · exact hpoint ⟨hdotted, hstarted⟩
        · exact absurd rfl hnil
      | ok first =>
        obtain ⟨d, next⟩ := first
        obtain ⟨start, hgap, hd⟩ := hinner _ _ _ hfirst
        have hstart := hskip.length_le
        have hgap' := hgap.length_le
        have hnext := hless _ _ _ hd
        rw [List.length_cons] at hbound
        rw [hfirst] at hread
        obtain ⟨items, close, hitems, hend⟩ := ih (eq_error_of_map hread) (by omega)
        refine ⟨d :: items, close, .cons (hskip.trans hgap) hd hitems, ?_⟩
        simpa using hend
    · rw [Classical.not_imp] at hpoint
      obtain ⟨hallowed, hpoint⟩ := hpoint
      obtain ⟨after, hafter⟩ := Option.ne_none_iff_exists'.1 hpoint
      have htailed : dotted = true ∧ (started = true ∨ ([] : List Datum) ≠ []) :=
        ⟨hallowed.1, .inl hallowed.2⟩
      rw [readElements_of_point hallowed.1 hallowed.2 hafter] at hread
      cases htail : element after with
      | error e =>
        simp only [htail, Except.bind, Except.error.injEq] at hread
        subst hread
        exact ⟨[], text, .nil _, .tail htailed hafter (hfails _ _ htail)⟩
      | ok found =>
        obtain ⟨d, closing⟩ := found
        obtain ⟨start, hgap, hd⟩ := hinner _ _ _ htail
        simp only [htail, Except.bind, readClose] at hread
        split at hread
        case h_1 => cases hread
        case h_2 hclose =>
          cases hread
          exact ⟨[], text, .nil _, .close htailed hafter hgap hd hclose⟩

end Inner

/-! ### Data -/

/-- A refused text is not read, if what fails inside it is not. -/
lemma readFrom_of_refuses
    (hfails : ∀ text f, Fails comments levels text f → readFrom comments levels text = .error f)
    (hskip : skip comments text = text)
    (hf : Refuses comments (Denotes Atom comments levels) (Fails comments levels) text f) :
    readFrom comments (levels + 1) text = .error f := by
  have hbegins (text : List Char) (d : Datum) (rest : List Char) :
      Denotes Atom comments levels text d rest → Begins text := Denotes.begins
  have hless (text : List Char) (d : Datum) (rest : List Char) :
      Denotes Atom comments levels text d rest → rest.length < text.length := Denotes.length_lt
  have helement (text start : List Char) (d : Datum) (rest : List Char)
      (hgap : Gap comments text start) (hd : Denotes Atom comments levels start d rest) :
      readFrom comments levels text = .ok (d, rest) := readFrom_iff.2 ⟨start, hgap, hd⟩
  cases hf with
  | quote hf =>
    rw [readFrom_quote, hfails _ _ hf]
    rfl
  | @vector text close items _ hitems hend =>
    have hbound : text.length < ('(' :: text).length := Nat.lt_succ_self _
    have helements : readElements comments false (readFrom comments levels) ('(' :: text) false
        text = .error f :=
      readElements_of_items_breaks hbegins hless helement hfails hitems (by simpa using hend) hbound
    rw [readFrom_vector, helements]
    rfl
  | @list text close items _ hitems hend =>
    have hbound : text.length < ('(' :: text).length := Nat.lt_succ_self _
    have helements : readElements comments true (readFrom comments levels) ('(' :: text) false
        text = .error f :=
      readElements_of_items_breaks hbegins hless helement hfails hitems (by simpa using hend) hbound
    rw [readFrom_list, helements]
    rfl
  | string hf =>
    rw [readFrom_string, readString_error_iff.2 hf]
    rfl
  | atom hopening hvector hf =>
    rw [readFrom, hskip]
    split
    case h_1 => exact absurd (by simp) (hopening '\'' rfl)
    case h_2 after => exact absurd ⟨after, rfl⟩ hvector
    case h_3 => exact absurd (by simp) (hopening '(' rfl)
    case h_4 => exact absurd (by simp) (hopening '"' rfl)
    case h_5 => exact readAtom_error_iff.2 hf

/-- A text that is not read is refused, if what is not read inside it fails. -/
lemma refuses_of_readFrom
    (hfails : ∀ text f, readFrom comments levels text = .error f → Fails comments levels text f)
    (hread : readFrom comments (levels + 1) text = .error f) :
    Refuses comments (Denotes Atom comments levels) (Fails comments levels) (skip comments text)
      f := by
  have hless (text : List Char) (d : Datum) (rest : List Char) :
      Denotes Atom comments levels text d rest → rest.length < text.length := Denotes.length_lt
  have hinner (text : List Char) (d : Datum) (rest : List Char) :
      readFrom comments levels text = .ok (d, rest) →
        ∃ start, Gap comments text start ∧ Denotes Atom comments levels start d rest :=
    readFrom_iff.1
  rw [readFrom] at hread
  split at hread
  case h_1 after hskip =>
    rw [hskip]
    exact .quote (hfails _ _ (eq_error_of_map hread))
  case h_2 after hskip =>
    rw [hskip]
    obtain ⟨items, close, hitems, hend⟩ :=
      breaks_of_readElements hless hinner hfails (eq_error_of_map hread) (Nat.lt_succ_self _)
    exact .vector hitems (by simpa using hend)
  case h_3 after hskip =>
    rw [hskip]
    obtain ⟨items, close, hitems, hend⟩ :=
      breaks_of_readElements hless hinner hfails (eq_error_of_map hread) (Nat.lt_succ_self _)
    exact .list hitems (by simpa using hend)
  case h_4 after hskip =>
    rw [hskip]
    exact .string (readString_error_iff.1 (eq_error_of_map hread))
  case h_5 hquote hvector hlist hstring =>
    refine .atom ?_ ?_ (readAtom_error_iff.1 hread)
    · intro c hc
      obtain ⟨after, hafter⟩ := List.head?_eq_some_iff.1 hc
      simp only [List.mem_cons, List.not_mem_nil, or_false]
      rintro (rfl | rfl | rfl)
      · exact hquote _ hafter
      · exact hlist _ hafter
      · exact hstring _ hafter
    · rintro ⟨after, hafter⟩
      exact hvector after hafter.symm

/-- With the same number of levels, reading a text fails as the text does. -/
theorem readFrom_error_iff :
    readFrom comments levels text = .error f ↔ Fails comments levels text f := by
  induction levels generalizing text f with
  | zero => simp [readFrom, Fails, eq_comm]
  | succ levels ih =>
    constructor
    · exact refuses_of_readFrom fun _ _ => ih.1
    · intro hf
      rw [readFrom_gap (gap_skip comments text)]
      exact readFrom_of_refuses (fun _ _ => ih.2) (skip_skip comments text) hf

/-! ### Texts -/

/-- The data at the start of a text, one after the other, and what is left of the text where no
further datum follows. -/
abbrev Leads (text : List Char) (data : List Datum) (close : List Char) : Prop :=
  Items true (Denotes Atom true maxLevels) text data close

/-- After data that are read something follows that fails. -/
def Stalls (text : List Char) (f : Failure) : Prop :=
  ∃ data close, Leads text data close ∧ skip true close ≠ [] ∧
    Fails true maxLevels (skip true close) f

section Texts

variable {input : List Char} {data : List Datum} {budget : Nat} {e : ParseError}

lemma readAllFrom_end (hskip : skip true text = []) : readAllFrom input budget text = .ok [] := by
  cases budget with
  | zero => rfl
  | succ budget => rw [readAllFrom, hskip]

lemma readAllFrom_fails (hne : skip true text ≠ [])
    (hf : Fails true maxLevels (skip true text) f) :
    readAllFrom input (budget + 1) text = .error (f.toError input) := by
  rw [readAllFrom]
  split
  case h_1 hnil => exact absurd hnil hne
  case h_2 => rw [readFrom_error_iff.2 hf]

lemma readAllFrom_datum {start : List Char} (hgap : Gap true text start)
    (hd : Denotes Atom true maxLevels start d rest) :
    readAllFrom input (budget + 1) text = (readAllFrom input budget rest).map (d :: ·) := by
  have hskip : skip true text = start := by rw [hgap.skip_eq, hd.begins.skip]
  rw [readAllFrom, hskip]
  split
  case h_1 => exact absurd rfl hd.ne_nil
  case h_2 => rw [readFrom_iff.2 ⟨start, .none _, hd⟩]

/-- The data that lead a text are read first. -/
lemma readAllFrom_leads (hlead : Leads text data close) (hbudget : text.length < budget) :
    ∃ budget', close.length < budget' ∧ readAllFrom input budget text =
      (readAllFrom input budget' close).map (data ++ ·) := by
  induction hlead generalizing budget with
  | nil text =>
    refine ⟨budget, hbudget, ?_⟩
    cases readAllFrom input budget text <;> rfl
  | @cons text start next _ d items hgap hd _ ih =>
    obtain ⟨budget, rfl⟩ : ∃ b, budget = b + 1 := ⟨budget - 1, by omega⟩
    have hstart := hgap.length_le
    have hnext := hd.length_lt
    have hroom : next.length < budget := by omega
    obtain ⟨budget', hbudget', hread⟩ := ih hroom
    refine ⟨budget', hbudget', ?_⟩
    rw [readAllFrom_datum hgap hd, hread]
    cases readAllFrom input budget' _ <;> rfl

/-- Reading all data ends at the end of the text or where a datum fails. -/
lemma readAllFrom_spec (hbudget : text.length < budget) :
    (∃ data close, Leads text data close ∧ skip true close = [] ∧
      readAllFrom input budget text = .ok data) ∨
    ∃ f, Stalls text f ∧ readAllFrom input budget text = .error (f.toError input) := by
  induction budget generalizing text with
  | zero => omega
  | succ budget ih =>
    by_cases hskip : skip true text = []
    · exact .inl ⟨[], text, .nil _, hskip, readAllFrom_end hskip⟩
    cases hread : readFrom true maxLevels (skip true text) with
    | error f =>
      have hf := readFrom_error_iff.1 hread
      exact .inr ⟨f, ⟨[], text, .nil _, hskip, hf⟩, readAllFrom_fails hskip hf⟩
    | ok found =>
      obtain ⟨d, rest⟩ := found
      obtain ⟨start, hgap, hd⟩ := readFrom_iff.1 hread
      have hstart := ((gap_skip true text).trans hgap)
      have hlength := hstart.length_le
      have hless := hd.length_lt
      have hroom : rest.length < budget := by omega
      rw [readAllFrom_datum hstart hd]
      obtain ⟨data, close, hlead, hend, hrest⟩ | ⟨f, hstall, hrest⟩ := ih hroom
      · exact .inl ⟨d :: data, close, .cons hstart hd hlead, hend, by rw [hrest]; rfl⟩
      · obtain ⟨data, close, hlead, hend, hf⟩ := hstall
        refine .inr ⟨f, ⟨d :: data, close, .cons hstart hd hlead, hend, hf⟩, ?_⟩
        rw [hrest]
        rfl

lemma readAllChars_leads (hlead : Leads input data close) :
    ∃ budget, close.length < budget ∧
      readAllChars input = (readAllFrom input budget close).map (data ++ ·) :=
  readAllFrom_leads hlead (Nat.lt_succ_self _)

lemma readAllChars_spec (input : List Char) :
    (∃ data close, Leads input data close ∧ skip true close = [] ∧
      readAllChars input = .ok data) ∨
    ∃ f, Stalls input f ∧ readAllChars input = .error (f.toError input) :=
  readAllFrom_spec (Nat.lt_succ_self _)

/-- A text is read if it is data one after the other, between gaps. -/
theorem readAllChars_iff :
    readAllChars input = .ok data ↔ ∃ close, Leads input data close ∧ Gap true close [] := by
  constructor
  · intro hread
    obtain ⟨data', close, hlead, hend, hread'⟩ | ⟨f, -, hread'⟩ := readAllChars_spec input
    · rw [hread'] at hread
      cases hread
      exact ⟨close, hlead, hend ▸ gap_skip true close⟩
    · rw [hread'] at hread
      cases hread
  · rintro ⟨close, hlead, hend⟩
    obtain ⟨budget, -, hread⟩ := readAllChars_leads hlead
    rw [hread, readAllFrom_end hend.skip_eq]
    exact congrArg Except.ok (List.append_nil data)

/-- A text is an error if some datum in it fails after the data before it are read. -/
theorem readAllChars_error_iff :
    readAllChars input = .error e ↔ ∃ f, Stalls input f ∧ e = f.toError input := by
  constructor
  · intro hread
    obtain ⟨data, close, -, -, hread'⟩ | ⟨f, hstall, hread'⟩ := readAllChars_spec input
    · rw [hread'] at hread
      cases hread
    · rw [hread'] at hread
      exact ⟨f, hstall, (Except.error.inj hread).symm⟩
  · rintro ⟨f, ⟨data, close, hlead, hne, hf⟩, rfl⟩
    obtain ⟨budget, hbudget, hread⟩ := readAllChars_leads hlead
    obtain ⟨budget, rfl⟩ : ∃ b, budget = b + 1 := ⟨budget - 1, by omega⟩
    rw [hread, readAllFrom_fails hne hf]
    rfl

end Texts

end HostedLisp.Datum
