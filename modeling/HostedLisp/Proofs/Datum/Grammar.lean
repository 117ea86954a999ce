import HostedLisp.Proofs.Datum.RoundTrip
import Mathlib.Data.Nat.Digits.Defs
import Mathlib.Tactic.Ring

/-!
# The grammar of data

What a text denotes, said without a reader: gaps between tokens, the kinds of tokens, and data
inside data, one level deeper each time. Tokens and gaps are where the reader stops looking ahead,
so they are compared with it here; `readToken_iff` is the main statement for tokens.
-/

namespace HostedLisp.Datum

variable {comments : Bool} {base : Nat} {token text rest digits : List Char} {d : Datum}

/-! ### Gaps -/

/-- Separators and comments, and the text after them. A comment runs from a semicolon to the end of
its line. -/
inductive Gap (comments : Bool) : List Char → List Char → Prop
  | none (text : List Char) : Gap comments text text
  | separator {c : Char} {text rest : List Char} (hc : c ∈ [' ', '\t', '\r', '\n'])
      (hgap : Gap comments text rest) : Gap comments (c :: text) rest
  | comment {body text rest : List Char} (hcomments : comments = true) (hbody : '\n' ∉ body)
      (hgap : Gap comments text rest) : Gap comments (';' :: (body ++ '\n' :: text)) rest
  | lastComment {body : List Char} (hcomments : comments = true) (hbody : '\n' ∉ body) :
      Gap comments (';' :: body) []

lemma isSeparator_iff {c : Char} : isSeparator c = true ↔ c ∈ [' ', '\t', '\r', '\n'] := by
  simp [isSeparator, or_assoc]

lemma skipFrom_line {body : List Char} (hbody : '\n' ∉ body) :
    skipFrom comments true (body ++ '\n' :: text) = skipFrom comments false text := by
  induction body with
  | nil => rfl
  | cons c body ih =>
    rw [List.mem_cons, not_or] at hbody
    have hc : (c != '\n') = true := by simpa using Ne.symm hbody.1
    rw [List.cons_append, skipFrom, hc, ih hbody.2]

lemma skipFrom_lastLine {body : List Char} (hbody : '\n' ∉ body) :
    skipFrom comments true body = [] := by
  induction body with
  | nil => rfl
  | cons c body ih =>
    rw [List.mem_cons, not_or] at hbody
    have hc : (c != '\n') = true := by simpa using Ne.symm hbody.1
    rw [skipFrom, hc, ih hbody.2]

/-- All of a gap is skipped. -/
lemma Gap.skip_eq (hgap : Gap comments text rest) : skip comments text = skip comments rest := by
  induction hgap with
  | none => rfl
  | separator hc _ ih =>
    rw [skip, skipFrom, if_pos (isSeparator_iff.2 hc)]
    exact ih
  | comment hcomments hbody _ ih =>
    rw [skip, skipFrom, if_neg (by decide), if_pos (by simp [hcomments]), skipFrom_line hbody]
    exact ih
  | lastComment hcomments hbody =>
    rw [skip, skipFrom, if_neg (by decide), if_pos (by simp [hcomments]), skipFrom_lastLine hbody]
    rfl

/-- What is skipped is a gap; inside a comment, it is one after the end of the line. -/
lemma gap_skipFrom (comments : Bool) (text : List Char) :
    Gap comments text (skipFrom comments false text) ∧
      (comments = true → Gap comments (';' :: text) (skipFrom comments true text)) := by
  have hcomment (text : List Char)
      (hgap : ∀ text', text'.length < text.length →
        Gap comments text' (skipFrom comments false text')) (hcomments : comments = true) :
      Gap comments (';' :: text) (skipFrom comments true text) := by
    by_cases hline : '\n' ∈ text
    · obtain ⟨body, after, rfl, hbody⟩ := List.eq_append_cons_of_mem hline
      rw [skipFrom_line hbody]
      exact .comment hcomments hbody (hgap after (by simp; omega))
    · rw [skipFrom_lastLine hline]
      exact .lastComment hcomments hline
  induction hlength : text.length using Nat.strongRecOn generalizing text with
  | ind n ih =>
    have hshort (text' : List Char) (hless : text'.length < text.length) :
        Gap comments text' (skipFrom comments false text') :=
      (ih text'.length (hlength ▸ hless) text' rfl).1
    refine ⟨?_, hcomment text hshort⟩
    cases text with
    | nil => exact .none _
    | cons c text =>
      rw [skipFrom]
      split
      case isTrue hc => exact .separator (isSeparator_iff.1 hc) (hshort text (by simp))
      case isFalse =>
        split
        case isTrue hc =>
          simp only [Bool.and_eq_true, decide_eq_true_eq] at hc
          obtain ⟨hcomments, rfl⟩ := hc
          exact hcomment text (fun text' hless => hshort text' (hless.trans (by simp))) hcomments
        case isFalse => exact .none _

lemma gap_skip (comments : Bool) (text : List Char) : Gap comments text (skip comments text) :=
  (gap_skipFrom comments text).1

lemma Gap.length_le (hgap : Gap comments text rest) : rest.length ≤ text.length := by
  induction hgap with
  | none => exact le_rfl
  | separator _ _ ih => exact ih.trans (by simp)
  | comment _ _ _ ih => exact ih.trans (by simp; omega)
  | lastComment => simp

/-! ### Numbers -/

/-- A run of digits writes a number, the digit of most weight first. -/
def IsNatural (base : Nat) (digits : List Char) (n : Nat) : Prop :=
  digits ≠ [] ∧ ∃ values : List Nat,
    digits.map (Numeral.digit? base) = values.map some ∧ n = Nat.ofDigits base values.reverse

/-- Digits after at most one sign write an integer of 64 bits. -/
inductive IsInteger (base : Nat) : List Char → Int64 → Prop
  | unsigned {digits : List Char} {m : Nat} {n : Int64} (hdigits : IsNatural base digits m)
      (hn : n.toInt = m) : IsInteger base digits n
  | plus {digits : List Char} {m : Nat} {n : Int64} (hdigits : IsNatural base digits m)
      (hn : n.toInt = m) : IsInteger base ('+' :: digits) n
  | minus {digits : List Char} {m : Nat} {n : Int64} (hdigits : IsNatural base digits m)
      (hn : n.toInt = -m) : IsInteger base ('-' :: digits) n

/-- The signs that may stand before a number. -/
def signs : List (List Char) := [[], ['+'], ['-']]

/-- A token starts like a number: a digit, or a point and a digit, after at most one sign. -/
def NumericShape (token : List Char) : Prop :=
  ∃ sign ∈ signs, ∃ c rest, c.isDigit = true ∧
    (token = sign ++ c :: rest ∨ token = sign ++ '.' :: c :: rest)

/-- Nothing but digits after the sign. -/
def IsWhole (token : List Char) : Prop :=
  ∃ sign ∈ signs, ∃ digits, token = sign ++ digits ∧ ∀ c ∈ digits, c.isDigit = true

lemma digitsFrom?_eq_some_iff {value n : Nat} :
    Numeral.digitsFrom? base value digits = some n ↔ ∃ values : List Nat,
      digits.map (Numeral.digit? base) = values.map some ∧
        n = value * base ^ values.length + Nat.ofDigits base values.reverse := by
  induction digits generalizing value with
  | nil =>
    constructor
    · intro hn
      exact ⟨[], rfl, by simpa [Numeral.digitsFrom?] using hn.symm⟩
    · rintro ⟨values, hvalues, rfl⟩
      obtain rfl : values = [] := by simpa using hvalues
      simp [Numeral.digitsFrom?]
  | cons c digits ih =>
    rw [Numeral.digitsFrom?]
    cases hc : Numeral.digit? base c with
    | none =>
      refine ⟨by simp, ?_⟩
      rintro ⟨values, hvalues, -⟩
      cases values <;> simp [hc] at hvalues
    | some value' =>
      have hweight (values : List Nat) :
          (value * base + value') * base ^ values.length + Nat.ofDigits base values.reverse =
            value * base ^ (value' :: values).length +
              Nat.ofDigits base (value' :: values).reverse := by
        rw [List.reverse_cons, Nat.ofDigits_append, Nat.ofDigits_singleton, List.length_cons,
          List.length_reverse]
        ring
      dsimp only
      rw [ih]
      constructor
      · rintro ⟨values, hvalues, rfl⟩
        exact ⟨value' :: values, by simp [hc, hvalues], hweight values⟩
      · rintro ⟨values, hvalues, rfl⟩
        cases values with
        | nil => simp at hvalues
        | cons first values =>
          simp only [List.map_cons, List.cons.injEq, hc, Option.some.injEq] at hvalues
          obtain ⟨rfl, hvalues⟩ := hvalues
          exact ⟨values, hvalues, (hweight values).symm⟩

lemma natural?_eq_some_iff {n : Nat} :
    Numeral.natural? base digits = some n ↔ IsNatural base digits n := by
  cases digits with
  | nil => exact ⟨by simp [Numeral.natural?], fun hn => absurd rfl hn.1⟩
  | cons c digits =>
    rw [Numeral.natural?, digitsFrom?_eq_some_iff, IsNatural]
    · simp
    · simp

lemma word?_eq_some_iff {m : Int} {n : Int64} : Numeral.word? m = some n ↔ n.toInt = m := by
  constructor
  · intro hn
    rw [Numeral.word?] at hn
    split at hn
    case isFalse => cases hn
    case isTrue hrange =>
      rw [Numeral.inWord_iff] at hrange
      obtain rfl := Option.some.inj hn
      exact Int64.toInt_ofInt_of_le (by omega) (by omega)
  · rintro rfl
    exact word?_toInt n

/-- No digit is a sign. -/
lemma IsNatural.head_ne {c : Char} {n : Nat} (hn : IsNatural base (c :: digits) n) :
    c ≠ '+' ∧ c ≠ '-' := by
  obtain ⟨-, values, hvalues, -⟩ := hn
  constructor <;> rintro rfl <;> cases values <;>
    simp [Numeral.digit?, Option.filter] at hvalues

lemma readWord?_eq_some_iff {n : Int64} :
    Numeral.readWord? base token = some n ↔ IsInteger base token n := by
  rw [Numeral.readWord?, Option.bind_eq_some_iff]
  constructor
  · rintro ⟨m, hm, hn⟩
    rw [word?_eq_some_iff] at hn
    unfold Numeral.integer? at hm
    split at hm
    case h_1 digits =>
      cases hk : Numeral.natural? base digits with
      | none => simp [hk] at hm
      | some k =>
        rw [hk] at hm
        obtain rfl := Option.some.inj hm
        exact .minus (natural?_eq_some_iff.1 hk) hn
    case h_2 digits =>
      obtain ⟨k, hk, rfl⟩ := Option.map_eq_some_iff.1 hm
      exact .plus (natural?_eq_some_iff.1 hk) hn
    case h_3 =>
      obtain ⟨k, hk, rfl⟩ := Option.map_eq_some_iff.1 hm
      exact .unsigned (natural?_eq_some_iff.1 hk) hn
  · intro hn
    cases hn with
    | @unsigned _ m _ hdigits hn =>
      refine ⟨m, ?_, word?_eq_some_iff.2 hn⟩
      unfold Numeral.integer?
      split
      · exact absurd rfl hdigits.head_ne.2
      · exact absurd rfl hdigits.head_ne.1
      · rw [natural?_eq_some_iff.2 hdigits]
        rfl
    | @plus _ m _ hdigits hn =>
      refine ⟨m, ?_, word?_eq_some_iff.2 hn⟩
      rw [Numeral.integer?, natural?_eq_some_iff.2 hdigits]
      rfl
    | @minus _ m _ hdigits hn =>
      refine ⟨-m, ?_, word?_eq_some_iff.2 hn⟩
      rw [Numeral.integer?, natural?_eq_some_iff.2 hdigits]
      rfl

/-! ### The shape of numbers -/

lemma splitSign_spec (token : List Char) :
    ∃ sign ∈ signs, token = sign ++ (Decimal.splitSign token).2 := by
  unfold Decimal.splitSign
  split
  · exact ⟨['-'], by simp [signs], rfl⟩
  · exact ⟨['+'], by simp [signs], rfl⟩
  · exact ⟨[], by simp [signs], rfl⟩

/-- A text that begins with no sign stands after any of the signs. -/
lemma splitSign_append {sign : List Char} (hsign : sign ∈ signs)
    (hplain : (Decimal.splitSign text).2 = text) :
    (Decimal.splitSign (sign ++ text)).2 = text := by
  obtain rfl | rfl | rfl : sign = [] ∨ sign = ['+'] ∨ sign = ['-'] := by
    simpa [signs] using hsign
  · exact hplain
  · rfl
  · rfl

lemma looksNumeric_iff : looksNumeric token = true ↔ NumericShape token := by
  constructor
  · intro hlooks
    obtain ⟨sign, hsign, heq⟩ := splitSign_spec token
    rw [looksNumeric] at hlooks
    split at hlooks
    case h_1 _ c rest hunsigned =>
      exact ⟨sign, hsign, c, rest, hlooks, .inr (hunsigned ▸ heq)⟩
    case h_2 _ c rest _ hunsigned =>
      exact ⟨sign, hsign, c, rest, hlooks, .inl (hunsigned ▸ heq)⟩
    case h_3 => cases hlooks
  · rintro ⟨sign, hsign, c, rest, hc, rfl | rfl⟩
    · have hplain : (Decimal.splitSign (c :: rest)).2 = c :: rest := by
        rw [splitSign_of_isDigit hc]
      exact looksNumeric_of_splitSign (Prod.ext rfl (splitSign_append hsign hplain)) hc
    · rw [looksNumeric, splitSign_append hsign rfl]
      exact hc

lemma all_isDigit_iff : (Decimal.splitSign token).2.all Char.isDigit = true ↔ IsWhole token := by
  rw [List.all_eq_true]
  constructor
  · intro hall
    obtain ⟨sign, hsign, heq⟩ := splitSign_spec token
    exact ⟨sign, hsign, _, heq, hall⟩
  · rintro ⟨sign, hsign, digits, rfl, hall⟩
    have hplain : (Decimal.splitSign digits).2 = digits := by
      cases digits with
      | nil => rfl
      | cons c digits => rw [splitSign_of_isDigit (hall c List.mem_cons_self)]
    rwa [splitSign_append hsign hplain]

lemma isDigit_of_digit? {c : Char} {value : Nat} (hc : Numeral.digit? 10 c = some value) :
    c.isDigit = true := by
  unfold Numeral.digit? at hc
  by_contra hdigit
  rw [if_neg hdigit] at hc
  split at hc
  · simp [Option.filter] at hc
  · split at hc <;> simp [Option.filter] at hc

lemma IsNatural.all_isDigit {n : Nat} (hn : IsNatural 10 digits n) :
    ∀ c ∈ digits, c.isDigit = true := by
  obtain ⟨-, values, hvalues, -⟩ := hn
  intro c hc
  have hmem : Numeral.digit? 10 c ∈ values.map some := hvalues ▸ List.mem_map_of_mem hc
  obtain ⟨value, -, hvalue⟩ := List.mem_map.1 hmem
  exact isDigit_of_digit? hvalue.symm

/-- A decimal integer has the shape of a number and only digits after its sign. -/
lemma IsInteger.shape {n : Int64} (hn : IsInteger 10 token n) :
    NumericShape token ∧ IsWhole token := by
  have hshape {sign : List Char} (hsign : sign ∈ signs) {digits : List Char} {m : Nat}
      (hm : IsNatural 10 digits m) : NumericShape (sign ++ digits) ∧ IsWhole (sign ++ digits) := by
    refine ⟨?_, sign, hsign, digits, rfl, hm.all_isDigit⟩
    cases digits with
    | nil => exact absurd rfl hm.1
    | cons c digits =>
      exact ⟨sign, hsign, c, digits, hm.all_isDigit c List.mem_cons_self, .inl rfl⟩
  cases hn with
  | unsigned hdigits => exact hshape (List.mem_cons_self) hdigits
  | @plus digits _ _ hdigits =>
    have hsign : ['+'] ∈ signs := by simp [signs]
    exact hshape hsign hdigits
  | @minus digits _ _ hdigits =>
    have hsign : ['-'] ∈ signs := by simp [signs]
    exact hshape hsign hdigits

/-! ### Tokens -/

/-- What a token denotes. A token with the shape of a number is a number or nothing; one that has
only digits after its sign is an integer or nothing. -/
inductive Atom : List Char → Datum → Prop
  | true {token : List Char} (htoken : token ∈ [['#', 't'], ['#', 't', 'r', 'u', 'e']]) :
      Atom token (.bool Bool.true)
  | false {token : List Char} (htoken : token ∈ [['#', 'f'], ['#', 'f', 'a', 'l', 's', 'e']]) :
      Atom token (.bool Bool.false)
  | decimal {token : List Char} {n : Int64} (hn : IsInteger 10 token n) : Atom token (.int n)
  | hexadecimal {x : Char} {digits : List Char} {n : Int64} (hx : x = 'x' ∨ x = 'X')
      (hn : IsInteger 16 digits n) : Atom ('#' :: x :: digits) (.int n)
  | float {token : List Char} {x : Decimal} (hshape : NumericShape token)
      (hwhole : ¬IsWhole token) (hx : Decimal.read? token = some x) : Atom token (.float x.toFloat)
  | name {token : List Char} (hshape : ¬NumericShape token)
      (hname : Symbol.isName token = Bool.true) : Atom token (.sym ⟨String.ofList token⟩)

lemma readNumber_eq_ok_iff :
    readNumber token = .ok d ↔ (∃ n, d = .int n ∧ IsInteger 10 token n) ∨
      ∃ x, d = .float x.toFloat ∧ ¬IsWhole token ∧ Decimal.read? token = some x := by
  rw [readNumber]
  by_cases hwhole : IsWhole token
  · rw [if_pos (all_isDigit_iff.2 hwhole)]
    cases hn : Numeral.readWord? 10 token with
    | none =>
      refine ⟨by simp, ?_⟩
      rintro (⟨n, -, hn'⟩ | ⟨x, -, hno, -⟩)
      · rw [readWord?_eq_some_iff.2 hn'] at hn
        cases hn
      · exact absurd hwhole hno
    | some n =>
      constructor
      · intro heq
        cases heq
        exact .inl ⟨n, rfl, readWord?_eq_some_iff.1 hn⟩
      · rintro (⟨n', rfl, hn'⟩ | ⟨x, -, hno, -⟩)
        · rw [readWord?_eq_some_iff.2 hn'] at hn
          cases hn
          rfl
        · exact absurd hwhole hno
  · rw [if_neg fun hall => hwhole (all_isDigit_iff.1 hall)]
    cases hx : Decimal.read? token with
    | none =>
      refine ⟨by simp, ?_⟩
      rintro (⟨n, -, hn⟩ | ⟨x, -, -, hx'⟩)
      · exact absurd hn.shape.2 hwhole
      · cases hx'
    | some x =>
      constructor
      · intro heq
        cases heq
        exact .inr ⟨x, rfl, hwhole, rfl⟩
      · rintro (⟨n, -, hn⟩ | ⟨x', rfl, -, hx'⟩)
        · exact absurd hn.shape.2 hwhole
        · cases hx'
          rfl

lemma readHexadecimal_eq_ok_iff :
    readHexadecimal digits = .ok d ↔ ∃ n, d = .int n ∧ IsInteger 16 digits n := by
  rw [readHexadecimal]
  cases hn : Numeral.readWord? 16 digits with
  | none =>
    refine ⟨by simp, ?_⟩
    rintro ⟨n, -, hn'⟩
    rw [readWord?_eq_some_iff.2 hn'] at hn
    cases hn
  | some n =>
    constructor
    · intro heq
      cases heq
      exact ⟨n, rfl, readWord?_eq_some_iff.1 hn⟩
    · rintro ⟨n', rfl, hn'⟩
      rw [readWord?_eq_some_iff.2 hn'] at hn
      cases hn
      rfl

lemma NumericShape.head_ne {c : Char} (hshape : NumericShape (c :: text)) : c ≠ '#' := by
  rintro rfl
  have hlooks := looksNumeric_iff.2 hshape
  cases hlooks

lemma head_ne_of_isName {c : Char} (hname : Symbol.isName (c :: text) = true) : c ≠ '#' := by
  rintro rfl
  have hletter : Text.isAlphanumeric '#' = false := by decide
  simp [Symbol.isName, Symbol.isNameChar, Symbol.punctuation, hletter] at hname

/-- The reader gives a token the meaning that it has. -/
theorem readToken_iff : readToken token = .ok d ↔ Atom token d := by
  constructor
  · intro hread
    unfold readToken at hread
    split at hread
    case h_1 | h_2 =>
      cases hread
      exact .true (by simp)
    case h_3 | h_4 =>
      cases hread
      exact .false (by simp)
    case h_5 =>
      obtain ⟨n, rfl, hn⟩ := readHexadecimal_eq_ok_iff.1 hread
      exact .hexadecimal (.inl rfl) hn
    case h_6 =>
      obtain ⟨n, rfl, hn⟩ := readHexadecimal_eq_ok_iff.1 hread
      exact .hexadecimal (.inr rfl) hn
    case h_7 =>
      split at hread
      case isTrue hlooks =>
        have hshape := looksNumeric_iff.1 hlooks
        obtain ⟨n, rfl, hn⟩ | ⟨x, rfl, hwhole, hx⟩ := readNumber_eq_ok_iff.1 hread
        · exact .decimal hn
        · exact .float hshape hwhole hx
      case isFalse hlooks =>
        split at hread
        case isTrue hname =>
          cases hread
          exact .name (fun hshape => hlooks (looksNumeric_iff.2 hshape)) hname
        case isFalse => cases hread
  · intro hatom
    cases hatom with
    | true htoken =>
      obtain rfl | rfl : token = ['#', 't'] ∨ token = ['#', 't', 'r', 'u', 'e'] := by
        simpa using htoken
      · rfl
      · rfl
    | false htoken =>
      obtain rfl | rfl : token = ['#', 'f'] ∨ token = ['#', 'f', 'a', 'l', 's', 'e'] := by
        simpa using htoken
      · rfl
      · rfl
    | hexadecimal hx hn =>
      have hread := readHexadecimal_eq_ok_iff.2 ⟨_, rfl, hn⟩
      obtain rfl | rfl := hx
      · exact hread
      · exact hread
    | decimal hn =>
      have hshape := hn.shape.1
      cases token with
      | nil => cases looksNumeric_iff.2 hshape
      | cons c text =>
        rw [readToken_of_ne hshape.head_ne, if_pos (looksNumeric_iff.2 hshape)]
        exact readNumber_eq_ok_iff.2 (.inl ⟨_, rfl, hn⟩)
    | float hshape hwhole hx =>
      cases token with
      | nil => cases looksNumeric_iff.2 hshape
      | cons c text =>
        rw [readToken_of_ne hshape.head_ne, if_pos (looksNumeric_iff.2 hshape)]
        exact readNumber_eq_ok_iff.2 (.inr ⟨_, rfl, hwhole, hx⟩)
    | name hshape hname =>
      cases token with
      | nil => cases hname
      | cons c text =>
        have hlooks : ¬looksNumeric (c :: text) = true := fun hlooks =>
          hshape (looksNumeric_iff.1 hlooks)
        rw [readToken_of_ne (head_ne_of_isName hname), if_neg hlooks, if_pos hname]

/-- What tokens would denote if every token that passes as a name were one, also those with the
shape of a number. -/
inductive LooseAtom : List Char → Datum → Prop
  | atom {token : List Char} {d : Datum} (hatom : Atom token d) : LooseAtom token d
  | name {token : List Char} (hno : ∀ d, ¬Atom token d)
      (hname : Symbol.isName token = Bool.true) : LooseAtom token (.sym ⟨String.ofList token⟩)

/-! ### Strings -/

/-- The text of a string after its opening quote, its characters, and the text after it. -/
inductive StringBody : List Char → List Char → List Char → Prop
  | close (rest : List Char) : StringBody ('"' :: rest) [] rest
  | escape {letter c : Char} {text chars rest : List Char}
      (hletter : (letter, c) ∈
        [('n', '\n'), ('t', '\t'), ('r', '\r'), ('\\', '\\'), ('"', '"')])
      (hbody : StringBody text chars rest) :
      StringBody ('\\' :: letter :: text) (c :: chars) rest
  | plain {c : Char} {text chars rest : List Char} (hquote : c ≠ '"') (hbackslash : c ≠ '\\')
      (hbody : StringBody text chars rest) : StringBody (c :: text) (c :: chars) rest

lemma unescape?_eq_some_iff {letter c : Char} : Text.unescape? letter = some c ↔
    (letter, c) ∈ [('n', '\n'), ('t', '\t'), ('r', '\r'), ('\\', '\\'), ('"', '"')] := by
  unfold Text.unescape?
  split <;> simp_all [eq_comm]

lemma readString_plain {c : Char} (hquote : c ≠ '"') (hbackslash : c ≠ '\\') :
    readString (c :: text) = (readString text).map fun (more, rest) => (c :: more, rest) := by
  rw [readString]
  · exact fun heq _ => hbackslash heq
  · exact hquote
  · exact fun _ _ heq _ => hbackslash heq

/-- A character is no backslash if it is none at the end of a text and none before a letter. -/
lemma ne_backslash {c : Char} (hend : c = '\\' → text = [] → False)
    (hescape : ∀ letter after, c = '\\' → text = letter :: after → False) : c ≠ '\\' := by
  intro heq
  cases text with
  | nil => exact hend heq rfl
  | cons letter after => exact hescape letter after heq rfl

lemma readString_of_body {chars : List Char} (hbody : StringBody text chars rest) :
    readString text = .ok (chars, rest) := by
  induction hbody with
  | close => rfl
  | escape hletter _ ih =>
    rw [readString, unescape?_eq_some_iff.2 hletter]
    dsimp only
    rw [ih]
    rfl
  | plain hquote hbackslash _ ih =>
    rw [readString_plain hquote hbackslash, ih]
    rfl

lemma body_of_readString {chars : List Char} (hread : readString text = .ok (chars, rest)) :
    StringBody text chars rest := by
  induction text using readString.induct generalizing chars with
  | case1 | case2 => cases hread
  | case3 after =>
    cases hread
    exact .close _
  | case4 letter after c hletter ih =>
    rw [readString, hletter] at hread
    cases hafter : readString after with
    | error e => simp [hafter, Except.map] at hread
    | ok found =>
      simp only [hafter, Except.map, Except.ok.injEq, Prod.mk.injEq] at hread
      obtain ⟨rfl, rfl⟩ := hread
      exact .escape (unescape?_eq_some_iff.1 hletter) (ih hafter)
  | case5 letter after hletter =>
    rw [readString, hletter] at hread
    cases hread
  | case6 c after hend hquote hescape ih =>
    have hbackslash : c ≠ '\\' := ne_backslash hend hescape
    rw [readString_plain hquote hbackslash] at hread
    cases hafter : readString after with
    | error e => simp [hafter, Except.map] at hread
    | ok found =>
      simp only [hafter, Except.map, Except.ok.injEq, Prod.mk.injEq] at hread
      obtain ⟨rfl, rfl⟩ := hread
      exact .plain hquote hbackslash (ih hafter)

lemma StringBody.length_lt {chars : List Char} (hbody : StringBody text chars rest) :
    rest.length < text.length := by
  induction hbody with
  | close => simp
  | escape _ _ ih => simp only [List.length_cons]; omega
  | plain _ _ _ ih => simp only [List.length_cons]; omega

/-! ### Data inside data -/

section Phrases

variable (atom : List Char → Datum → Prop) (comments : Bool)

/-- Data one after the other, each after a gap. -/
inductive Items (inner : List Char → Datum → List Char → Prop) :
    List Char → List Datum → List Char → Prop
  | nil (text : List Char) : Items inner text [] text
  | cons {text start next rest : List Char} {d : Datum} {items : List Datum}
      (hgap : Gap comments text start) (hd : inner start d next)
      (hitems : Items inner next items rest) : Items inner text (d :: items) rest

/-- The end of a list after its items: the parenthesis or, if a tail is allowed, a point by itself,
the tail and the parenthesis. -/
inductive Close (inner : List Char → Datum → List Char → Prop) (tailed : Prop) :
    List Char → Datum → List Char → Prop
  | parenthesis {text rest : List Char} (hclose : Gap comments text (')' :: rest)) :
      Close inner tailed text .nil rest
  | point {text start close rest : List Char} {c : Char} {after : List Char} {tail : Datum}
      (htailed : tailed) (hpoint : Gap comments text ('.' :: c :: after))
      (hc : isDelimiter c = true) (hgap : Gap comments (c :: after) start)
      (htail : inner start tail close) (hclose : Gap comments close (')' :: rest)) :
      Close inner tailed text tail rest

/-- A datum at the start of a text, what it denotes, and the text after it. The data inside are
given by `inner`. -/
inductive Phrase (inner : List Char → Datum → List Char → Prop) :
    List Char → Datum → List Char → Prop
  | quote {text start rest : List Char} {d : Datum} (hgap : Gap comments text start)
      (hd : inner start d rest) : Phrase inner ('\'' :: text) (quoted d) rest
  | vector {text close rest : List Char} {items : List Datum}
      (hitems : Items comments inner text items close) (hclose : Gap comments close (')' :: rest)) :
      Phrase inner ('#' :: '(' :: text) (.vector items) rest
  | list {text close rest : List Char} {items : List Datum} {tail : Datum}
      (hitems : Items comments inner text items close)
      (hclose : Close comments inner (items ≠ []) close tail rest) :
      Phrase inner ('(' :: text) (chain items tail) rest
  | string {text chars rest : List Char} (hbody : StringBody text chars rest) :
      Phrase inner ('"' :: text) (.str (String.ofList chars)) rest
  | atom {token rest : List Char} {d : Datum} (htoken : IsToken token) (hends : Ends rest)
      (hd : atom token d) : Phrase inner (token ++ rest) d rest

/-- A datum at the start of a text that has at most the given number of levels. Every quote, element
and tail stands one level deeper than what it belongs to. -/
def Denotes : Nat → List Char → Datum → List Char → Prop
  | 0 => fun _ _ _ => False
  | levels + 1 => Phrase atom comments (Denotes levels)

/-- A text that is one datum between gaps. -/
def Sentence (text : List Char) (d : Datum) : Prop :=
  ∃ start rest, Gap comments text start ∧ Denotes atom comments maxLevels start d rest ∧
    Gap comments rest []

end Phrases

end HostedLisp.Datum
