import HostedLisp.Datum.Printer
import HostedLisp.Datum.Reader
import Mathlib.Data.List.TakeDrop
import Mathlib.Data.List.TakeWhile
import Mathlib.Tactic.Common
import Mathlib.Tactic.Lemma

/-!
# Reading what was written: tokens

The text of an atom is read back if what follows it is closed off by a blank or a parenthesis, or
if nothing follows. A symbol is written by its name, so it has to have a name that is read as that
symbol; no other name is (`readToken_of_read`).
-/

namespace HostedLisp.Datum

/-- Nothing follows, or something that ends an atom in the text of a list or vector. -/
def Closed : List Char → Prop
  | [] => True
  | c :: _ => c = ' ' ∨ c = ')'

/-- Nothing follows, or something that ends an atom. -/
def Ends (rest : List Char) : Prop := ∀ c ∈ rest.head?, isDelimiter c = true

/-- A text between delimiters. -/
def IsToken (token : List Char) : Prop := token ≠ [] ∧ ∀ c ∈ token, isDelimiter c = false

variable {comments : Bool} {token rest : List Char} {d : Datum}

/-! ### Between tokens -/

lemma isDelimiter_of_isSeparator {c : Char} (h : isSeparator c = true) :
    isDelimiter c = true := by
  simp only [isSeparator, Bool.or_eq_true, decide_eq_true_eq] at h
  obtain ((rfl | rfl) | rfl) | rfl := h <;> decide

lemma isDelimiter_of_isBlank {c : Char} (hc : Text.isBlank c = true) : isDelimiter c = true := by
  simp [isDelimiter, hc]

lemma skip_blank (text : List Char) : skip comments (' ' :: text) = skip comments text := rfl

/-- A text that begins with neither a blank nor a comment is left as it is. -/
lemma skip_of_begin {c : Char} {text : List Char} (hsep : isSeparator c = false) (hc : c ≠ ';') :
    skip comments (c :: text) = c :: text := by
  simp [skip, skipFrom, hsep, hc]

lemma isSeparator_of_not_delimiter {c : Char} (h : isDelimiter c = false) :
    isSeparator c = false := by
  by_contra hsep
  rw [isDelimiter_of_isSeparator (by simpa using hsep)] at h
  cases h

lemma isBlank_of_not_delimiter {c : Char} (h : isDelimiter c = false) : Text.isBlank c = false := by
  by_contra hblank
  rw [isDelimiter_of_isBlank (by simpa using hblank)] at h
  cases h

lemma ne_of_not_delimiter {c x : Char} (h : isDelimiter c = false) (hx : isDelimiter x = true) :
    c ≠ x := by
  rintro rfl
  rw [hx] at h
  cases h

lemma IsToken.exists_cons (h : IsToken token) :
    ∃ c text, token = c :: text ∧ isDelimiter c = false := by
  obtain ⟨hne, hall⟩ := h
  cases token with
  | nil => exact absurd rfl hne
  | cons c text => exact ⟨c, text, rfl, hall c List.mem_cons_self⟩

lemma IsToken.skip (h : IsToken token) : Datum.skip comments (token ++ rest) = token ++ rest := by
  obtain ⟨c, text, rfl, hc⟩ := h.exists_cons
  exact skip_of_begin (isSeparator_of_not_delimiter hc) (ne_of_not_delimiter hc rfl)

lemma Closed.ends (h : Closed rest) : Ends rest := by
  cases rest with
  | nil => exact nofun
  | cons c rest =>
    rintro _ ⟨rfl⟩
    obtain rfl | rfl := h <;> decide

/-- A token goes on to the next delimiter. -/
lemma IsToken.span (h : IsToken token) (hrest : Ends rest) :
    (token ++ rest).span (fun c => !isDelimiter c) = (token, rest) := by
  have hall : ∀ c ∈ token, (!isDelimiter c) = true := by simpa using h.2
  rw [List.span_eq_takeWhile_dropWhile, List.takeWhile_append_of_pos hall,
    List.dropWhile_append_of_pos hall]
  cases rest with
  | nil => simp
  | cons c text => simp [hrest c rfl]

lemma readAtom_token (h : IsToken token) (hrest : Ends rest) (hd : readToken token = .ok d) :
    readAtom (token ++ rest) = .ok (d, rest) := by
  rw [readAtom, h.span hrest]
  obtain ⟨c, text, rfl, -⟩ := h.exists_cons
  simp [hd]

/-- A token is read at any level, whatever blanks precede it. -/
lemma readFrom_token {levels : Nat} (h : IsToken token) (hrest : Ends rest)
    (hd : readToken token = .ok d) (hlevels : 0 < levels) :
    readFrom comments levels (token ++ rest) = .ok (d, rest) := by
  obtain ⟨levels, rfl⟩ : ∃ k, levels = k + 1 := ⟨levels - 1, by omega⟩
  rw [readFrom, h.skip]
  obtain ⟨c, text, rfl, hc⟩ := h.exists_cons
  rw [← readAtom_token h hrest hd]
  split
  · next heq => exact absurd (List.cons.inj heq).1 (ne_of_not_delimiter hc rfl)
  · next tail heq =>
    obtain ⟨-, htext⟩ := List.cons.inj heq
    cases text with
    | nil =>
      obtain rfl := (List.cons.inj heq).1
      cases hd
    | cons c' text =>
      have hparen := h.2 c' (by simp)
      rw [(List.cons.inj htext).1] at hparen
      exact absurd hparen (by decide)
  · next heq => exact absurd (List.cons.inj heq).1 (ne_of_not_delimiter hc rfl)
  · next heq => exact absurd (List.cons.inj heq).1 (ne_of_not_delimiter hc rfl)
  · rfl

/-! ### Truth values and integers -/

lemma isToken_writeBool (b : Bool) : IsToken (writeBool b) := by
  refine ⟨nofun, fun c hc => ?_⟩
  have hmem : c = '#' ∨ c = if b then 't' else 'f' := by simpa [writeBool] using hc
  obtain rfl | rfl := hmem
  · rfl
  · cases b <;> rfl

lemma readToken_writeBool (b : Bool) : readToken (writeBool b) = .ok (bool b) := by
  cases b <;> rfl

lemma isDigit_of_mem_toDigits {n : Nat} {c : Char} (h : c ∈ Nat.toDigits 10 n) :
    c.isDigit = true :=
  Nat.isDigit_of_mem_toDigits (by omega) (by omega) h

lemma not_delimiter_of_isDigit {c : Char} (h : c.isDigit = true) : isDelimiter c = false := by
  have hlow : 48 ≤ c.toNat ∧ c.toNat ≤ 57 := by
    simpa [Char.isDigit, UInt32.le_iff_toNat_le] using h
  have hblank : Text.isBlank c = false := by
    simp only [Text.isBlank, Text.inRanges, Text.blankRanges, Bool.and_eq_false_iff,
      Bool.or_eq_false_iff, decide_eq_false_iff_not]
    omega
  have hne (x : Char) (hx : x.isDigit = false) : c ≠ x := by
    rintro rfl
    rw [h] at hx
    cases hx
  simp [isDelimiter, hblank, hne '(' rfl, hne ')' rfl, hne '"' rfl, hne ';' rfl, hne '\'' rfl]

lemma isToken_writeInt (n : Int64) : IsToken (writeInt n) := by
  have hdigits : ∀ c ∈ Nat.toDigits 10 n.toInt.natAbs, isDelimiter c = false :=
    fun c hc => not_delimiter_of_isDigit (isDigit_of_mem_toDigits hc)
  rw [writeInt]
  split
  · exact ⟨nofun, List.forall_mem_cons.2 ⟨by decide, hdigits⟩⟩
  · exact ⟨Nat.toDigits_ne_nil, hdigits⟩

lemma word?_toInt (n : Int64) : Numeral.word? n.toInt = some n := by
  have hlow := n.le_toInt
  have hhigh := n.toInt_lt
  rw [Numeral.word?, if_pos (Numeral.inWord_iff.2 (by omega)), Int64.ofInt_toInt]

lemma readToken_of_ne {c : Char} {text : List Char} (hc : c ≠ '#') :
    readToken (c :: text) =
      if looksNumeric (c :: text) then readNumber (c :: text)
      else if Symbol.isName (c :: text) then .ok (sym ⟨String.ofList (c :: text)⟩)
      else .error .badName := by
  unfold readToken
  split <;> simp_all

lemma splitSign_of_isDigit {c : Char} {text : List Char} (h : c.isDigit = true) :
    Decimal.splitSign (c :: text) = (false, c :: text) := by
  unfold Decimal.splitSign
  split
  · next heq =>
    rw [(List.cons.inj heq).1] at h
    exact absurd h (by decide)
  · next heq =>
    rw [(List.cons.inj heq).1] at h
    exact absurd h (by decide)
  · rfl

lemma integer?_of_isDigit {c : Char} {text : List Char} (h : c.isDigit = true) :
    Numeral.integer? 10 (c :: text) = (Numeral.natural? 10 (c :: text)).map Int.ofNat := by
  unfold Numeral.integer?
  split
  · next heq =>
    rw [(List.cons.inj heq).1] at h
    exact absurd h (by decide)
  · next heq =>
    rw [(List.cons.inj heq).1] at h
    exact absurd h (by decide)
  · rfl

lemma looksNumeric_of_splitSign {c : Char} {token text : List Char} {negative : Bool}
    (heq : Decimal.splitSign token = (negative, c :: text)) (hc : c.isDigit = true) :
    looksNumeric token = true := by
  rw [looksNumeric, heq]
  split
  · next h =>
    rw [(List.cons.inj h).1] at hc
    exact absurd hc (by decide)
  · next h => exact (List.cons.inj h).1 ▸ hc
  · next h => cases h

/-- The text of an integer is read as that integer. -/
lemma readToken_writeInt (n : Int64) : readToken (writeInt n) = .ok (int n) := by
  have hdigits : ∀ c ∈ Nat.toDigits 10 n.toInt.natAbs, c.isDigit = true :=
    fun c hc => isDigit_of_mem_toDigits hc
  have hread := Numeral.natural?_toDigits n.toInt.natAbs
  rw [writeInt]
  cases hd : Nat.toDigits 10 n.toInt.natAbs with
  | nil => exact absurd hd Nat.toDigits_ne_nil
  | cons c text =>
    rw [hd] at hdigits hread
    have hall : (c :: text).all Char.isDigit = true := List.all_eq_true.2 hdigits
    have hc : c.isDigit = true := hdigits c List.mem_cons_self
    split
    · next hneg =>
      have hsplit : Decimal.splitSign ('-' :: c :: text) = (true, c :: text) := rfl
      have hvalue : -(n.toInt.natAbs : Int) = n.toInt := by omega
      have hword : Numeral.readWord? 10 ('-' :: c :: text) = some n := by
        rw [Numeral.readWord?, Numeral.integer?, hread]
        change Numeral.word? (-(n.toInt.natAbs : Int)) = some n
        rw [hvalue, word?_toInt]
      rw [readToken_of_ne (by decide), if_pos (looksNumeric_of_splitSign hsplit hc), readNumber,
        hsplit, if_pos hall, hword]
    · next hpos =>
      have hne : c ≠ '#' := by
        rintro rfl
        exact absurd hc (by decide)
      have hvalue : (n.toInt.natAbs : Int) = n.toInt := by omega
      have hinteger : Numeral.integer? 10 (c :: text) = some (n.toInt.natAbs : Int) := by
        rw [integer?_of_isDigit hc, hread]
        rfl
      rw [readToken_of_ne hne, if_pos (looksNumeric_of_splitSign (splitSign_of_isDigit hc) hc),
        readNumber, splitSign_of_isDigit hc, if_pos hall, Numeral.readWord?, hinteger,
        Option.bind_some, hvalue, word?_toInt]

/-! ### Strings -/

/-- A character is read back, whether it is escaped or not. -/
lemma readString_escape (c : Char) (rest : List Char) :
    readString (Text.escape c ++ rest) =
      (readString rest).map fun (text, rest) => (c :: text, rest) := by
  unfold Text.escape
  split
  · simp [readString, Text.unescape?]
  · simp [readString, Text.unescape?]
  · simp [readString, Text.unescape?]
  · simp [readString, Text.unescape?]
  · simp [readString, Text.unescape?]
  · next hquote hbackslash _ _ _ =>
    rw [List.singleton_append, readString]
    · exact fun h _ => hbackslash h
    · exact hquote
    · exact fun _ _ h _ => hbackslash h

lemma readString_quote (text rest : List Char) :
    readString (text.flatMap Text.escape ++ '"' :: rest) = .ok (text, rest) := by
  induction text with
  | nil => rfl
  | cons c text ih =>
    rw [List.flatMap_cons, List.append_assoc, readString_escape, ih]
    rfl

/-! ### Symbols -/

/-- A list is never read as a symbol. -/
lemma chain_ne_sym {items : List Datum} {tail : Datum} {name : Symbol}
    (h : items = [] → tail = nil) : chain items tail ≠ sym name := by
  cases items with
  | nil =>
    rw [h rfl]
    exact nofun
  | cons first items => exact nofun

/-- Before the first element there is no tail. -/
lemma tail_of_readElements {dotted : Bool} {element : List Char → Reading Datum}
    {bound text rest : List Char} {tail : Datum}
    (h : readElements comments dotted element bound false text = .ok (([], tail), rest)) :
    tail = nil := by
  cases bound with
  | nil => cases h
  | cons _ bound =>
    rw [readElements] at h
    split at h
    · cases h
      rfl
    · simp only [Bool.and_false, Bool.false_eq_true, if_false] at h
      cases helement : element (skip comments text) with
      | error e =>
        rw [helement] at h
        cases h
      | ok first =>
        rw [helement] at h
        cases hrest : readElements comments dotted element bound true first.2 with
        | error e => simp [hrest, Except.bind, Except.map] at h
        | ok found => simp [hrest, Except.bind, Except.map] at h

lemma readNumber_ne_sym {name : Symbol} : readNumber token ≠ .ok (sym name) := by
  intro h
  rw [readNumber] at h
  split at h
  · cases hn : Numeral.readWord? 10 token <;> simp [hn] at h
  · cases hx : Decimal.read? token <;> simp [hx] at h

lemma readHexadecimal_ne_sym {name : Symbol} : readHexadecimal token ≠ .ok (sym name) := by
  intro h
  rw [readHexadecimal] at h
  cases hn : Numeral.readWord? 16 token <;> simp [hn] at h

/-- A token that is read as a symbol is the name of that symbol. -/
lemma token_of_readToken {name : Symbol} (h : readToken token = .ok (sym name)) :
    token = name.name.toList := by
  unfold readToken at h
  split at h
  · cases h
  · cases h
  · cases h
  · cases h
  · exact absurd h readHexadecimal_ne_sym
  · exact absurd h readHexadecimal_ne_sym
  · split at h
    · exact absurd h readNumber_ne_sym
    · split at h
      · cases h
        exact String.toList_ofList.symm
      · cases h

lemma token_of_readAtom {text : List Char} {name : Symbol}
    (h : readAtom text = .ok (sym name, rest)) :
    IsToken name.name.toList ∧ readToken name.name.toList = .ok (sym name) := by
  rw [readAtom, List.span_eq_takeWhile_dropWhile] at h
  split at h
  · cases h
  · next token after hne hspan =>
    cases hread : readToken token with
    | error fault => simp [hread] at h
    | ok d =>
      simp only [hread, Except.ok.injEq, Prod.mk.injEq] at h
      rw [h.1] at hread
      rw [← token_of_readToken hread]
      refine ⟨⟨hne, fun c hc => ?_⟩, hread⟩
      rw [← (Prod.mk.inj hspan).1] at hc
      simpa using List.mem_takeWhile_imp hc

/-- What is read as a symbol from anywhere is a token. -/
lemma token_of_readFrom {levels : Nat} {text : List Char} {name : Symbol}
    (h : readFrom comments levels text = .ok (sym name, rest)) :
    IsToken name.name.toList ∧ readToken name.name.toList = .ok (sym name) := by
  cases levels with
  | zero => cases h
  | succ levels =>
    rw [readFrom] at h
    split at h
    · next after _ =>
      cases hd : readFrom comments levels after <;> simp [hd, Except.map, quoted, list, chain] at h
    · next after _ =>
      cases hd : readElements comments false (readFrom comments levels) ('(' :: after) false after
        <;> simp [hd, Except.map] at h
    · next after _ =>
      cases hd :
          readElements comments true (readFrom comments levels) ('(' :: after) false after with
      | error e => simp [hd, Except.map] at h
      | ok found =>
        obtain ⟨⟨items, tail⟩, rest⟩ := found
        simp only [hd, Except.map, Except.ok.injEq, Prod.mk.injEq] at h
        refine absurd h.1 (chain_ne_sym ?_)
        rintro rfl
        exact tail_of_readElements hd
    · next after _ => cases hd : readString after <;> simp [hd, Except.map] at h
    · exact token_of_readAtom h

/-- If the name of a symbol is read as that symbol, it is a token for it. -/
theorem readToken_of_read {name : Symbol} (h : read name.name = .ok (sym name)) :
    IsToken name.name.toList ∧ readToken name.name.toList = .ok (sym name) := by
  rw [read, readWith, readChars] at h
  split at h
  · cases h
  · next d rest hd =>
    split at h
    · cases h
      exact token_of_readFrom hd
    · cases h

end HostedLisp.Datum
