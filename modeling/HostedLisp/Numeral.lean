/-!
# Whole numbers in text

Reading runs of digits, with and without a sign, and the two ranges that programs meet: signed
64 bit integers and unsigned 64 bit counts. Main definitions: `natural?`, `integer?`, `word?`,
`count?`. Main statement: `natural?_toDigits`, reading undoes decimal writing.
-/

namespace HostedLisp.Numeral

/-- The value of a digit in a base of at most sixteen. -/
def digit? (base : Nat) (c : Char) : Option Nat :=
  let value :=
    if c.isDigit then some (c.toNat - '0'.toNat)
    else if 'a' ≤ c ∧ c ≤ 'f' then some (c.toNat - 'a'.toNat + 10)
    else if 'A' ≤ c ∧ c ≤ 'F' then some (c.toNat - 'A'.toNat + 10)
    else none
  value.filter (· < base)

/-- The number written by a run of digits, continuing from the value of the digits before it. -/
def digitsFrom? (base : Nat) (value : Nat) : List Char → Option Nat
  | [] => some value
  | c :: rest =>
    match digit? base c with
    | some d => digitsFrom? base (value * base + d) rest
    | none => none

/-- The number written by a nonempty run of digits. -/
def natural? (base : Nat) : List Char → Option Nat
  | [] => none
  | text => digitsFrom? base 0 text

/-- The number written by a nonempty run of digits after at most one sign. -/
def integer? (base : Nat) : List Char → Option Int
  | '-' :: rest => (natural? base rest).map fun n => -(n : Int)
  | '+' :: rest => (natural? base rest).map Int.ofNat
  | text => (natural? base text).map Int.ofNat

def inWord : Int → Bool
  | .ofNat n => n < 0x8000000000000000
  | .negSucc n => n < 0x8000000000000000

theorem inWord_iff {n : Int} :
    inWord n = true ↔ -0x8000000000000000 ≤ n ∧ n < 0x8000000000000000 := by
  cases n with
  | ofNat n =>
    simp only [inWord, decide_eq_true_eq, Int.ofNat_eq_natCast]
    omega
  | negSucc n =>
    simp only [inWord, decide_eq_true_eq]
    omega

/-- The signed 64 bit integer of that value, if there is one. -/
def word? (n : Int) : Option Int64 := if inWord n then some (Int64.ofInt n) else none

/-- The signed 64 bit integer that a text writes. -/
def readWord? (base : Nat) (text : List Char) : Option Int64 := (integer? base text).bind word?

/-- One more than the largest count. -/
def countLimit : Nat := 0x10000000000000000

/-- The unsigned 64 bit count that a text writes; a plus sign may stand before it. -/
def count? (text : List Char) : Option Nat :=
  let unsigned := match text with
    | '+' :: rest => rest
    | _ => text
  (natural? 10 unsigned).filter (· < countLimit)

theorem digitsFrom?_append (base value : Nat) (s t : List Char) :
    digitsFrom? base value (s ++ t) = (digitsFrom? base value s).bind (digitsFrom? base · t) := by
  induction s generalizing value with
  | nil => rfl
  | cons c s ih =>
    simp only [List.cons_append, digitsFrom?]
    cases digit? base c with
    | none => rfl
    | some d => exact ih _

theorem digit?_digitChar {d : Nat} (h : d < 10) : digit? 10 d.digitChar = some d := by
  match d, h with
  | 0, _ => decide
  | 1, _ => decide
  | 2, _ => decide
  | 3, _ => decide
  | 4, _ => decide
  | 5, _ => decide
  | 6, _ => decide
  | 7, _ => decide
  | 8, _ => decide
  | 9, _ => decide

theorem digitsFrom?_toDigits (n : Nat) : digitsFrom? 10 0 (Nat.toDigits 10 n) = some n := by
  induction n using Nat.strongRecOn with
  | ind n ih =>
    by_cases h : n < 10
    · rw [Nat.toDigits_of_lt_base h]
      simp [digitsFrom?, digit?_digitChar h]
    · rw [Nat.toDigits_of_base_le (by omega) (by omega), digitsFrom?_append,
        ih (n / 10) (by omega)]
      simp only [Option.bind_some, digitsFrom?, digit?_digitChar (Nat.mod_lt n (by omega))]
      congr 1
      omega

theorem natural?_toDigits (n : Nat) : natural? 10 (Nat.toDigits 10 n) = some n := by
  have read := digitsFrom?_toDigits n
  cases digits : Nat.toDigits 10 n with
  | nil => exact absurd digits Nat.toDigits_ne_nil
  | cons c rest => rw [digits] at read; exact read

end HostedLisp.Numeral
