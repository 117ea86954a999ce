import HostedLisp.Proofs.Datum.Tokens

/-!
# Reading decimals that were written

A decimal that is written with a point, so one whose exponent is negative, is read back digit by
digit: the zeros that stand in front of its digits change nothing. Its text is a token, and the
reader takes it for the floating point number that the decimal becomes. Main statements:
`Decimal.read?_write`, `Decimal.readToken_write`.
-/

namespace HostedLisp.Decimal

open Datum

variable {digits : List Char} {n places : Nat} {d : Decimal}

/-- Digits on both sides of a point, at least one before it, that together write a number. -/
structure Pointed (text : List Char) (n places : Nat) (whole fraction : List Char) : Prop where
  eq : text = whole ++ '.' :: fraction
  isDigit : ∀ c ∈ whole ++ fraction, c.isDigit = true
  ne_nil : whole ≠ []
  length : fraction.length = places
  natural : Numeral.natural? 10 (whole ++ fraction) = some n

/-- Zeros in front of a number do not count. -/
lemma natural?_zeros (k : Nat) (hdigits : Numeral.natural? 10 digits = some n) :
    Numeral.natural? 10 (List.replicate k '0' ++ digits) = some n := by
  induction k with
  | zero => exact hdigits
  | succ k ih =>
    rw [List.replicate_succ, List.cons_append]
    cases hrest : List.replicate k '0' ++ digits with
    | nil =>
      rw [hrest] at ih
      cases ih
    | cons c rest =>
      rw [hrest] at ih
      exact ih

/-- Putting in a point leaves the digits as they are, apart from zeros in front of them. -/
lemma exists_pointed (hdigit : ∀ c ∈ digits, c.isDigit = true)
    (hread : Numeral.natural? 10 digits = some n) (places : Nat) :
    ∃ whole fraction, Pointed (withPoint digits places) n places whole fraction := by
  by_cases hlt : places < digits.length
  · have hjoin := List.take_append_drop (digits.length - places) digits
    refine ⟨digits.take (digits.length - places), digits.drop (digits.length - places),
      if_pos hlt, ?_, ?_, ?_, ?_⟩
    · rwa [hjoin]
    · refine List.ne_nil_of_length_pos ?_
      rw [List.length_take]
      omega
    · rw [List.length_drop]
      omega
    · rwa [hjoin]
  · refine ⟨['0'], List.replicate (places - digits.length) '0' ++ digits, if_neg hlt, ?_, nofun,
      ?_, natural?_zeros (places - digits.length + 1) hread⟩
    · intro c hc
      simp only [List.cons_append, List.nil_append, List.mem_cons, List.mem_append,
        List.mem_replicate] at hc
      obtain rfl | ⟨-, rfl⟩ | hc := hc
      · rfl
      · rfl
      · exact hdigit c hc
    · rw [List.length_append, List.length_replicate]
      omega

lemma exists_pointed_write (d : Decimal) : ∃ whole fraction,
    Pointed (withPoint (Nat.toDigits 10 d.digits) d.exponent.natAbs) d.digits d.exponent.natAbs
      whole fraction :=
  exists_pointed (fun _ hc => isDigit_of_mem_toDigits hc) (Numeral.natural?_toDigits _) _

lemma write_eq (hd : d.exponent < 0) : d.write = (if d.negative then ['-'] else []) ++
    withPoint (Nat.toDigits 10 d.digits) d.exponent.natAbs := by
  have hneg : ¬ 0 ≤ d.exponent := Int.not_le.2 hd
  rw [write]
  simp only [if_neg hneg]
  split <;> rfl

lemma splitSign_pointed {text whole fraction : List Char} (h : Pointed text n places whole fraction)
    (negative : Bool) :
    splitSign ((if negative then ['-'] else []) ++ text) = (negative, text) := by
  cases negative with
  | true => rfl
  | false =>
    obtain ⟨c, whole, rfl⟩ := List.exists_cons_of_ne_nil h.ne_nil
    rw [h.eq]
    exact splitSign_of_isDigit (h.isDigit c List.mem_cons_self)

/-- What is written with a point is read back. -/
theorem read?_write (hd : d.exponent < 0) : read? d.write = some d := by
  obtain ⟨whole, fraction, h⟩ := exists_pointed_write d
  have hwhole : ∀ c ∈ whole, c.isDigit = true := fun c hc => h.isDigit c (List.mem_append_left _ hc)
  have hfraction : ∀ c ∈ fraction, c.isDigit = true :=
    fun c hc => h.isDigit c (List.mem_append_right _ hc)
  have hspan : (whole ++ '.' :: fraction).span Char.isDigit = (whole, '.' :: fraction) := by
    rw [List.span_eq_takeWhile_dropWhile, List.takeWhile_append_of_pos hwhole,
      List.dropWhile_append_of_pos hwhole]
    simp
  have hrest : fraction.span Char.isDigit = (fraction, []) := by
    rw [List.span_eq_takeWhile_dropWhile, List.takeWhile_eq_self_iff.2 hfraction,
      List.dropWhile_eq_nil_iff.2 hfraction]
  have hexponent : (0 : Int) - fraction.length = d.exponent := by
    rw [h.length]
    omega
  rw [write_eq hd, read?, splitSign_pointed h, h.eq]
  simp only [hspan, hrest, h.natural, exponent?, hexponent]

/-- The text of a decimal with a point is a token for the number that the decimal becomes. -/
theorem readToken_write (hd : d.exponent < 0) :
    IsToken d.write ∧ readToken d.write = .ok (.float d.toFloat) := by
  obtain ⟨whole, fraction, h⟩ := exists_pointed_write d
  have hread := read?_write hd
  have hsign := splitSign_pointed h d.negative
  rw [write_eq hd] at hread ⊢
  have htoken : IsToken ((if d.negative then ['-'] else []) ++
      withPoint (Nat.toDigits 10 d.digits) d.exponent.natAbs) := by
    refine ⟨fun hnil => ?_, fun c hc => ?_⟩
    · rw [h.eq] at hnil
      simp at hnil
    · rw [h.eq] at hc
      simp only [List.mem_append, List.mem_cons] at hc
      obtain hc | hc | rfl | hc := hc
      · split at hc
        · obtain rfl := List.mem_singleton.1 hc
          rfl
        · cases hc
      · exact not_delimiter_of_isDigit (h.isDigit c (List.mem_append_left _ hc))
      · rfl
      · exact not_delimiter_of_isDigit (h.isDigit c (List.mem_append_right _ hc))
  refine ⟨htoken, ?_⟩
  obtain ⟨c, tail, htext, hc⟩ : ∃ c tail,
      withPoint (Nat.toDigits 10 d.digits) d.exponent.natAbs = c :: tail ∧ c.isDigit = true := by
    obtain ⟨c, whole, rfl⟩ := List.exists_cons_of_ne_nil h.ne_nil
    exact ⟨c, _, h.eq, h.isDigit c List.mem_cons_self⟩
  have hall :
      (withPoint (Nat.toDigits 10 d.digits) d.exponent.natAbs).all Char.isDigit = false := by
    rw [h.eq, List.all_eq_false]
    exact ⟨'.', List.mem_append_right _ List.mem_cons_self, by decide⟩
  have hnumeric := looksNumeric_of_splitSign (htext ▸ hsign) hc
  obtain ⟨c', tail', htoken', hne⟩ : ∃ c' tail', (if d.negative then ['-'] else []) ++
      withPoint (Nat.toDigits 10 d.digits) d.exponent.natAbs = c' :: tail' ∧ c' ≠ '#' := by
    cases d.negative with
    | true => exact ⟨'-', _, rfl, by decide⟩
    | false =>
      refine ⟨c, tail, htext, ?_⟩
      rintro rfl
      exact absurd hc (by decide)
  rw [← htext] at hnumeric
  rw [htoken'] at hread hsign hnumeric ⊢
  rw [readToken_of_ne hne, if_pos hnumeric, readNumber, hsign]
  simp only [hall, hread, Bool.false_eq_true, if_false]

end HostedLisp.Decimal
