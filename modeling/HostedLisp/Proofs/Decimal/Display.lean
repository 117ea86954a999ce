import HostedLisp.Decimal.Shortest
import HostedLisp.Proofs.Decimal.Scientific
import HostedLisp.Proofs.Decimal.Writing

/-!
# The decimals of floating point numbers

The parts of a number are in its bits. A finite number is written as a decimal with a point that
becomes that number again: if it is whole, with one zero after the point; otherwise by the shortest
decimal that was found to become it, or else by the one that is equal to it. A decimal without a
point becomes a whole number or none that is finite, so none is found for a number that is not
whole. Main statement: `Decimal.exists_write_display`.
-/

namespace HostedLisp

open Binary64 Float.Model Float.Model.UnpackedFloat

variable {x : Float} {m : Nat} {e : Int} {s : Sign} {hm : 0 < m}

/-! ### The parts of a number -/

namespace Binary64

/-- The sign, the exponent and the mantissa are in the bits of a number. -/
lemma form_eq (x : Float) : ∃ (b : BitVec 11) (c : BitVec 52),
    b.toNat = x.toBits.toNat >>> 52 % 2 ^ 11 ∧ c.toNat = x.toBits.toNat % 2 ^ 52 ∧
    form x = UnpackedFloat.unpack .binary64 (packComponents .binary64
      (if x.toBits.toNat >>> 63 = 1 then .negative else .positive) b c) := by
  have hbits := @packComponents_unpackSign_unpackExponent_unpackMantissa .binary64
    x.toBits.toBitVec
  refine ⟨@unpackExponent .binary64 x.toBits.toBitVec, @unpackMantissa .binary64 x.toBits.toBitVec,
    ?_, ?_, ?_⟩
  · rw [unpackExponent_def, BitVec.extractLsb'_toNat]
    rfl
  · rw [unpackMantissa_def, BitVec.extractLsb'_toNat]
    rfl
  · have hsign : Sign.ofBitVec (@unpackSign .binary64 x.toBits.toBitVec) =
        if x.toBits.toNat >>> 63 = 1 then .negative else .positive := by
      have hbit : (@unpackSign .binary64 x.toBits.toBitVec).toNat =
          x.toBits.toNat >>> 63 % 2 ^ 1 := by
        rw [unpackSign_def, BitVec.extractLsb'_toNat]
        rfl
      have hlt : x.toBits.toNat < 2 ^ 64 := x.toBits.toNat_lt
      rw [Nat.shiftRight_eq_div_pow] at hbit ⊢
      rw [Sign.ofBitVec]
      split
      · next h =>
        rw [h] at hbit
        change 0 = _ at hbit
        exact (if_neg (by omega)).symm
      · next h =>
        have hne : (@unpackSign .binary64 x.toBits.toBitVec).toNat ≠ 0 :=
          fun h0 => h (BitVec.eq_of_toNat_eq h0)
        exact (if_pos (by omega)).symm
    rw [← hsign, hbits]
    rfl

end Binary64

namespace Decimal

/-- The sign is that of the form. -/
def signOf (x : Float) : Sign := if isNegative x then .negative else .positive

lemma signOf_eq (x : Float) :
    signOf x = if x.toBits.toNat >>> 63 = 1 then .negative else .positive := by
  rw [signOf, isNegative]
  simp only [decide_eq_true_eq]

/-- The parts of a number that is not zero are those of its form. -/
lemma parts_of_finite (hx : form x = .finite s m e hm) : s = signOf x ∧ binaryParts x = (m, e) := by
  obtain ⟨b, c, hb, hc, hform⟩ := form_eq x
  have hb' : x.toBits.toNat >>> 52 % (1 <<< 11) = b.toNat := hb.symm
  have hc' : x.toBits.toNat % (1 <<< 52) = c.toNat := hc.symm
  rw [hx, unpack_components, ← signOf_eq] at hform
  rw [binaryParts, hb', hc']
  split at hform
  · split at hform <;> cases hform
  · split at hform
    · next hb0 =>
      split at hform
      · cases hform
      · cases hform
        exact ⟨rfl, if_pos (congrArg BitVec.toNat hb0)⟩
    · next hb0 =>
      cases hform
      have hne : b.toNat ≠ 0 := fun h => hb0 (BitVec.eq_of_toNat_eq h)
      simp only [if_neg hne, Nat.one_shiftLeft, Nat.add_comm, true_and]

lemma parts_of_zero (hx : form x = .zero s) : s = signOf x ∧ binaryParts x = (0, -1074) := by
  obtain ⟨b, c, hb, hc, hform⟩ := form_eq x
  have hb' : x.toBits.toNat >>> 52 % (1 <<< 11) = b.toNat := hb.symm
  have hc' : x.toBits.toNat % (1 <<< 52) = c.toNat := hc.symm
  rw [hx, unpack_components, ← signOf_eq] at hform
  rw [binaryParts, hb', hc']
  split at hform
  · split at hform <;> cases hform
  · split at hform
    · next hb0 =>
      split at hform
      · next hc0 =>
        cases hform
        rw [hb0, hc0]
        exact ⟨rfl, rfl⟩
      · cases hform
    · cases hform

/-! ### The value of a number as a ratio -/

lemma ratio_eq {num den : Nat} (hparts : binaryParts x = (m, e)) (hratio : ratio x = (num, den)) :
    0 < den ∧ (num : ℚ) = magnitude m e * den := by
  rw [ratio, hparts] at hratio
  dsimp only at hratio
  split at hratio
  · next he =>
    obtain ⟨rfl, rfl⟩ := Prod.mk.inj hratio
    obtain ⟨k, rfl⟩ := Int.eq_ofNat_of_zero_le he
    refine ⟨one_pos, ?_⟩
    rw [magnitude, zpow_natCast, Nat.shiftLeft_eq]
    push_cast
    simp
  · next he =>
    obtain ⟨rfl, rfl⟩ := Prod.mk.inj hratio
    obtain ⟨k, rfl⟩ : ∃ k : Nat, e = -k := ⟨e.natAbs, by omega⟩
    refine ⟨by rw [Nat.one_shiftLeft]; positivity, ?_⟩
    rw [magnitude, zpow_neg, zpow_natCast, Int.natAbs_neg, Int.natAbs_natCast, Nat.one_shiftLeft]
    push_cast
    field_simp

lemma isWhole_iff {num den : Nat} (hratio : ratio x = (num, den)) :
    isWhole x = true ↔ num % den = 0 := by
  rw [isWhole, hratio]
  exact decide_eq_true_iff

/-- A whole number is the quotient of its ratio. -/
lemma magnitude_of_isWhole {num den : Nat} (hparts : binaryParts x = (m, e))
    (hratio : ratio x = (num, den)) (hwhole : isWhole x = true) :
    magnitude m e = (num / den : Nat) := by
  obtain ⟨hden, hnum⟩ := ratio_eq hparts hratio
  have hden' : (den : ℚ) ≠ 0 := by exact_mod_cast hden.ne'
  have hmul : num / den * den = num :=
    Nat.div_mul_cancel (Nat.dvd_of_mod_eq_zero ((isWhole_iff hratio).1 hwhole))
  refine mul_right_cancel₀ hden' ?_
  rw [← hnum]
  exact_mod_cast hmul.symm

lemma isWhole_of_magnitude {k : Nat} (hparts : binaryParts x = (m, e)) (hk : magnitude m e = k) :
    isWhole x = true := by
  obtain ⟨num, den, hratio⟩ : ∃ num den, ratio x = (num, den) := ⟨_, _, rfl⟩
  obtain ⟨-, hnum⟩ := ratio_eq hparts hratio
  have hmul : num = k * den := by
    rw [hk] at hnum
    exact_mod_cast hnum
  rw [isWhole_iff hratio, hmul, Nat.mul_mod_left]

/-! ### Decimals that become a number -/

/-- The number without its sign. -/
def unsigned (x : Float) : Float := if isNegative x then -x else x

lemma form_unsigned_eq (x : Float) : form (unsigned x) =
    match signOf x with
    | .negative => (form x).neg
    | .positive => form x := by
  rw [unsigned, signOf]
  cases isNegative x with
  | true => exact form_neg x
  | false => rfl

lemma form_unsigned (hx : form x = .finite s m e hm) :
    form (unsigned x) = .finite .positive m e hm := by
  rw [form_unsigned_eq, ← (parts_of_finite hx).1, hx]
  cases s <;> rfl

lemma form_unsigned_zero (hx : form x = .zero s) : form (unsigned x) = .zero .positive := by
  rw [form_unsigned_eq, ← (parts_of_zero hx).1, hx]
  cases s <;> rfl

lemma form_fraction_zero : form (Float.ofScientific 0 true 1) = .zero .positive := by
  have hzero : Float.ofScientific 0 true 1 = .ofModel (.pack (.zero .positive)) := by
    decide +kernel
  rw [hzero]
  exact form_pack trivial

/-- A decimal with the sign of a number becomes it if its digits become the number without it. -/
lemma toFloat_eq {d : Decimal} (hnegative : d.negative = isNegative x)
    (hd : Float.ofScientific d.digits (d.exponent < 0) d.exponent.natAbs = unsigned x) :
    d.toFloat = x := by
  rw [toFloat, hd, hnegative, unsigned]
  cases isNegative x with
  | true => exact neg_neg x
  | false => rfl

/-- A decimal that is equal to a number becomes it. -/
lemma toFloat_exact {d : Decimal} (hx : form x = .finite s m e hm)
    (hnegative : d.negative = isNegative x) (hexp : d.exponent < 0) (hlow : -2048 ≤ d.exponent)
    (hv : (d.digits : ℚ) = magnitude m e * 10 ^ d.exponent.natAbs) : d.toFloat = x := by
  obtain ⟨hcanonical, hhigh⟩ : Canonical m e ∧ e ≤ 971 := by
    have hregular := regular_form x
    rwa [hx] at hregular
  refine toFloat_eq hnegative (eq_of_form ?_)
  rw [form_unsigned hx, decide_eq_true hexp]
  exact ofScientific_exact hcanonical hhigh (by omega) (by omega) hv

/-- A whole number is written with one zero after the point. -/
lemma write_whole (negative : Bool) (k : Nat) :
    write ⟨negative, k, 0⟩ ++ ['.', '0'] = write ⟨negative, 10 * k, -1⟩ := by
  have hpoint : Nat.toDigits 10 k ++ ['.', '0'] = withPoint (Nat.toDigits 10 (10 * k)) 1 := by
    obtain rfl | hk := Nat.eq_zero_or_pos k
    · rfl
    · have hdigits : Nat.toDigits 10 (10 * k) = Nat.toDigits 10 k ++ ['0'] := by
        rw [Nat.toDigits_of_base_le (by omega) (by omega), Nat.mul_div_cancel_left k (by omega),
          Nat.mul_mod_right]
        rfl
      have hlength : 0 < (Nat.toDigits 10 k).length :=
        List.length_pos_iff.2 Nat.toDigits_ne_nil
      rw [hdigits, withPoint, if_pos (by simpa using hlength)]
      simp
  have hwhole : write ⟨negative, k, 0⟩ =
      (if negative then ['-'] else []) ++ Nat.toDigits 10 k := by
    rw [write]
    simp only [le_refl, if_true, Int.toNat_zero, List.replicate_zero, List.append_nil]
    split <;> rfl
  rw [hwhole, write_eq (by decide : (-1 : Int) < 0), List.append_assoc, hpoint]
  rfl

/-! ### The shortest decimal -/

/-- What is found between two neighbours becomes the number. -/
lemma neighbour?_spec {num den : Nat} {unit : Int} {d : Decimal}
    (h : neighbour? x num den unit = some d) : d.negative = false ∧ d.toFloat = x := by
  have hdrop (digits : Nat) (exponent : Int) : (dropZero digits exponent).negative = false := by
    rw [dropZero]
    split <;> rfl
  rw [neighbour?] at h
  split at h
  · next hbelow habove =>
    cases h
    split
    · exact ⟨hdrop _ _, of_decide_eq_true hbelow⟩
    · exact ⟨hdrop _ _, of_decide_eq_true habove⟩
  · next hbelow _ =>
    cases h
    exact ⟨hdrop _ _, of_decide_eq_true hbelow⟩
  · next _ habove =>
    cases h
    exact ⟨hdrop _ _, of_decide_eq_true habove⟩
  · cases h

lemma refine?_spec {num den steps : Nat} {unit : Int} {d : Decimal}
    (h : refine? x num den steps unit = some d) : d.negative = false ∧ d.toFloat = x := by
  induction steps generalizing unit with
  | zero => cases h
  | succ steps ih =>
    rw [refine?] at h
    split at h
    · next hfound =>
      cases h
      exact neighbour?_spec hfound
    · exact ih h

/-- Only a decimal with a point becomes a number that is not whole. -/
lemma exponent_neg {d : Decimal} (hx : form x = .finite s m e hm) (hwhole : ¬ isWhole x = true)
    (hd : Float.ofScientific d.digits (d.exponent < 0) d.exponent.natAbs = unsigned x) :
    d.exponent < 0 := by
  by_contra hexp
  rw [decide_eq_false hexp] at hd
  have hform := form_unsigned hx
  rw [← hd] at hform
  obtain ⟨k, hk⟩ := whole_of_ofScientific hform
  exact hwhole (isWhole_of_magnitude (parts_of_finite hx).2 hk)

/-- The decimal equal to a number that is not whole becomes it. -/
lemma exact_spec (hx : form x = .finite s m e hm) (hwhole : ¬ isWhole x = true) :
    (exact x).exponent < 0 ∧ (exact x).toFloat = x := by
  have hparts := (parts_of_finite hx).2
  have hexp : ¬ 0 ≤ e := by
    intro he
    obtain ⟨k, rfl⟩ := Int.eq_ofNat_of_zero_le he
    refine hwhole (isWhole_of_magnitude (k := m * 2 ^ k) hparts ?_)
    rw [magnitude, zpow_natCast]
    push_cast
    rfl
  have hregular := regular_form x
  rw [hx] at hregular
  have hlow := hregular.1.low
  have hexact : exact x = ⟨isNegative x, m * 5 ^ e.natAbs, e⟩ := by
    rw [exact, hparts]
    exact if_neg hexp
  rw [hexact]
  refine ⟨Int.not_le.1 hexp, toFloat_exact hx rfl (Int.not_le.1 hexp) (by dsimp only; omega) ?_⟩
  obtain ⟨k, rfl⟩ : ∃ k : Nat, e = -k := ⟨e.natAbs, by omega⟩
  have hten : (10 : ℚ) = 2 * 5 := by norm_num
  rw [magnitude, zpow_neg, zpow_natCast, Int.natAbs_neg, Int.natAbs_natCast, hten, mul_pow]
  push_cast
  field_simp

/-- A number that is not whole has a shortest decimal with a point. -/
lemma shortest_spec (hx : form x = .finite s m e hm) (hwhole : ¬ isWhole x = true) :
    (shortest x).exponent < 0 ∧ (shortest x).toFloat = x := by
  obtain ⟨num, den, hratio⟩ : ∃ num den, ratio x = (num, den) := ⟨_, _, rfl⟩
  have hnum : num ≠ 0 := by
    rintro rfl
    exact hwhole ((isWhole_iff hratio).2 (Nat.zero_mod _))
  rw [shortest, hratio]
  simp only [if_neg hnum]
  split
  · next d hfound =>
    obtain ⟨hnegative, hd⟩ := refine?_spec hfound
    rw [toFloat, hnegative] at hd
    exact ⟨exponent_neg hx hwhole hd, toFloat_eq rfl hd⟩
  · exact exact_spec hx hwhole

/-- A finite number is written as a decimal with a point that becomes it again. -/
theorem exists_write_display (hx : x.isFinite = true) :
    ∃ d : Decimal, d.exponent < 0 ∧ (display x).toList = d.write ∧ d.toFloat = x := by
  obtain ⟨num, den, hratio⟩ : ∃ num den, ratio x = (num, den) := ⟨_, _, rfl⟩
  have hdisplay : (display x).toList = if isWhole x then
      write ⟨isNegative x, 10 * (num / den), -1⟩ else (shortest x).write := by
    rw [display, hx, hratio]
    simp only [Bool.not_true, Bool.false_eq_true, if_false]
    split
    · rw [String.toList_ofList, write_whole]
    · rw [String.toList_ofList]
  have hexp : (-1 : Int) < 0 := by decide
  have hlow : (-2048 : Int) ≤ -1 := by decide
  have hfinite : (form x).isFinite = true := hx
  cases hform : form x with
  | notANumber | infinity =>
    rw [hform] at hfinite
    cases hfinite
  | zero s =>
    obtain ⟨-, hnum⟩ := ratio_eq (parts_of_zero hform).2 hratio
    rw [magnitude, Nat.cast_zero, zero_mul, zero_mul, Nat.cast_eq_zero] at hnum
    subst hnum
    rw [if_pos ((isWhole_iff hratio).2 (Nat.zero_mod _)), Nat.zero_div] at hdisplay
    refine ⟨_, hexp, hdisplay, toFloat_eq rfl (eq_of_form ?_)⟩
    rw [form_unsigned_zero hform]
    exact form_fraction_zero
  | finite s m e hm =>
    by_cases hwhole : isWhole x = true
    · rw [if_pos hwhole] at hdisplay
      refine ⟨_, hexp, hdisplay, toFloat_exact hform rfl hexp hlow ?_⟩
      rw [magnitude_of_isWhole (parts_of_finite hform).2 hratio hwhole]
      push_cast
      ring
    · rw [if_neg hwhole] at hdisplay
      obtain ⟨hexp, hd⟩ := shortest_spec hform hwhole
      exact ⟨_, hexp, hdisplay, hd⟩

end Decimal

end HostedLisp
