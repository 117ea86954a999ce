import HostedLisp.Decimal.Basic
import HostedLisp.Proofs.Decimal.WholeNumbers

/-!
# Numbers from decimal fractions

A decimal fraction becomes a floating point number on one of two ways: its digits and its power of
ten are numbers themselves and are multiplied or divided, or it is rounded at once. Both agree. A
whole number becomes the nearest one, with the order of whole numbers preserved, and what it
becomes is whole again. A fraction that has a canonical form becomes that form. Main statements:
`ofScientific_whole`, `ofScientific_exact`, `whole_of_ofScientific`, `ofScientific_ne_notANumber`.
-/

namespace HostedLisp.Binary64

open Float.Model Float.Model.UnpackedFloat

variable {m : Nat} {e : Int} {s : Sign} {n i : Nat}

/-! ### The two factors -/

lemma form_toFloat (hn : 0 < n) (hlt : n < 2 ^ 53) :
    form n.toUInt64.toFloat = .finite .positive (n * 2 ^ (52 - n.log2))
      ((0 : Nat) - (52 - n.log2 : Nat)) (by positivity) := by
  have h := (canonical_scaled hn hlt 0).1
  have hv : magnitude n 0 = magnitude (n * 2 ^ (52 - n.log2)) ((0 : Nat) - (52 - n.log2 : Nat)) :=
    (magnitude_mul_two_pow _ _ _).symm
  have hword : n.toUInt64.toNat = n := UInt64.toNat_ofNat_of_lt' (hlt.trans (by decide))
  have hcompare : compare (n : Int) 0 = .gt := compare_gt_iff_gt.2 (by omega)
  have hround : UnpackedFloat.ofUInt64 .binary64 n.toUInt64 =
      .finite .positive (n * 2 ^ (52 - n.log2)) ((0 : Nat) - (52 - n.log2 : Nat)) h.pos := by
    rw [UnpackedFloat.ofUInt64, UnpackedFloat.ofNat, UnpackedFloat.ofInt,
      UnpackedFloat.normalize, hword, hcompare]
    simp only [Int.toNat_natCast]
    rw [UnpackedFloat.round, totalExponent_congr hn h.pos hv, h.targetExponent, decreaseExponent]
    refine roundWithAccuracy_exact h ?_ (by omega)
    rw [Nat.shiftLeft_eq, magnitude_mul_two_pow, hv]
  change (Float.Model.pack _).unpack = _
  rw [hround]
  exact unpack_pack ⟨h, by omega⟩

lemma form_toFloat_zero : form (0 : Nat).toUInt64.toFloat = .zero .positive := by
  have hzero : (0 : Nat).toUInt64.toFloat = .ofModel (.pack (.zero .positive)) := by
    decide +kernel
  rw [hzero]
  exact form_pack trivial

/-- The mantissa of a power of ten is that of a power of five. -/
lemma powerOfTen_eq : ∀ i : Fin 23, Float.exactlyRepresentablePowersOfTen[i.val] =
    .ofModel (.pack (.finite .positive (5 ^ i.val * 2 ^ (52 - (5 ^ i.val).log2))
      (i.val - (52 - (5 ^ i.val).log2 : Nat)) (by positivity))) := by
  decide +kernel

lemma form_powerOfTen (hi : i < Float.exactlyRepresentablePowersOfTen.size) :
    ∃ m e, ∃ h : Canonical m e, form Float.exactlyRepresentablePowersOfTen[i] =
      .finite .positive m e h.pos ∧ magnitude m e = 10 ^ i ∧ 2 ^ 52 ≤ m := by
  have hi : i < 23 := hi
  have hlt : 5 ^ i < 2 ^ 53 :=
    (Nat.pow_le_pow_right (by decide) (Nat.le_of_lt_succ hi)).trans_lt (by decide)
  obtain ⟨h, hlow⟩ := canonical_scaled (by positivity) hlt i
  refine ⟨_, _, h, ?_, ?_, hlow⟩
  · rw [powerOfTen_eq ⟨i, hi⟩]
    exact form_pack ⟨h, by omega⟩
  · rw [magnitude_mul_two_pow, magnitude, zpow_natCast]
    push_cast
    rw [← mul_pow]
    norm_num

/-! ### Whole numbers -/

/-- A whole number becomes the nearest number, on either way. -/
theorem ofScientific_whole (hn : 0 < n) (hi : i ≤ 2048) :
    Float.ofScientific n false i = .ofModel (.pack (nearest (n * 10 ^ i))) := by
  rw [Float.ofScientific]
  split
  · next hfast =>
    obtain ⟨h, hlow⟩ := canonical_scaled hn hfast.1 0
    have hsize : i < Float.exactlyRepresentablePowersOfTen.size := Nat.lt_succ_of_le hfast.2
    obtain ⟨m, e, h', hform, hpower, hlow'⟩ := form_powerOfTen hsize
    simp only [Bool.false_eq_true, if_false]
    rw [mul_eq, form_toFloat hn hfast.1, hform, mul_finite]
    refine congrArg (fun f => Float.ofModel (.pack f)) ?_
    refine roundWithAccuracy_eq_nearest ?_ ?_
    · exact hlow.trans (Nat.le_mul_of_pos_right _ h'.pos)
    · rw [magnitude_mul, magnitude_mul_two_pow, hpower, Nat.cast_zero, magnitude_zero]
      push_cast
      rfl
  · have hhigh : ¬ ((i : Int) > 2 ^ 11) := by omega
    have hlow : ¬ ((i : Int) < -(2 ^ 11 + n.log2)) := by omega
    have hround : roundWithAccuracy .binary64 .positive (n <<< 53 * 10 ^ i) (-53 + 0) .exact =
        nearest (n * 10 ^ i) := by
      refine roundWithAccuracy_eq_nearest ?_ ?_
      · rw [Nat.shiftLeft_eq]
        calc 2 ^ 52 ≤ 1 * 2 ^ 53 * 1 := by decide
          _ ≤ n * 2 ^ 53 * 10 ^ i :=
            Nat.mul_le_mul (Nat.mul_le_mul_right _ hn) (Nat.one_le_pow _ _ (by decide))
      · have hexp : (-53 : Int) = 0 - (53 : Nat) := rfl
        rw [magnitude_mul, magnitude_zero, Nat.shiftLeft_eq, hexp, magnitude_mul_two_pow,
          magnitude_zero]
        push_cast
        rfl
    rw [← hround]
    simp only [Bool.false_eq_true, if_false, Int.ofNat_eq_natCast]
    rw [Float.Model.ofScientific, UnpackedFloat.ofScientific, dif_neg hn.ne', if_neg hhigh,
      if_neg hlow, if_pos (Int.natCast_nonneg i), mul_finite]
    rfl

lemma form_ofScientific_zero (i : Nat) : form (Float.ofScientific 0 false i) = .zero .positive := by
  rw [Float.ofScientific]
  split
  · next hfast =>
    have hsize : i < Float.exactlyRepresentablePowersOfTen.size := Nat.lt_succ_of_le hfast.2
    obtain ⟨m, e, h, hform, -, -⟩ := form_powerOfTen hsize
    simp only [Bool.false_eq_true, if_false]
    rw [mul_eq, form_toFloat_zero, hform]
    exact form_pack trivial
  · simp only [Bool.false_eq_true, if_false]
    rw [Float.Model.ofScientific, UnpackedFloat.ofScientific, dif_pos rfl]
    exact form_pack trivial

/-! ### Fractions -/

/-- A decimal fraction that has a canonical form becomes that form. -/
theorem ofScientific_exact (h : Canonical m e) (hhigh : e ≤ 971) (hi : 0 < i) (hle : i ≤ 2048)
    (hv : (n : ℚ) = magnitude m e * 10 ^ i) :
    form (Float.ofScientific n true i) = .finite .positive m e h.pos := by
  have hn : 0 < n := by
    have hpos : (0 : ℚ) < n := by
      rw [hv]
      have := magnitude_pos (e := e) h.pos
      positivity
    exact_mod_cast hpos
  rw [← magnitude_zero] at hv
  rw [Float.ofScientific]
  split
  · next hfast =>
    have hsize : i < Float.exactlyRepresentablePowersOfTen.size := Nat.lt_succ_of_le hfast.2
    obtain ⟨m', e', h', hform, hpower, -⟩ := form_powerOfTen hsize
    simp only [if_true]
    rw [div_eq, form_toFloat hn hfast.1, hform, div_exact h _ _ ?_]
    · exact form_pack ⟨h, hhigh⟩
    · rw [magnitude_mul_two_pow, Nat.cast_zero, hv, hpower]
  · obtain ⟨k, rfl⟩ : ∃ k, i = k + 1 := ⟨i - 1, by omega⟩
    have hhigh' : ¬ (Int.negSucc k > 2 ^ 11) := by omega
    have hlow : ¬ (Int.negSucc k < -(2 ^ 11 + n.log2)) := by omega
    have hneg : ¬ (0 ≤ Int.negSucc k) := by omega
    simp only [if_true, Int.negOfNat]
    rw [Float.Model.ofScientific, UnpackedFloat.ofScientific, dif_neg hn.ne', if_neg hhigh',
      if_neg hlow, if_neg hneg, div_exact h _ _ ?_]
    · exact form_pack ⟨h, hhigh⟩
    · have hexp : (-Int.negSucc k).toNat = k + 1 := rfl
      rw [hv, magnitude_zero, hexp]
      push_cast
      rfl

/-! ### What numbers a decimal fraction can become -/

/-- Without a fraction a decimal becomes a whole number. -/
theorem whole_of_ofScientific {hm : 0 < m}
    (h : form (Float.ofScientific n false i) = .finite s m e hm) :
    ∃ k : Nat, magnitude m e = k := by
  obtain rfl | hn := Nat.eq_zero_or_pos n
  · rw [form_ofScientific_zero] at h
    cases h
  by_cases hi : i ≤ 2048
  · rw [ofScientific_whole hn hi] at h
    obtain ⟨m', e', h', heq, -, hwhole, -⟩ := nearest_eq (n := n * 10 ^ i) (by positivity)
    rw [heq] at h
    by_cases hhigh : e' ≤ 971
    · have hpacked := form_pack (f := .finite .positive m' e' h'.pos) ⟨h', hhigh⟩
      rw [hpacked] at h
      cases h
      obtain hwhole | hexp := hwhole
      · exact ⟨_, hwhole⟩
      · obtain ⟨k, rfl⟩ := Int.eq_ofNat_of_zero_le hexp
        refine ⟨m * 2 ^ k, ?_⟩
        rw [magnitude, zpow_natCast]
        push_cast
        rfl
    · rw [form_pack_high h' hhigh] at h
      cases h
  · have hinfinite : Float.ofScientific n false i = .ofModel (.pack (.infinity .positive)) := by
      have hhigh : (i : Int) > 2 ^ 11 := by omega
      rw [Float.ofScientific, dif_neg (by omega)]
      simp only [Bool.false_eq_true, if_false, Int.ofNat_eq_natCast]
      rw [Float.Model.ofScientific, UnpackedFloat.ofScientific, dif_neg hn.ne', if_pos hhigh]
    have hpacked := form_pack (f := .infinity .positive) trivial
    rw [hinfinite, hpacked] at h
    cases h

lemma scientific_ne_notANumber {k : Int} :
    UnpackedFloat.ofScientific .binary64 n k ≠ .notANumber := by
  rw [UnpackedFloat.ofScientific]
  split
  · exact nofun
  · split
    · exact nofun
    · split
      · exact nofun
      · split <;> exact roundWithAccuracy_ne_notANumber

/-- No decimal fraction becomes an undefined number. -/
theorem ofScientific_ne_notANumber {fraction : Bool} :
    form (Float.ofScientific n fraction i) ≠ .notANumber := by
  rw [Float.ofScientific]
  split
  · next hfast =>
    have hsize : i < Float.exactlyRepresentablePowersOfTen.size := Nat.lt_succ_of_le hfast.2
    obtain ⟨m, e, h, hform, -, -⟩ := form_powerOfTen hsize
    obtain rfl | hn := Nat.eq_zero_or_pos n
    · cases fraction
      · simp only [Bool.false_eq_true, if_false]
        rw [mul_eq, form_toFloat_zero, hform]
        exact form_pack_ne_notANumber nofun
      · simp only [if_true]
        rw [div_eq, form_toFloat_zero, hform]
        exact form_pack_ne_notANumber nofun
    · cases fraction
      · simp only [Bool.false_eq_true, if_false]
        rw [mul_eq, form_toFloat hn hfast.1, hform]
        exact form_pack_ne_notANumber roundWithAccuracy_ne_notANumber
      · simp only [if_true]
        rw [div_eq, form_toFloat hn hfast.1, hform]
        exact form_pack_ne_notANumber roundWithAccuracy_ne_notANumber
  · exact form_pack_ne_notANumber scientific_ne_notANumber

end HostedLisp.Binary64
