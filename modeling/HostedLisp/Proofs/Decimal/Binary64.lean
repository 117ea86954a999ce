import Mathlib

/-!
# Floating point numbers

A finite number is a mantissa of at most 53 bits times a power of two. In canonical form the
mantissa has exactly 53 bits, unless the exponent is the least one. Every number is determined by
its form, and a value that has a canonical form is what it is rounded to, whether it comes as one
mantissa or as a quotient of two. Main definitions: `Canonical`, `magnitude`, `form`. Main
statements: `unpack_pack`, `roundWithAccuracy_exact`, `div_exact`.
-/

namespace HostedLisp.Binary64

open Float.Model Float.Model.UnpackedFloat

/-- The mantissa and the exponent of a number that is not zero. -/
structure Canonical (m : Nat) (e : Int) : Prop where
  pos : 0 < m
  lt : m < 2 ^ 53
  low : -1074 ≤ e
  normal : 2 ^ 52 ≤ m ∨ e = -1074

variable {m m' : Nat} {e e' : Int} {s s' : Sign} {f : UnpackedFloat}

namespace Canonical

lemma log2_le (h : Canonical m e) : m.log2 ≤ 52 :=
  Nat.le_of_lt_succ ((Nat.log2_lt h.pos.ne').2 h.lt)

lemma log2_eq (h : Canonical m e) (hm : 2 ^ 52 ≤ m) : m.log2 = 52 :=
  Nat.le_antisymm h.log2_le ((Nat.le_log2 h.pos.ne').2 hm)

/-- The exponent is the one that rounding aims at. -/
lemma targetExponent (h : Canonical m e) :
    Format.binary64.targetExponent (totalExponent m e) = e := by
  have hlog := h.log2_le
  have hlow := h.low
  simp only [Format.targetExponent, totalExponent, Format.mantissaBits, Format.minExponent]
  obtain hm | rfl := h.normal
  · have := h.log2_eq hm
    norm_num
    omega
  · norm_num
    omega

end Canonical

/-- A number in canonical form that is not too great, or what is no such number. -/
def Regular : UnpackedFloat → Prop
  | .finite _ m e _ => Canonical m e ∧ e ≤ 971
  | _ => True

/-! ### Packing -/

/-- What a number has for its bits. -/
lemma unpack_components (b : BitVec 11) (c : BitVec 52) :
    UnpackedFloat.unpack .binary64 (packComponents .binary64 s b c) =
      if b = -1#11 then if c = 0#52 then .infinity s else .notANumber
      else if b = 0#11 then
        if h : c = 0#52 then .zero s
        else .finite s c.toNat (-1074) (by simpa [BitVec.toNat_pos, BitVec.pos_iff_ne_zero] using h)
      else .finite s (2 ^ 52 + c.toNat) (b.toNat - 1075) (by omega) := by
  rw [UnpackedFloat.unpack]
  simp only [unpackExponent_packComponents, unpackMantissa_packComponents,
    unpackSign_packComponents, Sign.ofBitVec_toBitVec]
  have hleading : (1#1 ++ c).toNat = 2 ^ 52 + c.toNat := by
    rw [BitVec.toNat_append]
    have := Nat.two_pow_add_eq_or_of_lt c.isLt 1
    simpa [Nat.shiftLeft_eq] using this.symm
  split
  · rfl
  · split
    · next hb =>
      subst hb
      rfl
    · simp only [hleading]
      rfl

lemma pack_finite (h : Canonical m e) (hhigh : e ≤ 971) :
    UnpackedFloat.pack .binary64 (.finite s m e h.pos) =
      if 2 ^ 52 ≤ m then
        packComponents .binary64 s (BitVec.ofNat 11 (e + 1075).toNat) (BitVec.ofNat 52 m)
      else packComponents .binary64 s 0#11 (BitVec.ofNat 52 m) := by
  have hlow := h.low
  have hbiased : e + (Format.exponentBias .binary64 : Nat) + (52 : Nat) = e + 1075 := by
    change e + 1023 + 52 = e + 1075
    omega
  have hbound : ¬ 2 ^ 11 ≤ (e + 1075).toNat + 1 := by omega
  have hbits : m.log2 + 1 = Format.mantissaBits .binary64 ↔ 2 ^ 52 ≤ m := by
    rw [← Nat.le_log2 h.pos.ne']
    have := h.log2_le
    change m.log2 + 1 = 53 ↔ _
    omega
  change (if 2 ^ 11 ≤ (e + (Format.exponentBias .binary64 : Nat) + (52 : Nat)).toNat + 1 then _
    else _) = _
  rw [hbiased, if_neg hbound]
  simp only [hbits]

lemma unpack_pack_finite (h : Canonical m e) (hhigh : e ≤ 971) :
    (Float.Model.pack (.finite s m e h.pos)).unpack = .finite s m e h.pos := by
  have hlow := h.low
  have hlt := h.lt
  have hpos := h.pos
  change UnpackedFloat.unpack .binary64 (UnpackedFloat.pack .binary64 _) = _
  rw [pack_finite h hhigh]
  split
  · next hm =>
    have hb : (BitVec.ofNat 11 (e + 1075).toNat).toNat = (e + 1075).toNat := by
      rw [BitVec.toNat_ofNat]
      omega
    have hne : BitVec.ofNat 11 (e + 1075).toNat ≠ -1#11 := by
      intro heq
      rw [heq] at hb
      simp at hb
      omega
    have hne0 : BitVec.ofNat 11 (e + 1075).toNat ≠ 0#11 := by
      intro heq
      rw [heq] at hb
      simp at hb
      omega
    rw [unpack_components, if_neg hne, if_neg hne0]
    congr 1
    · rw [BitVec.toNat_ofNat]
      omega
    · omega
  · next hm =>
    have hc : (BitVec.ofNat 52 m).toNat = m := by
      rw [BitVec.toNat_ofNat]
      omega
    have hne : BitVec.ofNat 52 m ≠ 0#52 := by
      intro heq
      rw [heq] at hc
      simp at hc
      omega
    rw [unpack_components, if_neg (by decide), if_pos rfl, dif_neg hne]
    obtain rfl := h.normal.resolve_left hm
    congr 1

/-- What has a regular form is packed without loss. -/
theorem unpack_pack (hf : Regular f) : (Float.Model.pack f).unpack = f := by
  cases f with
  | finite s m e hm => exact unpack_pack_finite hf.1 hf.2
  | zero s => exact unpack_packedZero
  | notANumber => exact unpack_packedNaN
  | infinity s =>
    change UnpackedFloat.unpack .binary64 (packComponents .binary64 s (-1#11) 0#52) = _
    rw [unpack_components, if_pos rfl, if_pos rfl]

lemma regular_unpack (x : Float.Model) : Regular x.unpack := by
  have hbits := @packComponents_unpackSign_unpackExponent_unpackMantissa .binary64
    x.toBits.toBitVec
  rw [Float.Model.unpack, ← hbits, unpack_components]
  generalize @unpackExponent .binary64 x.toBits.toBitVec = b
  generalize @unpackMantissa .binary64 x.toBits.toBitVec = c
  have hc : c.toNat < 2 ^ 52 := c.isLt
  have hb : b.toNat < 2 ^ 11 := b.isLt
  split
  · split <;> trivial
  · next hne =>
    split
    · split
      · trivial
      · next hc0 =>
        have hpos : 0 < c.toNat := Nat.pos_of_ne_zero fun h => hc0 (BitVec.eq_of_toNat_eq h)
        exact ⟨⟨hpos, by omega, by omega, .inr rfl⟩, by omega⟩
    · next hne0 =>
      have hb' : b.toNat ≠ 2047 := fun heq => hne (BitVec.eq_of_toNat_eq heq)
      have hb0 : b.toNat ≠ 0 := fun heq => hne0 (BitVec.eq_of_toNat_eq heq)
      exact ⟨⟨by omega, by omega, by omega, .inl (by omega)⟩, by omega⟩

/-- A number is determined by its form. -/
theorem pack_unpack (x : Float.Model) : Float.Model.pack x.unpack = x := by
  obtain ⟨bits, hvalid⟩ := x
  simp only [Float.Model.pack, Float.Model.unpack, Float.Model.mk.injEq]
  exact UInt64.toBitVec_inj.1 (pack_unpack_of_valid hvalid)

/-- A number that is too great is packed as an infinite one. -/
lemma unpack_pack_high (h : Canonical m e) (hhigh : ¬ e ≤ 971) :
    (Float.Model.pack (.finite s m e h.pos)).unpack = .infinity s := by
  have hbiased : e + (Format.exponentBias .binary64 : Nat) + (52 : Nat) = e + 1075 := by
    change e + 1023 + 52 = e + 1075
    omega
  have hpack : UnpackedFloat.pack .binary64 (.finite s m e h.pos) =
      UnpackedFloat.pack .binary64 (.infinity s) := by
    change (if 2 ^ 11 ≤ (e + (Format.exponentBias .binary64 : Nat) + (52 : Nat)).toNat + 1 then _
      else _) = _
    rw [hbiased]
    exact if_pos (by omega)
  change UnpackedFloat.unpack .binary64 (UnpackedFloat.pack .binary64 _) = _
  rw [hpack]
  exact unpack_pack (f := .infinity s) trivial

/-- What is too great, or not rounded at all, still is no undefined number when it is packed. -/
lemma unpack_pack_ne_notANumber (hf : f ≠ .notANumber) :
    (Float.Model.pack f).unpack ≠ .notANumber := by
  obtain ⟨s, b, c, hpack, hc⟩ : ∃ s b c, UnpackedFloat.pack .binary64 f =
      packComponents .binary64 s b c ∧ (b = -1#11 → c = 0#52) := by
    cases f with
    | notANumber => exact absurd rfl hf
    | infinity s => exact ⟨s, _, _, rfl, fun _ => rfl⟩
    | zero s => exact ⟨s, _, _, rfl, fun _ => rfl⟩
    | finite s m e hm =>
      rw [UnpackedFloat.pack.eq_def]
      simp only
      split
      · exact ⟨s, _, _, rfl, fun _ => rfl⟩
      · next hbound =>
        split
        · refine ⟨s, _, _, rfl, fun hb => ?_⟩
          have hb := congrArg BitVec.toNat hb
          rw [BitVec.toNat_ofNat] at hb
          change ¬ 2048 ≤ _ at hbound
          change _ % 2048 = 2047 at hb
          omega
        · exact ⟨s, _, _, rfl, fun h => absurd h (by decide)⟩
  change UnpackedFloat.unpack .binary64 (UnpackedFloat.pack .binary64 f) ≠ _
  rw [hpack, unpack_components]
  split
  · next hb =>
    rw [if_pos (hc hb)]
    exact nofun
  · split
    · split <;> exact nofun
    · exact nofun

/-! ### The value of a number -/

/-- The number that a mantissa and an exponent stand for. -/
def magnitude (m : Nat) (e : Int) : ℚ := m * 2 ^ e

lemma magnitude_zero (n : Nat) : magnitude n 0 = n := by
  rw [magnitude, zpow_zero, mul_one]

lemma magnitude_pos (hm : 0 < m) : 0 < magnitude m e := by
  rw [magnitude]
  positivity

lemma magnitude_mul (m m' : Nat) (e e' : Int) :
    magnitude (m * m') (e + e') = magnitude m e * magnitude m' e' := by
  rw [magnitude, magnitude, magnitude, zpow_add₀ two_ne_zero]
  push_cast
  ring

lemma magnitude_mul_two_pow (m k : Nat) (e : Int) :
    magnitude (m * 2 ^ k) (e - k) = magnitude m e := by
  rw [magnitude, magnitude, zpow_sub₀ two_ne_zero]
  push_cast
  field_simp
  rw [zpow_natCast]

/-- Of two forms of a value the one with the smaller exponent has the greater mantissa. -/
lemma eq_mul_two_pow (h : magnitude m e = magnitude m' e') (he : e ≤ e') :
    m = m' * 2 ^ (e' - e).toNat := by
  obtain ⟨k, rfl⟩ : ∃ k : Nat, e = e' - k := ⟨(e' - e).toNat, by omega⟩
  rw [← magnitude_mul_two_pow m' k, magnitude, magnitude] at h
  have hcast := mul_right_cancel₀ (zpow_ne_zero _ two_ne_zero) h
  have hk : (e' - (e' - k)).toNat = k := by omega
  rw [hk]
  exact_mod_cast hcast

lemma log2_mul_two_pow (hm : 0 < m) (k : Nat) : (m * 2 ^ k).log2 = m.log2 + k := by
  have hne : m * 2 ^ k ≠ 0 := by positivity
  have hlow := Nat.log2_self_le hm.ne'
  have hhigh := Nat.lt_log2_self (n := m)
  rw [Nat.log2_eq_iff hne, Nat.pow_add, Nat.add_right_comm, Nat.pow_add]
  exact ⟨Nat.mul_le_mul_right _ hlow, Nat.mul_lt_mul_of_pos_right hhigh (by positivity)⟩

lemma totalExponent_congr (hm : 0 < m) (hm' : 0 < m') (h : magnitude m e = magnitude m' e') :
    totalExponent m e = totalExponent m' e' := by
  wlog he : e ≤ e' generalizing m m' e e'
  · exact (this hm' hm h.symm (le_of_not_ge he)).symm
  rw [eq_mul_two_pow h he, totalExponent, totalExponent, log2_mul_two_pow hm']
  omega

lemma totalExponent_mul_le (hm : 0 < m) (hm' : 0 < m') :
    totalExponent (m * m') (e + e') ≤ totalExponent m e + totalExponent m' e' := by
  have hlt : m * m' < 2 ^ (m.log2 + 1 + (m'.log2 + 1)) := by
    rw [Nat.pow_add]
    exact Nat.mul_lt_mul'' Nat.lt_log2_self Nat.lt_log2_self
  have hlog := (Nat.log2_lt (Nat.mul_pos hm hm').ne').2 hlt
  simp only [totalExponent]
  omega

/-! ### Rounding -/

lemma shiftRight_zero (em : ExtendedMantissa) : em >>> 0 = em := rfl

lemma shiftRight_succ (em : ExtendedMantissa) (k : Nat) :
    em >>> (k + 1) = (em >>> k).shiftRightOne := rfl

lemma shiftRight_add (em : ExtendedMantissa) (j k : Nat) : em >>> (j + k) = em >>> j >>> k := by
  induction k with
  | zero => rfl
  | succ k ih => rw [← Nat.add_assoc, shiftRight_succ, shiftRight_succ, ih]

/-- Zeros at the end of a mantissa are shifted out without a trace. -/
lemma shiftRight_multiple (m k : Nat) :
    (⟨m * 2 ^ k, false, false⟩ : ExtendedMantissa) >>> k = ⟨m, false, false⟩ := by
  induction k generalizing m with
  | zero => simp [shiftRight_zero]
  | succ k ih =>
    rw [shiftRight_succ, Nat.pow_succ', ← Nat.mul_assoc, ih]
    simp [ExtendedMantissa.shiftRightOne]

lemma shiftToExponent_congr {t : Int} (h : magnitude m e = magnitude m' e') (he : e ≤ t)
    (he' : e' ≤ t) : shiftToExponent m e .exact t = shiftToExponent m' e' .exact t := by
  wlog hle : e ≤ e' generalizing m m' e e'
  · exact (this h.symm he' he (le_of_not_ge hle)).symm
  rw [eq_mul_two_pow h hle, shiftToExponent, shiftToExponent]
  have hshift : (t - e).toNat = (e' - e).toNat + (t - e').toNat := by omega
  simp only [ExtendedMantissa.ofMantissaAndAccuracy, hshift, shiftRight_add,
    shiftRight_multiple, Prod.mk.injEq, true_and]
  omega

/-- Rounding depends on the value alone, if there are digits enough to round. -/
lemma roundWithAccuracy_congr (hm : 0 < m) (hm' : 0 < m') (h : magnitude m e = magnitude m' e')
    (he : e ≤ Format.binary64.targetExponent (totalExponent m e))
    (he' : e' ≤ Format.binary64.targetExponent (totalExponent m' e')) :
    roundWithAccuracy .binary64 s m e .exact = roundWithAccuracy .binary64 s m' e' .exact := by
  have hshift : shiftToTargetExponent .binary64 m e .exact =
      shiftToTargetExponent .binary64 m' e' .exact := by
    rw [shiftToTargetExponent, shiftToTargetExponent]
    rw [totalExponent_congr hm hm' h] at he ⊢
    exact shiftToExponent_congr h he he'
  rw [roundWithAccuracy, roundWithAccuracy, hshift]

lemma shiftToTargetExponent_exact (h : Canonical m e) (hv : magnitude m' e' = magnitude m e)
    (he : e' ≤ e) : shiftToTargetExponent .binary64 m' e' .exact = (⟨m, false, false⟩, e) := by
  have hm' : 0 < m' := by
    rw [eq_mul_two_pow hv he]
    have := h.pos
    positivity
  rw [shiftToTargetExponent, totalExponent_congr hm' h.pos hv, h.targetExponent,
    shiftToExponent_congr hv he le_rfl, shiftToExponent]
  simp [ExtendedMantissa.ofMantissaAndAccuracy, shiftRight_zero]

/-- A value that has a canonical form is not changed by rounding. -/
theorem roundWithAccuracy_exact (h : Canonical m e) (hv : magnitude m' e' = magnitude m e)
    (he : e' ≤ e) : roundWithAccuracy .binary64 s m' e' .exact = .finite s m e h.pos := by
  rw [roundWithAccuracy]
  simp only [shiftToTargetExponent_exact h hv he, ExtendedMantissa.roundedMantissa,
    ExtendedMantissa.accuracy, Accuracy.roundToNearestEven,
    shiftToTargetExponent_exact h rfl le_rfl]
  rw [dif_neg h.pos.ne']

lemma roundWithAccuracy_ne_notANumber {accuracy : Accuracy} :
    roundWithAccuracy .binary64 s m e accuracy ≠ .notANumber := by
  rw [roundWithAccuracy]
  dsimp only
  split <;> exact nofun

/-! ### Products and quotients -/

lemma mul_finite (hm : 0 < m) (hm' : 0 < m') :
    UnpackedFloat.mul .binary64 (.finite s m e hm) (.finite s' m' e' hm') =
      roundWithAccuracy .binary64 (s * s') (m * m') (e + e') .exact := rfl

lemma div_finite (hm : 0 < m) (hm' : 0 < m') :
    UnpackedFloat.div .binary64 (.finite s m e hm) (.finite s' m' e' hm') =
      roundWithAccuracy .binary64 (s / s') (divCore .binary64 m e m' e').1
        (divCore .binary64 m e m' e').2.1 (divCore .binary64 m e m' e').2.2 := rfl

lemma targetExponent_mono {t t' : Int} (h : t ≤ t') :
    Format.binary64.targetExponent t ≤ Format.binary64.targetExponent t' :=
  max_le_max_right _ (Int.sub_le_sub_right h _)

/-- A quotient that has a canonical form is that form. -/
theorem div_exact {m₁ m₂ : Nat} {e₁ e₂ : Int} (h : Canonical m e) (h₁ : 0 < m₁) (h₂ : 0 < m₂)
    (hv : magnitude m₁ e₁ = magnitude m e * magnitude m₂ e₂) :
    UnpackedFloat.div .binary64 (.finite s m₁ e₁ h₁) (.finite s' m₂ e₂ h₂) =
      .finite (s / s') m e h.pos := by
  rw [← magnitude_mul] at hv
  have htotal := totalExponent_congr h₁ (Nat.mul_pos h.pos h₂) hv
  have htarget :
      Format.binary64.targetExponent (totalExponent m₁ e₁ - totalExponent m₂ e₂) ≤ e := by
    have hle : totalExponent (m * m₂) (e + e₂) ≤ totalExponent m e + totalExponent m₂ e₂ :=
      totalExponent_mul_le h.pos h₂
    calc _ ≤ Format.binary64.targetExponent (totalExponent m e) := targetExponent_mono (by omega)
      _ = e := h.targetExponent
  obtain ⟨t, ht⟩ : ∃ t, min (e₁ - e₂)
    (Format.binary64.targetExponent (totalExponent m₁ e₁ - totalExponent m₂ e₂)) = t := ⟨_, rfl⟩
  have hte : t ≤ e := by omega
  -- The dividend has been given enough zeros for the quotient to be whole.
  have hshift : m₁ * 2 ^ (e₁ - e₂ - t).toNat = m * 2 ^ (e - t).toNat * m₂ := by
    have hscaled : magnitude (m₁ * 2 ^ (e₁ - e₂ - t).toNat) (e₂ + t) = magnitude m₁ e₁ := by
      rw [← magnitude_mul_two_pow m₁ (e₁ - e₂ - t).toNat e₁]
      congr 1
      omega
    have hexp : (e + e₂ - (e₂ + t)).toNat = (e - t).toNat := by omega
    rw [eq_mul_two_pow (hscaled.trans hv) (by omega), hexp]
    ring
  have hdiv : divCore .binary64 m₁ e₁ m₂ e₂ = (m * 2 ^ (e - t).toNat, t, .exact) := by
    rw [divCore, ht]
    simp only [Nat.shiftLeft_eq, hshift, Nat.mul_div_cancel _ h₂, Nat.mul_mod_left,
      accuracyOfFraction, if_true]
  rw [div_finite, hdiv]
  change roundWithAccuracy .binary64 (s / s') (m * 2 ^ (e - t).toNat) t .exact = _
  refine roundWithAccuracy_exact h ?_ hte
  rw [← magnitude_mul_two_pow m (e - t).toNat e]
  congr 1
  omega

/-! ### Numbers and their forms -/

/-- What a floating point number is made of. -/
def form (x : Float) : UnpackedFloat := x.toModel.unpack

variable {x y : Float}

lemma regular_form (x : Float) : Regular (form x) := regular_unpack x.toModel

lemma eq_of_form (h : form x = form y) : x = y := by
  obtain ⟨x⟩ := x
  obtain ⟨y⟩ := y
  rw [Float.ofModel.injEq, ← pack_unpack x, ← pack_unpack y]
  exact congrArg _ h

lemma form_pack (hf : Regular f) : form (.ofModel (.pack f)) = f := unpack_pack hf

lemma form_pack_high (h : Canonical m e) (hhigh : ¬ e ≤ 971) :
    form (.ofModel (.pack (.finite s m e h.pos))) = .infinity s := unpack_pack_high h hhigh

lemma form_pack_ne_notANumber (hf : f ≠ .notANumber) :
    form (.ofModel (.pack f)) ≠ .notANumber := unpack_pack_ne_notANumber hf

lemma mul_eq (x y : Float) :
    x * y = .ofModel (.pack (UnpackedFloat.mul .binary64 (form x) (form y))) := rfl

lemma div_eq (x y : Float) :
    x / y = .ofModel (.pack (UnpackedFloat.div .binary64 (form x) (form y))) := rfl

lemma form_neg (x : Float) : form (-x) = (form x).neg := by
  change form (.ofModel (.pack (form x).neg)) = _
  refine form_pack ?_
  have hx := regular_form x
  revert hx
  cases form x <;> exact id

lemma neg_neg_form (f : UnpackedFloat) : f.neg.neg = f := by
  cases f with
  | finite s | infinity s | zero s => cases s <;> rfl
  | notANumber => rfl

lemma neg_neg (x : Float) : - -x = x := by
  refine eq_of_form ?_
  rw [form_neg, form_neg, neg_neg_form]

lemma lt_iff_compare (x y : Float) : x < y ↔ (form x).compare (form y) = some .lt := by
  change decide (x.toModel < y.toModel) = true ↔ _
  rw [decide_eq_true_iff]
  change ((form x).compare (form y) == some .lt) = true ↔ _
  exact beq_iff_eq

end HostedLisp.Binary64
