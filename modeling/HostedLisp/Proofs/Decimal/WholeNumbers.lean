import HostedLisp.Proofs.Decimal.Binary64

/-!
# Whole numbers among the floating point numbers

A whole number is rounded to 53 bits, and to the even neighbour if it lies half way. The nearest
number is whole again, and it is the whole number itself up to `2 ^ 53`. Rounding preserves the
order of whole numbers, though beyond `2 ^ 53` it makes different ones equal: the order of numbers
is that of their ranks, and the rank of the nearest number never decreases. Main definitions:
`nearest`, `wholeRank`, `place`. Main statements: `nearest_eq`, `wholeRank_mono`,
`wholeRank_strictMono`, `compare_place`.
-/

namespace HostedLisp.Binary64

open Float.Model Float.Model.UnpackedFloat

variable {m m' n n' : Nat} {e e' : Int} {s : Sign} {f g : UnpackedFloat}

/-! ### The nearest number -/

/-- The mantissa of a whole number below `2 ^ 53`, and of its products with powers of two. -/
lemma canonical_scaled (hn : 0 < n) (hlt : n < 2 ^ 53) (i : Nat) :
    Canonical (n * 2 ^ (52 - n.log2)) (i - (52 - n.log2 : Nat)) ∧
      2 ^ 52 ≤ n * 2 ^ (52 - n.log2) := by
  have hlog : n.log2 ≤ 52 := Nat.le_of_lt_succ ((Nat.log2_lt hn.ne').2 hlt)
  have hlow := Nat.log2_self_le hn.ne'
  have hhigh := Nat.lt_log2_self (n := n)
  have hlower : 2 ^ 52 ≤ n * 2 ^ (52 - n.log2) := calc
    2 ^ 52 = 2 ^ n.log2 * 2 ^ (52 - n.log2) := by rw [← Nat.pow_add, Nat.add_sub_cancel' hlog]
    _ ≤ n * 2 ^ (52 - n.log2) := Nat.mul_le_mul_right _ hlow
  have hupper : n * 2 ^ (52 - n.log2) < 2 ^ 53 := calc
    n * 2 ^ (52 - n.log2) < 2 ^ (n.log2 + 1) * 2 ^ (52 - n.log2) :=
      Nat.mul_lt_mul_of_pos_right hhigh (by positivity)
    _ = 2 ^ 53 := by rw [← Nat.pow_add, Nat.add_right_comm, Nat.add_sub_cancel' hlog]
  exact ⟨⟨by positivity, hupper, by omega, .inl hlower⟩, hlower⟩

/-- The number nearest to a whole number. -/
def nearest (n : Nat) : UnpackedFloat :=
  roundWithAccuracy .binary64 .positive (n * 2 ^ 52) (-52) .exact

/-- A mantissa of 53 bits or more is not extended by rounding. -/
lemma le_targetExponent (hm : 2 ^ 52 ≤ m) :
    e ≤ Format.binary64.targetExponent (totalExponent m e) := by
  have hlog := (Nat.le_log2 (by omega)).2 hm
  simp only [Format.targetExponent, totalExponent, Format.mantissaBits]
  omega

lemma roundWithAccuracy_eq_nearest (hm : 2 ^ 52 ≤ m) (hv : magnitude m e = n) :
    roundWithAccuracy .binary64 .positive m e .exact = nearest n := by
  have hn : 0 < n := by
    have hpos : 0 < magnitude m e := magnitude_pos (by omega)
    rw [hv] at hpos
    exact_mod_cast hpos
  have hlow : 2 ^ 52 ≤ n * 2 ^ 52 := Nat.le_mul_of_pos_left _ hn
  refine roundWithAccuracy_congr (by omega) (by omega) ?_ (le_targetExponent hm)
    (le_targetExponent hlow)
  rw [hv, ← magnitude_zero, ← magnitude_mul_two_pow n 52]
  rfl

/-! ### The order of whole numbers -/

/-- How great an extended mantissa is, in quarters of its last bit. -/
def weight (em : ExtendedMantissa) : Nat :=
  4 * em.mantissa + 2 * em.roundBit.toNat + em.stickyBit.toNat

lemma weight_shiftRightOne (em : ExtendedMantissa) :
    weight em.shiftRightOne = 2 * (weight em / 4) + min 1 (weight em % 4) := by
  obtain ⟨m, r, s⟩ := em
  have hm := Nat.mod_two_eq_zero_or_one m
  cases r <;> cases s <;> obtain hm | hm := hm <;>
    simp [weight, ExtendedMantissa.shiftRightOne, hm] <;> omega

lemma weight_shiftRight_mono {em em' : ExtendedMantissa} (h : weight em ≤ weight em') (k : Nat) :
    weight (em >>> k) ≤ weight (em' >>> k) := by
  induction k with
  | zero => exact h
  | succ k ih =>
    rw [shiftRight_succ, shiftRight_succ, weight_shiftRightOne, weight_shiftRightOne]
    omega

lemma roundedMantissa_mono {em em' : ExtendedMantissa} (h : weight em ≤ weight em') :
    em.roundedMantissa ≤ em'.roundedMantissa := by
  obtain ⟨m, r, s⟩ := em
  obtain ⟨m', r', s'⟩ := em'
  cases r <;> cases s <;> cases r' <;> cases s' <;>
    simp only [weight, Bool.toNat_false, Bool.toNat_true, ExtendedMantissa.roundedMantissa,
      ExtendedMantissa.accuracy, Accuracy.roundToNearestEven] at h ⊢ <;> omega

/-- The first 53 bits of a whole number, rounded. -/
def significand (n : Nat) : Nat :=
  ((⟨n * 2 ^ 52, false, false⟩ : ExtendedMantissa) >>> n.log2).roundedMantissa

lemma significand_mono (hn : n ≤ n') (hlog : n.log2 = n'.log2) :
    significand n ≤ significand n' := by
  rw [significand, significand, hlog]
  refine roundedMantissa_mono (weight_shiftRight_mono ?_ _)
  simp only [weight, Bool.toNat_false]
  omega

lemma roundedMantissa_multiple (m k : Nat) :
    ((⟨m * 2 ^ k, false, false⟩ : ExtendedMantissa) >>> k).roundedMantissa = m := by
  rw [shiftRight_multiple]
  rfl

lemma two_pow_le_significand (hn : 0 < n) : 2 ^ 52 ≤ significand n := by
  rw [← roundedMantissa_multiple (2 ^ 52) n.log2, significand]
  refine roundedMantissa_mono (weight_shiftRight_mono ?_ _)
  have := Nat.log2_self_le hn.ne'
  simp only [weight, Bool.toNat_false]
  omega

lemma significand_le (n : Nat) : significand n ≤ 2 ^ 53 := by
  rw [← roundedMantissa_multiple (2 ^ 53) n.log2, significand]
  refine roundedMantissa_mono (weight_shiftRight_mono ?_ _)
  have := Nat.lt_log2_self (n := n)
  rw [Nat.pow_succ] at this
  simp only [weight, Bool.toNat_false]
  omega

lemma significand_of_le (hn : n.log2 ≤ 52) : significand n = n * 2 ^ (52 - n.log2) := by
  have hsplit : n * 2 ^ 52 = n * 2 ^ (52 - n.log2) * 2 ^ n.log2 := by
    rw [Nat.mul_assoc, ← Nat.pow_add, Nat.sub_add_cancel hn]
  rw [significand, hsplit, roundedMantissa_multiple]

/-- The place of a number in the order of all positive ones. -/
def rank (m : Nat) (e : Int) : Int := (e + 1074) * 2 ^ 52 + m

/-- The place of the number nearest to a whole number. -/
def wholeRank (n : Nat) : Int := (n.log2 + 1022) * 2 ^ 52 + significand n

lemma shiftToTargetExponent_whole (hn : 0 < n) :
    shiftToTargetExponent .binary64 (n * 2 ^ 52) (-52) .exact =
      ((⟨n * 2 ^ 52, false, false⟩ : ExtendedMantissa) >>> n.log2, (n.log2 : Int) - 52) := by
  have htotal : totalExponent (n * 2 ^ 52) (-52) = n.log2 + 1 := by
    rw [totalExponent, log2_mul_two_pow hn]
    omega
  have htarget : Format.binary64.targetExponent (n.log2 + 1) = (n.log2 : Int) - 52 := by
    simp only [Format.targetExponent, Format.mantissaBits, Format.minExponent]
    norm_num
    omega
  have hshift : ((n.log2 : Int) - 52 - -52).toNat = n.log2 := by omega
  rw [shiftToTargetExponent, htotal, htarget, shiftToExponent]
  simp only [hshift, ExtendedMantissa.ofMantissaAndAccuracy, Prod.mk.injEq, true_and]
  omega

/-- The nearest number is the canonical form of the rounded significand. -/
lemma nearest_of_canonical (hn : 0 < n) (h : Canonical m e)
    (hv : magnitude (significand n) (n.log2 - 52) = magnitude m e)
    (he : (n.log2 : Int) - 52 ≤ e) : nearest n = .finite .positive m e h.pos := by
  have hsignificand : ((⟨n * 2 ^ 52, false, false⟩ : ExtendedMantissa) >>> n.log2).roundedMantissa
      = significand n := rfl
  rw [nearest, roundWithAccuracy]
  simp only [shiftToTargetExponent_whole hn, hsignificand, shiftToTargetExponent_exact h hv he]
  rw [dif_neg h.pos.ne']

/-- Only a whole number of more than 53 bits is changed by rounding. -/
lemma magnitude_significand (n : Nat) :
    magnitude (significand n) (n.log2 - 52) = n ∨ 0 < (n.log2 : Int) - 52 := by
  by_cases hle : n.log2 ≤ 52
  · left
    have hexp : (n.log2 : Int) - 52 = 0 - (52 - n.log2 : Nat) := by omega
    rw [significand_of_le hle, hexp, magnitude_mul_two_pow, magnitude_zero]
  · right
    omega

/-- The form of the number nearest to a whole number. It is that whole number itself if it has no
more than 53 bits, and in any case a whole one. -/
lemma nearest_eq (hn : 0 < n) : ∃ m e, ∃ h : Canonical m e,
    nearest n = .finite .positive m e h.pos ∧ rank m e = wholeRank n ∧
      (magnitude m e = n ∨ 0 ≤ e) ∧ e ≤ n.log2 - 51 := by
  have hlow := two_pow_le_significand hn
  have hhigh := significand_le n
  have hwhole := magnitude_significand n
  by_cases hlt : significand n < 2 ^ 53
  · have hcanonical : Canonical (significand n) (n.log2 - 52) :=
      ⟨by omega, hlt, by omega, .inl hlow⟩
    refine ⟨_, _, hcanonical, nearest_of_canonical hn hcanonical rfl le_rfl, ?_,
      hwhole.imp_right le_of_lt, by omega⟩
    rw [rank, wholeRank]
    ring
  -- Rounding up to the next power of two leaves 53 bits again.
  · have heq : significand n = 2 ^ 53 := by omega
    have hv : magnitude (significand n) (n.log2 - 52) = magnitude (2 ^ 52) (n.log2 - 51) := by
      have hexp : (n.log2 : Int) - 52 = n.log2 - 51 - (1 : Nat) := by omega
      rw [heq, hexp, ← magnitude_mul_two_pow (2 ^ 52) 1, ← Nat.pow_add]
    have hcanonical : Canonical (2 ^ 52) (n.log2 - 51) :=
      ⟨by omega, by omega, by omega, .inl le_rfl⟩
    refine ⟨_, _, hcanonical, nearest_of_canonical hn hcanonical hv (by omega), ?_, ?_, le_rfl⟩
    · rw [rank, wholeRank, heq]
      push_cast
      ring
    · rw [← hv]
      exact hwhole.imp_right fun h => by omega

/-- The number nearest to the smaller of two whole numbers is not the greater one. -/
lemma wholeRank_mono (hpos : 0 < n) (hn : n ≤ n') : wholeRank n ≤ wholeRank n' := by
  have hpos' := hpos.trans_le hn
  have hlog : n.log2 ≤ n'.log2 :=
    (Nat.le_log2 hpos'.ne').2 ((Nat.log2_self_le hpos.ne').trans hn)
  rw [wholeRank, wholeRank]
  obtain heq | hlt := hlog.eq_or_lt
  · have := significand_mono hn heq
    rw [heq]
    omega
  · have := significand_le n
    have := two_pow_le_significand hpos'
    omega

/-- Whole numbers up to `2 ^ 53` are kept apart. -/
lemma wholeRank_strictMono (hpos : 0 < n) (hn : n < n') (hle : n' ≤ 2 ^ 53) :
    wholeRank n < wholeRank n' := by
  have hpos' := hpos.trans hn
  have hlog : n.log2 ≤ n'.log2 :=
    (Nat.le_log2 hpos'.ne').2 ((Nat.log2_self_le hpos.ne').trans hn.le)
  have hbits : n.log2 ≤ 52 := Nat.le_of_lt_succ ((Nat.log2_lt hpos.ne').2 (by omega))
  have hsignificand := significand_of_le hbits
  rw [wholeRank, wholeRank]
  obtain heq | hlt := hlog.eq_or_lt
  · have hsignificand' := significand_of_le (heq ▸ hbits)
    have := Nat.mul_lt_mul_of_pos_right hn (Nat.two_pow_pos (52 - n.log2))
    rw [← heq] at hsignificand' ⊢
    omega
  · have hlow := two_pow_le_significand hpos'
    have hcanonical := (canonical_scaled hpos (by omega) 0).1.lt
    omega

lemma compare_rank (h : Canonical m e) (h' : Canonical m' e') :
    (compare e e').then (compare m m') = compare (rank m e) (rank m' e') := by
  have hlt := h.lt
  have hlt' := h'.lt
  have hlow := h.low
  have hlow' := h'.low
  have hnormal := h.normal
  have hnormal' := h'.normal
  rw [rank, rank]
  rcases lt_trichotomy e e' with he | rfl | he
  · rw [compare_lt_iff_lt.2 he, Ordering.lt_then, eq_comm, compare_lt_iff_lt]
    omega
  · rw [compare_eq_iff_eq.2 rfl, Ordering.eq_then]
    rcases lt_trichotomy m m' with hm | rfl | hm
    · rw [compare_lt_iff_lt.2 hm, eq_comm, compare_lt_iff_lt]
      omega
    · rw [compare_eq_iff_eq.2 rfl, compare_eq_iff_eq.2 rfl]
    · rw [compare_gt_iff_gt.2 hm, eq_comm, compare_gt_iff_gt]
      omega
  · rw [compare_gt_iff_gt.2 he, Ordering.gt_then, eq_comm, compare_gt_iff_gt]
    omega

/-- The place of a finite number in the order of all of them. -/
def place : UnpackedFloat → Int
  | .finite s m e _ => s.apply (rank m e)
  | _ => 0

lemma rank_pos (h : Canonical m e) : 0 < rank m e := by
  have hpos := h.pos
  have hlow := h.low
  rw [rank]
  omega

lemma swap_compare (a b : Int) : (compare a b).swap = compare (-a) (-b) := by
  rcases lt_trichotomy a b with h | rfl | h
  · rw [compare_lt_iff_lt.2 h, compare_gt_iff_gt.2 (Int.neg_lt_neg h)]
    rfl
  · rw [compare_eq_iff_eq.2 rfl, compare_eq_iff_eq.2 rfl]
    rfl
  · rw [compare_gt_iff_gt.2 h, compare_lt_iff_lt.2 (Int.neg_lt_neg h)]
    rfl

/-- Finite numbers compare as their places do. -/
theorem compare_place (hf : Regular f) (hg : Regular g) (hf' : f.isFinite = true)
    (hg' : g.isFinite = true) : f.compare g = some (compare (place f) (place g)) := by
  cases f with
  | notANumber | infinity => cases hf'
  | zero =>
    cases g with
    | notANumber | infinity => cases hg'
    | zero => rfl
    | finite s m e hm =>
      have := rank_pos hg.1
      cases s with
      | positive => exact congrArg some (compare_lt_iff_lt.2 this).symm
      | negative => exact congrArg some (compare_gt_iff_gt.2 (Int.neg_neg_of_pos this)).symm
  | finite s m e hm =>
    have hpos := rank_pos hf.1
    cases g with
    | notANumber | infinity => cases hg'
    | zero =>
      cases s with
      | positive => exact congrArg some (compare_gt_iff_gt.2 hpos).symm
      | negative => exact congrArg some (compare_lt_iff_lt.2 (Int.neg_neg_of_pos hpos)).symm
    | finite s' m' e' hm' =>
      have hpos' := rank_pos hg.1
      cases s with
      | positive =>
        cases s' with
        | positive => exact congrArg some (compare_rank hf.1 hg.1)
        | negative =>
          have hlt : -rank m' e' < rank m e := by omega
          exact congrArg some (compare_gt_iff_gt.2 hlt).symm
      | negative =>
        cases s' with
        | positive =>
          have hlt : -rank m e < rank m' e' := by omega
          exact congrArg some (compare_lt_iff_lt.2 hlt).symm
        | negative =>
          refine congrArg some ?_
          rw [compare_rank hf.1 hg.1]
          exact swap_compare _ _

lemma eq_of_rank (h : Canonical m e) (h' : Canonical m' e') (hrank : rank m e = rank m' e') :
    m = m' ∧ e = e' := by
  have hcompare := compare_rank h h'
  rw [compare_eq_iff_eq.2 hrank, Ordering.then_eq_eq, compare_eq_iff_eq, compare_eq_iff_eq]
    at hcompare
  exact hcompare.symm

/-- No two numbers are at the same place, except for the zeros. -/
lemma eq_of_place (hf : Regular f) (hg : Regular g) (hf' : f.isFinite = true)
    (hg' : g.isFinite = true) (h : place f = place g) (h0 : place f ≠ 0) : f = g := by
  cases f with
  | notANumber | infinity => cases hf'
  | zero => exact absurd rfl h0
  | finite s m e hm =>
    cases g with
    | notANumber | infinity => cases hg'
    | zero => exact absurd h h0
    | finite s' m' e' hm' =>
      have hpos := rank_pos hf.1
      have hpos' := rank_pos hg.1
      cases s <;> cases s' <;> simp only [place, Sign.apply] at h
      · obtain ⟨rfl, rfl⟩ := eq_of_rank hf.1 hg.1 (Int.neg_inj.1 h)
        rfl
      · omega
      · omega
      · obtain ⟨rfl, rfl⟩ := eq_of_rank hf.1 hg.1 h
        rfl

end HostedLisp.Binary64
