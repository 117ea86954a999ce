import HostedLisp.Proofs.Library.Integers
import Mathlib

/-!
# Division of integers

Three primitives divide one integer by another, and none answers if the divisor is zero. The two
remainders always exist then and lie between zero and the divisor, the one on the side of the
dividend and the other on that of the divisor. Only one quotient does not. Main definition:
`Remainders`. Main statement: `Machine.division_laws`.
-/

namespace HostedLisp

namespace Arithmetic

/-- The laws of the remainder that has the sign of the dividend, and of the one that has the sign of
the divisor. The second is the first, or its sum with the divisor, which fits. -/
structure Remainders (a b rem mod : Int) : Prop where
  abs_rem_lt : |rem| < |b|
  abs_mod_lt : |mod| < |b|
  sign_rem : rem = 0 ∨ rem.sign = a.sign
  sign_mod : mod = 0 ∨ mod.sign = b.sign
  rem_modEq : rem ≡ a [ZMOD b]
  mod_modEq : mod ≡ a [ZMOD b]
  corrected : rem ≠ 0 → rem.sign ≠ b.sign → mod = rem + b ∧ Fits (rem + b)

/-! ### Remainders in unbounded integers -/

lemma abs_tmod_lt (a : Int) {b : Int} (hb : b ≠ 0) : |a.tmod b| < |b| := by
  rw [Int.abs_eq_natAbs, Int.abs_eq_natAbs, Int.natAbs_tmod]
  exact_mod_cast Nat.mod_lt _ (Int.natAbs_pos.2 hb)

lemma tmod_modEq (a b : Int) : a.tmod b ≡ a [ZMOD b] :=
  Int.modEq_iff_dvd.2 ⟨a.tdiv b, by linarith [Int.mul_tdiv_add_tmod a b]⟩

lemma sign_tmod (a b : Int) : a.tmod b = 0 ∨ (a.tmod b).sign = a.sign := by
  by_cases h : b ∣ a
  · exact .inl (Int.tmod_eq_zero_of_dvd h)
  · exact .inr (by rw [Int.sign_tmod, if_neg h])

/-- Integers other than zero have one sign if both or neither are negative. -/
lemma sign_eq_sign_iff {x y : Int} (hx : x ≠ 0) (hy : y ≠ 0) :
    x.sign = y.sign ↔ (x < 0 ↔ y < 0) := by
  rcases hx.lt_or_gt with hx | hx <;> rcases hy.lt_or_gt with hy | hy
  · rw [Int.sign_eq_neg_one_of_neg hx, Int.sign_eq_neg_one_of_neg hy]
    exact iff_of_true rfl (iff_of_true hx hy)
  · rw [Int.sign_eq_neg_one_of_neg hx, Int.sign_eq_one_of_pos hy]
    exact iff_of_false (by decide) fun h => hy.not_gt (h.1 hx)
  · rw [Int.sign_eq_one_of_pos hx, Int.sign_eq_neg_one_of_neg hy]
    exact iff_of_false (by decide) fun h => hx.not_gt (h.2 hy)
  · rw [Int.sign_eq_one_of_pos hx, Int.sign_eq_one_of_pos hy]
    exact iff_of_true rfl (iff_of_false hx.not_gt hy.not_gt)

/-- A remainder with the sign of the divisor is left as it is. -/
lemma remainders_of_same {a b : Int} (hb : b ≠ 0)
    (hsign : a.tmod b ≠ 0 → (a.tmod b).sign = b.sign) :
    Remainders a b (a.tmod b) (a.tmod b) where
  abs_rem_lt := abs_tmod_lt a hb
  abs_mod_lt := abs_tmod_lt a hb
  sign_rem := sign_tmod a b
  sign_mod := or_iff_not_imp_left.2 hsign
  rem_modEq := tmod_modEq a b
  mod_modEq := tmod_modEq a b
  corrected hrem hne := absurd (hsign hrem) hne

/-- What is nearer to zero than an integer that fits does fit. -/
lemma fits_of_abs_lt {x b : Int} (hb : Fits b) (h : |x| < |b|) : Fits x := by
  have hbound : |b| ≤ 2 ^ 63 := abs_le.2 ⟨hb.1, hb.2.le⟩
  obtain ⟨hlow, hhigh⟩ := abs_lt.1 h
  exact ⟨by linarith, by linarith⟩

/-- The divisor takes a remainder on the other side of zero to its own side. -/
lemma add_of_opposite {r b : Int} (hr : r ≠ 0) (hb : b ≠ 0) (hlt : |r| < |b|)
    (hsign : r.sign ≠ b.sign) : (r + b).sign = b.sign ∧ |r + b| < |b| := by
  rw [ne_eq, sign_eq_sign_iff hr hb] at hsign
  obtain ⟨hlow, hhigh⟩ := abs_lt.1 hlt
  rcases hb.lt_or_gt with hneg | hpos
  · rw [abs_of_neg hneg] at hlow hhigh ⊢
    refine ⟨(sign_eq_sign_iff (by omega) hb).2 ?_, abs_lt.2 ⟨by omega, by omega⟩⟩
    omega
  · rw [abs_of_pos hpos] at hlow hhigh ⊢
    refine ⟨(sign_eq_sign_iff (by omega) hb).2 ?_, abs_lt.2 ⟨by omega, by omega⟩⟩
    omega

/-- Any other remainder is corrected by the divisor. -/
lemma remainders_of_opposite {a b : Int} (hfits : Fits b) (hb : b ≠ 0) (hrem : a.tmod b ≠ 0)
    (hsign : (a.tmod b).sign ≠ b.sign) : Remainders a b (a.tmod b) (a.tmod b + b) := by
  obtain ⟨hmod, hlt⟩ := add_of_opposite hrem hb (abs_tmod_lt a hb) hsign
  exact {
    abs_rem_lt := abs_tmod_lt a hb
    abs_mod_lt := hlt
    sign_rem := sign_tmod a b
    sign_mod := .inr hmod
    rem_modEq := tmod_modEq a b
    mod_modEq := Int.add_modEq_right.trans (tmod_modEq a b)
    corrected := fun _ _ => ⟨rfl, fits_of_abs_lt hfits hlt⟩ }

/-! ### Division of words -/

lemma toInt_ne_zero {n : Int64} (hn : n ≠ 0) : n.toInt ≠ 0 :=
  fun h => hn (Int64.toInt_inj.1 h)

/-- Both remainders exist unless the divisor is zero. -/
lemma exists_remainders (a : Int64) {b : Int64} (hb : b ≠ 0) :
    ∃ rem mod, remainder a b = .ok rem ∧ modulo a b = .done (.int mod) ∧
      rem.toInt = a.toInt.tmod b.toInt ∧ Remainders a.toInt b.toInt rem.toInt mod.toInt := by
  have hb' := toInt_ne_zero hb
  have hrem := toInt_ofInt (fits_of_abs_lt (fits_toInt b) (abs_tmod_lt a.toInt hb'))
  generalize hr : Int64.ofInt (a.toInt.tmod b.toInt) = r at hrem
  have hremainder : remainder a b = .ok r := by rw [remainder, if_neg hb, hr]
  have hcondition : (r ≠ 0 ∧ decide (r < 0) ≠ decide (b < 0)) ↔
      a.toInt.tmod b.toInt ≠ 0 ∧ (a.toInt.tmod b.toInt).sign ≠ b.toInt.sign := by
    rw [← hrem]
    have hne : r ≠ 0 ↔ r.toInt ≠ 0 := ⟨toInt_ne_zero, fun h heq => h (congrArg Int64.toInt heq)⟩
    rw [hne]
    refine and_congr_right fun h => ?_
    rw [ne_eq, ne_eq, decide_eq_decide, sign_eq_sign_iff h hb', Int64.lt_iff_toInt_lt,
      Int64.lt_iff_toInt_lt]
    rfl
  rw [modulo, hremainder]
  by_cases h : r ≠ 0 ∧ decide (r < 0) ≠ decide (b < 0)
  · have hlaws := remainders_of_opposite (fits_toInt b) hb' (hcondition.1 h).1 (hcondition.1 h).2
    have hfits := (hlaws.corrected (hcondition.1 h).1 (hcondition.1 h).2).2
    refine ⟨r, Int64.ofInt (r.toInt + b.toInt), rfl, ?_, hrem, ?_⟩
    · dsimp only
      rw [if_pos h, hrem, Numeral.word?, if_pos (inWord_iff_fits.2 hfits)]
    · rwa [hrem, toInt_ofInt hfits]
  · refine ⟨r, r, rfl, if_neg h, hrem, ?_⟩
    rw [hrem]
    exact remainders_of_same hb' fun hne => not_not.1 fun hsign => h (hcondition.2 ⟨hne, hsign⟩)

/-- A quotient has 64 bits unless it is that of the least integer by `-1`. -/
lemma fits_tdiv_iff {a b : Int64} (hb : b ≠ 0) :
    Fits (a.toInt.tdiv b.toInt) ↔ ¬(a = Int64.minValue ∧ b = -1) := by
  constructor
  · rintro hfits ⟨rfl, rfl⟩
    exact absurd hfits.2 (by decide)
  · intro hne
    have hb' := Int.natAbs_pos.2 (toInt_ne_zero hb)
    have ha := fits_toInt a
    have hmul : (a.toInt.tdiv b.toInt).natAbs * b.toInt.natAbs ≤ a.toInt.natAbs := by
      rw [Int.natAbs_tdiv]
      exact Nat.div_mul_le_self _ _
    by_contra hfits
    have hlarge : 2 ^ 63 ≤ (a.toInt.tdiv b.toInt).natAbs := by
      rw [Fits] at hfits
      omega
    have hone : b.toInt.natAbs = 1 := by
      have hle := (Nat.mul_le_mul_right b.toInt.natAbs hlarge).trans hmul
      rw [Fits] at ha
      omega
    rcases Int.natAbs_eq_iff.1 hone with hone | hone
    · rw [hone, Nat.cast_one, Int.tdiv_one] at hfits
      exact hfits ha
    · rw [hone, Nat.cast_one, Int.tdiv_neg, Int.tdiv_one] at hfits
      refine hne ⟨Int64.toInt_inj.1 ?_, Int64.toInt_inj.1 hone⟩
      rw [Fits] at ha hfits
      rw [Int64.toInt_minValue]
      omega

lemma quotient_eq_error {a b : Int64} (h : a = Int64.minValue ∧ b = -1) :
    quotient a b = .error (.eval "Integer overflow in quotient") := by
  obtain ⟨rfl, rfl⟩ := h
  rfl

lemma exists_quotient {a b : Int64} (hb : b ≠ 0) (h : ¬(a = Int64.minValue ∧ b = -1)) :
    ∃ quot, quotient a b = .ok quot ∧
      a.toInt = b.toInt * quot.toInt + a.toInt.tmod b.toInt := by
  have hfits := (fits_tdiv_iff hb).2 h
  refine ⟨_, (if_neg hb).trans (exactly_of_fits "quotient" hfits), ?_⟩
  rw [toInt_ofInt hfits, Int.mul_tdiv_add_tmod]

end Arithmetic

namespace Machine

open Arithmetic

variable {m : Machine} {p : Primitive} {n : Native} {name : String} {a b : Int64}

/-- A primitive that divides one integer by another answers with what its function comes to. -/
lemma answers_division {f : Int64 → Int64 → Program Value} {result : Except Error Int64}
    (hp : m.IsStandard p name)
    (hname : standardNatives.filter (fun d => d.name = name) = [.fixed name [.int, .int] f])
    (hf : f a b = giveInt result) :
    m.Answers p [.int a, .int b] fun _ => result.map .int := by
  refine answers_of_run (hp.carries hname) rfl rfl fun frame s => ?_
  change (f a b).run s = _
  rw [hf, giveInt_run]

lemma modulo_zero (a : Int64) : modulo a 0 = giveInt (.error .divideByZero) := rfl

/-- None of the three primitives divides by zero. Otherwise both remainders exist and satisfy their
laws, and only the quotient of the least integer by `-1` does not. -/
theorem division_laws {q r d : Primitive} (hq : m.IsStandard q "quotient")
    (hr : m.IsStandard r "remainder") (hd : m.IsStandard d "modulo") (a b : Int64) :
    (b = 0 → ∀ p ∈ [q, r, d], m.Answers p [.int a, .int b] fun _ => .error .divideByZero) ∧
    (b ≠ 0 → ∃ rem mod : Int64,
      m.Answers r [.int a, .int b] (fun _ => .ok (.int rem)) ∧
      m.Answers d [.int a, .int b] (fun _ => .ok (.int mod)) ∧
      Remainders a.toInt b.toInt rem.toInt mod.toInt ∧
      (a = Int64.minValue ∧ b = -1 → m.Answers q [.int a, .int b] fun _ =>
        .error (.eval "Integer overflow in quotient")) ∧
      (¬(a = Int64.minValue ∧ b = -1) → ∃ quot : Int64,
        m.Answers q [.int a, .int b] (fun _ => .ok (.int quot)) ∧
        a.toInt = b.toInt * quot.toInt + rem.toInt)) := by
  have hquotient := answers_division hq (a := a) (b := b) rfl rfl
  have hremainder := answers_division hr (a := a) (b := b) rfl rfl
  constructor
  · rintro rfl
    rw [List.forall_mem_cons, List.forall_mem_cons, List.forall_mem_singleton]
    exact ⟨hquotient, hremainder, answers_division hd rfl (modulo_zero a)⟩
  · intro hb
    obtain ⟨rem, mod, hrem, hmod, htmod, hlaws⟩ := exists_remainders a hb
    rw [hrem] at hremainder
    have hmodulo : modulo a b = giveInt (.ok mod) := hmod
    refine ⟨rem, mod, hremainder, answers_division hd rfl hmodulo, hlaws, fun h => ?_, fun h => ?_⟩
    · rwa [quotient_eq_error h] at hquotient
    · obtain ⟨quot, hquot, heq⟩ := exists_quotient hb h
      rw [hquot] at hquotient
      exact ⟨quot, hquotient, by rwa [htmod]⟩

end Machine

namespace Interpreter

open Arithmetic

/-- The primitive that divides toward zero. -/
def quotientPrimitive : Primitive := ⟨18, "quotient", .exactly 2, .function⟩

/-- The primitive for the remainder with the sign of the dividend. -/
def remainderPrimitive : Primitive := ⟨19, "remainder", .exactly 2, .function⟩

/-- The primitive for the remainder with the sign of the divisor. -/
def moduloPrimitive : Primitive := ⟨20, "modulo", .exactly 2, .function⟩

lemma isStandard_quotient : (full .standard).machine.IsStandard quotientPrimitive "quotient" :=
  ⟨_, List.mem_of_getElem? (i := 18) rfl, rfl, rfl, rfl⟩

lemma isStandard_remainder : (full .standard).machine.IsStandard remainderPrimitive "remainder" :=
  ⟨_, List.mem_of_getElem? (i := 19) rfl, rfl, rfl, rfl⟩

lemma isStandard_modulo : (full .standard).machine.IsStandard moduloPrimitive "modulo" :=
  ⟨_, List.mem_of_getElem? (i := 20) rfl, rfl, rfl, rfl⟩

/-- The least integer has no quotient by `-1`, but a remainder. Its remainder by `3`, which has the
other sign, is corrected. -/
theorem division_laws_least :
    (full .standard).machine.Answers quotientPrimitive [.int Int64.minValue, .int (-1)]
      (fun _ => .error (.eval "Integer overflow in quotient")) ∧
    (full .standard).machine.Answers remainderPrimitive [.int Int64.minValue, .int (-1)]
      (fun _ => .ok (.int 0)) ∧
    ∃ rem mod : Int64, (full .standard).machine.Answers moduloPrimitive
      [.int Int64.minValue, .int 3] (fun _ => .ok (.int mod)) ∧
      Remainders Int64.minValue.toInt 3 rem.toInt mod.toInt := by
  have hlaws (b : Int64) := Machine.division_laws isStandard_quotient isStandard_remainder
    isStandard_modulo Int64.minValue b
  obtain ⟨rem, mod, hrem, -, hlaw, hquotient, -⟩ := (hlaws (-1)).2 (by decide)
  obtain ⟨rem', mod', -, hmod', hlaw', -⟩ := (hlaws 3).2 (by decide)
  have hzero : rem = 0 := by
    refine Int64.toInt_inj.1 (Int.abs_lt_one_iff.1 ?_)
    exact hlaw.abs_rem_lt
  rw [hzero] at hrem
  exact ⟨hquotient ⟨rfl, rfl⟩, hrem, rem', mod', hmod', hlaw'⟩

end Interpreter

end HostedLisp
