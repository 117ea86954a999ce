import HostedLisp.Proofs.Heap.Bisimilarity
import HostedLisp.Proofs.Library.Answers
import HostedLisp.Proofs.Library.Extremes
import HostedLisp.Proofs.Library.Sorting

/-!
# The order of numbers

Two integers are compared exactly, and any other two finite numbers by the floating point numbers
that they are nearest to. Each of the two orders is total, but they do not fit together where a
floating point number is the nearest one to two different integers: it is equal to both. A chain of
comparisons holds between all its operands unless such a number stands between them. Main
definitions: `Number.order`, `Number.Blurs`, `Machine.ComparesNumbers`. Main statement:
`Machine.compares_numbers`.
-/

namespace HostedLisp

open Binary64

namespace Number

/-! ### Definitions -/

/-- A number is not infinite, and not undefined. -/
def IsFinite : Number → Prop
  | int _ => True
  | float x => x.isFinite = true

/-- The place of a finite number in the order of all floating point numbers. -/
def place : Number → Int
  | int n => intPlace n.toInt
  | float x => Binary64.place (form x)

/-- The order of two finite numbers. -/
def order : Number → Number → Ordering
  | int a, int b => compare a.toInt b.toInt
  | a, b => compare a.place b.place

/-- A floating point number is the nearest one to two different integers. -/
def Blurs (b a c : Number) : Prop :=
  ∃ x i k, b = float x ∧ a = int i ∧ c = int k ∧ i ≠ k ∧ widen i = x ∧ widen k = x

/-! ### The order -/

variable {a b c d : Number} {x y : Float}

lemma toFloat_finite (ha : a.IsFinite) :
    (form a.toFloat).isFinite = true ∧ Binary64.place (form a.toFloat) = a.place := by
  cases a with
  | int n =>
    obtain ⟨hfinite, hplace, -⟩ := form_ofInt (natAbs_toInt_lt n)
    exact ⟨hfinite, hplace⟩
  | float x => exact ⟨ha, rfl⟩

/-- Finite numbers are in the order of their places. -/
lemma compare_floats (hx : (form x).isFinite = true) (hy : (form y).isFinite = true) :
    (if x < y then some Ordering.lt else if x == y then some .eq else if x > y then some .gt
      else none) = some (compare (Binary64.place (form x)) (Binary64.place (form y))) := by
  have hlt {x y : Float} (hx : (form x).isFinite = true) (hy : (form y).isFinite = true) :
      x < y ↔ Binary64.place (form x) < Binary64.place (form y) := by
    rw [lt_iff_compare, compare_place (regular_form x) (regular_form y) hx hy, Option.some.injEq,
      compare_lt_iff_lt]
  have heq : (x == y) = true ↔ Binary64.place (form x) = Binary64.place (form y) := by
    rw [FloatEquality.beq_iff]
    change (form x).compare (form y) = some .eq ↔ _
    rw [compare_place (regular_form x) (regular_form y) hx hy, Option.some.injEq,
      compare_eq_iff_eq]
  simp only [gt_iff_lt, hlt hx hy, hlt hy hx, heq]
  rcases lt_trichotomy (Binary64.place (form x)) (Binary64.place (form y)) with h | h | h
  · rw [if_pos h, compare_lt_iff_lt.2 h]
  · rw [if_neg h.not_lt, if_pos h, compare_eq_iff_eq.2 h]
  · rw [if_neg h.not_gt, if_neg h.ne', if_pos h, compare_gt_iff_gt.2 h]

lemma compare?_eq_order (ha : a.IsFinite) (hb : b.IsFinite) :
    Arithmetic.compare? a b = some (order a b) := by
  have hfloats := compare_floats (toFloat_finite ha).1 (toFloat_finite hb).1
  rw [(toFloat_finite ha).2, (toFloat_finite hb).2] at hfloats
  cases a with
  | int i =>
    cases b with
    | int k => rfl
    | float y => exact hfloats
  | float x => exact hfloats

lemma order_swap (a b : Number) : (order a b).swap = order b a := by
  cases a <;> cases b <;> exact Std.OrientedOrd.eq_swap.symm

lemma order_eq_gt_iff : order a b = .gt ↔ order b a = .lt := by
  rw [← order_swap a b]
  cases order a b <;> decide

lemma order_eq_eq_iff : order a b = .eq ↔ order a b ≠ .gt ∧ order b a ≠ .gt := by
  rw [← order_swap a b]
  cases order a b <;> decide

lemma order_self (a : Number) : order a a = .eq := by
  cases a <;> exact compare_eq_iff_eq.2 rfl

lemma order_eq_comm : order a b = .eq ↔ order b a = .eq := by
  rw [order_eq_eq_iff, and_comm, ← order_eq_eq_iff]

/-- Two numbers are in the order of their places, unless they are integers. -/
lemma order_cases (a b : Number) : order a b = compare a.place b.place ∨
    ∃ i k, a = int i ∧ b = int k ∧ order a b = compare i.toInt k.toInt := by
  cases a with
  | int i =>
    cases b with
    | int k => exact .inr ⟨i, k, rfl, rfl, rfl⟩
    | float y => exact .inl rfl
  | float x => exact .inl rfl

lemma place_le (h : order a b ≠ .gt) : a.place ≤ b.place := by
  obtain heq | ⟨i, k, rfl, rfl, heq⟩ := order_cases a b
  · rw [heq, ne_eq, compare_gt_iff_gt] at h
    exact not_lt.1 h
  · rw [heq, ne_eq, compare_gt_iff_gt] at h
    exact intPlace_mono (not_lt.1 h)

/-- Integers that become the same number are at its place. -/
lemma place_of_widen {n : Int64} (hn : widen n = x) : (int n).place = (float x).place := by
  rw [← hn]
  exact (toFloat_finite (a := int n) trivial).2.symm

/-- A number at the place of two different integers is the nearest one to both. -/
lemma blurs_of_place {i k : Int64} (hx : x.isFinite = true) (hne : i ≠ k)
    (hi : (int i).place = (float x).place) (hk : (int k).place = (float x).place) :
    Blurs (float x) (int i) (int k) := by
  have hwiden : widen i = widen k := widen_eq (hi.trans hk.symm)
  obtain ⟨hfinite, hplace⟩ := toFloat_finite (a := int i) trivial
  have hzero : (int i).place ≠ 0 := by
    intro h0
    have hzero {n : Int64} (hn : intPlace n.toInt = 0) : n.toInt = 0 := by
      rcases lt_trichotomy n.toInt 0 with h | h | h
      · exact absurd hn (intPlace_neg_of_neg h).ne
      · exact h
      · exact absurd hn (intPlace_pos h).ne'
    have hk0 : intPlace k.toInt = 0 := hk.trans (hi.symm.trans h0)
    exact hne (Int64.toInt_inj.1 ((hzero h0).trans (hzero hk0).symm))
  have heq : widen i = x := by
    refine eq_of_form (eq_of_place (regular_form _) (regular_form x) hfinite hx ?_ ?_)
    · exact hplace.trans hi
    · exact hplace ▸ hzero
  exact ⟨x, i, k, rfl, rfl, rfl, hne, heq, hwiden ▸ heq⟩

namespace Blurs

lemma symm (h : Blurs b a c) : Blurs b c a := by
  obtain ⟨x, i, k, hb, ha, hc, hne, hi, hk⟩ := h
  exact ⟨x, k, i, hb, hc, ha, hne.symm, hk, hi⟩

/-- It is equal to both integers, though they are different. -/
lemma order_eq (h : Blurs b a c) :
    order a b = .eq ∧ order b c = .eq ∧ order a c ≠ .eq := by
  obtain ⟨x, i, k, rfl, rfl, rfl, hne, hi, hk⟩ := h
  refine ⟨compare_eq_iff_eq.2 (place_of_widen hi), compare_eq_iff_eq.2 (place_of_widen hk).symm,
    fun heq => ?_⟩
  exact hne (Int64.toInt_inj.1 (compare_eq_iff_eq.1 heq))

/-- One of the integers has more than 53 bits. -/
lemma beyond {i k : Int64} (h : Blurs b (int i) (int k)) :
    2 ^ 53 < i.toInt.natAbs ∨ 2 ^ 53 < k.toInt.natAbs := by
  obtain ⟨x, _, _, -, hi', hk', hne, hi, hk⟩ := h
  cases hi'
  cases hk'
  by_contra hsmall
  obtain ⟨hismall, hksmall⟩ := not_or.1 hsmall
  refine hne (Int64.toInt_inj.1 (intPlace_inj ?_ (not_lt.1 hismall) (not_lt.1 hksmall)))
  exact (place_of_widen hi).trans (place_of_widen hk).symm

end Blurs

/-! ### Transitivity -/

/-- At most is transitive, unless the number in the middle is at the place of two integers. -/
lemma order_trans_or_blurs (hb : b.IsFinite) (hab : order a b ≠ .gt) (hbc : order b c ≠ .gt) :
    order a c ≠ .gt ∨ Blurs b a c := by
  refine or_iff_not_imp_left.2 fun hac => ?_
  have hgt := not_not.1 hac
  have hca : c.place ≤ a.place := by
    refine place_le fun h => ?_
    rw [order_eq_gt_iff, hgt] at h
    cases h
  have hpab := place_le hab
  have hpbc := place_le hbc
  obtain heq | ⟨i, k, rfl, rfl, heq⟩ := order_cases a c
  · rw [heq, compare_gt_iff_gt] at hgt
    omega
  · rw [heq, compare_gt_iff_gt] at hgt
    cases b with
    | int j =>
      have hij : ¬compare i.toInt j.toInt = .gt := hab
      have hjk : ¬compare j.toInt k.toInt = .gt := hbc
      rw [compare_gt_iff_gt] at hij hjk
      omega
    | float x =>
      refine blurs_of_place hb (fun h => ?_) (by omega) (by omega)
      rw [h] at hgt
      exact lt_irrefl _ hgt

/-- So is equality. -/
lemma eq_trans_or_blurs (hb : b.IsFinite) (hab : order a b = .eq) (hbc : order b c = .eq) :
    order a c = .eq ∨ Blurs b a c := by
  rw [order_eq_eq_iff] at hab hbc ⊢
  rcases order_trans_or_blurs hb hab.1 hbc.1 with hac | h
  · rcases order_trans_or_blurs hb hbc.2 hab.2 with hca | h
    · exact .inl ⟨hac, hca⟩
    · exact .inr h.symm
  · exact .inr h

/-- Less is transitive throughout. -/
lemma order_lt_trans (ha : a.IsFinite) (hab : order a b = .lt) (hbc : order b c = .lt) :
    order a c = .lt := by
  by_contra hac
  have hca : order c a ≠ .gt := fun h => hac (order_eq_gt_iff.1 h)
  have hab' : order a b ≠ .gt := fun h => by cases hab.symm.trans h
  rcases order_trans_or_blurs ha hca hab' with hcb | h
  · exact hcb (order_eq_gt_iff.2 hbc)
  · cases hab.symm.trans h.order_eq.2.1

/-! ### Chains -/

/-- What is transitive except across numbers that blur others holds between the ends of a chain,
unless a number of the chain blurs them. -/
lemma ends_of_isChain {R : Number → Number → Prop} (heq : ∀ a b, order a b = .eq → R a b)
    (htrans : ∀ a b c, b.IsFinite → R a b → R b c → R a c ∨ Blurs b a c) (between : List Number)
    (hbetween : ∀ x ∈ between, x.IsFinite) (hchain : (a :: between ++ [b]).IsChain R) :
    R a b ∨ ∃ x ∈ between, Blurs x a b := by
  induction between generalizing a with
  | nil => exact .inl (List.isChain_pair.1 hchain)
  | cons y between ih =>
    obtain ⟨hy, hbetween⟩ := List.forall_mem_cons.1 hbetween
    obtain ⟨hay, hchain⟩ := List.isChain_cons_cons.1 hchain
    rcases ih hbetween hchain with hyb | ⟨x, hx, hblurs⟩
    · exact (htrans a y b hy hay hyb).imp_right fun h => ⟨y, List.mem_cons_self, h⟩
    · obtain ⟨hyx, hxb, -⟩ := hblurs.order_eq
      -- An integer such as `y` does not blur anything.
      have hax : R a x := (htrans a y x hy hay (heq y x hyx)).resolve_right fun h => by
        obtain ⟨_, _, _, -, rfl, -⟩ := hblurs
        obtain ⟨_, _, _, hfloat, -⟩ := h
        cases hfloat
      refine (htrans a x b (hbetween x hx) hax (heq x b hxb)).imp_right fun h => ?_
      exact ⟨x, List.mem_cons_of_mem y hx, h⟩

/-! ### The order to sort by -/

/-- Two values are numbers, the first less than the second. -/
def less (v w : Value) : Bool :=
  (ofValue? v).any fun a => (ofValue? w).any fun b => order a b == .lt

lemma less_toValue (a b : Number) : less a.toValue b.toValue = (order a b == .lt) := by
  cases a <;> cases b <;> rfl

/-- Less is a strict weak order of numbers none of which blurs two others. -/
lemma strictWeakOrder_iff {xs : List Number} (hfinite : ∀ x ∈ xs, x.IsFinite) :
    StrictWeakOrder less (xs.map toValue) ↔ ∀ b ∈ xs, ∀ a ∈ xs, ∀ c ∈ xs, ¬Blurs b a c := by
  have hequivalent (a b : Number) :
      equivalent less a.toValue b.toValue = true ↔ order a b = .eq := by
    rw [equivalent, less_toValue, less_toValue, ← order_swap a b]
    cases order a b <;> decide
  constructor
  · intro h b hb a ha c hc hblurs
    obtain ⟨hab, hbc, hac⟩ := hblurs.order_eq
    refine hac ((hequivalent a c).1 ?_)
    exact h.equivalent_trans _ (List.mem_map_of_mem ha) _ (List.mem_map_of_mem hb) _
      (List.mem_map_of_mem hc) ((hequivalent a b).2 hab) ((hequivalent b c).2 hbc)
  · intro h
    refine ⟨?_, ?_, ?_⟩
    · simp only [List.forall_mem_map, less_toValue, order_self]
      exact fun _ _ => rfl
    · simp only [List.forall_mem_map, less_toValue, beq_iff_eq]
      exact fun a ha b hb c hc => order_lt_trans (hfinite a ha)
    · simp only [List.forall_mem_map, hequivalent]
      exact fun a ha b hb c hc hab hbc =>
        (eq_trans_or_blurs (hfinite b hb) hab hbc).resolve_right (h b hb a ha c hc)

end Number

namespace Arithmetic

open Number

variable {relation : Ordering → Bool}

/-- A chain of finite numbers is in order if its neighbours are. -/
lemma ordered_iff_isChain {first : Number} {rest : List Number} (hfirst : first.IsFinite)
    (hrest : ∀ x ∈ rest, x.IsFinite) : ordered relation first rest = true ↔
      (first :: rest).IsChain fun a b => relation (a.order b) = true := by
  induction rest generalizing first with
  | nil => exact iff_of_true rfl (List.isChain_singleton first)
  | cons x rest ih =>
    obtain ⟨hx, hrest⟩ := List.forall_mem_cons.1 hrest
    rw [ordered, compare?_eq_order hfirst hx, Option.any_some, Bool.and_eq_true, ih hx hrest,
      List.isChain_cons_cons]

end Arithmetic

/-! ### The primitives -/

namespace Machine

open Number Arithmetic

variable {m : Machine} {p : Primitive} {name : String} {relation : Ordering → Bool}
  {xs : List Number}

/-- A comparison of numbers answers that they are in order. -/
def Affirms (m : Machine) (p : Primitive) (xs : List Number) : Prop :=
  m.Answers p (xs.map Number.toValue) fun _ => .ok (.bool true)

/-- A comparison of numbers answers that they are not in order. -/
def Denies (m : Machine) (p : Primitive) (xs : List Number) : Prop :=
  m.Answers p (xs.map Number.toValue) fun _ => .ok (.bool false)

/-- What the primitives for equality, for less and for at most have in common with a total preorder
of all finite numbers, and where they differ from one. -/
structure ComparesNumbers (m : Machine) (eq lt le : Primitive) : Prop where
  decided : ∀ p ∈ [eq, lt, le], ∀ xs : List Number, (∀ x ∈ xs, x.IsFinite) → 2 ≤ xs.length →
    m.Affirms p xs ∨ m.Denies p xs
  total : ∀ a b : Number, a.IsFinite → b.IsFinite → m.Affirms le [a, b] ∨ m.Affirms le [b, a]
  eq_iff : ∀ a b : Number, a.IsFinite → b.IsFinite →
    (m.Affirms eq [a, b] ↔ m.Affirms le [a, b] ∧ m.Affirms le [b, a])
  lt_iff : ∀ a b : Number, a.IsFinite → b.IsFinite →
    (m.Affirms lt [a, b] ↔ ¬m.Affirms le [b, a])
  eq_trans : ∀ a b c : Number, a.IsFinite → b.IsFinite → c.IsFinite →
    m.Affirms eq [a, b] → m.Affirms eq [b, c] → (m.Affirms eq [a, c] ↔ ¬Blurs b a c)
  le_trans : ∀ a b c : Number, a.IsFinite → b.IsFinite → c.IsFinite →
    m.Affirms le [a, b] → m.Affirms le [b, c] → m.Affirms le [a, c] ∨ Blurs b a c
  lt_irrefl : ∀ a : Number, a.IsFinite → m.Denies lt [a, a]
  lt_trans : ∀ a b c : Number, a.IsFinite → b.IsFinite → c.IsFinite →
    m.Affirms lt [a, b] → m.Affirms lt [b, c] → m.Affirms lt [a, c]
  /-- The operands of a chain are in order, and not neighbours only. -/
  ends : ∀ p ∈ [eq, le], ∀ (before between after : List Number) (a b : Number),
    (∀ x ∈ before ++ a :: between ++ b :: after, x.IsFinite) →
    m.Affirms p (before ++ a :: between ++ b :: after) →
    m.Affirms p [a, b] ∨ ∃ x ∈ between, Blurs x a b
  /-- Less is an order to sort by. -/
  sorts : ∀ xs : List Number, (∀ x ∈ xs, x.IsFinite) → ∃ less : Value → Value → Bool,
    (∀ x ∈ xs, ∀ y ∈ xs, m.Answers lt [x.toValue, y.toValue] fun _ =>
      .ok (.bool (less x.toValue y.toValue))) ∧
    (StrictWeakOrder less (xs.map Number.toValue) ↔ ∀ b ∈ xs, ∀ a ∈ xs, ∀ c ∈ xs, ¬Blurs b a c)

/-- A primitive answers in one way only. -/
lemma Answers.unique {args : List Value} {a b : Except Error Value}
    (ha : m.Answers p args fun _ => a) (hb : m.Answers p args fun _ => b) : a = b := by
  have hcall : Request.IsCall p .global (.apply (.primitive p) args .global) := .apply args
  have ha := ha _ _ 0 default default hcall ⟨rfl, rfl⟩
  have hb := hb _ _ 0 default default hcall ⟨rfl, rfl⟩
  have heq : a.mapError Halt.error = b.mapError Halt.error := congrArg Prod.fst (ha.symm.trans hb)
  cases a <;> cases b <;> cases heq <;> rfl

/-- A comparison of at least two finite numbers answers whether all neighbours are in order. -/
lemma answers_comparison (hp : m.Carries p (comparison name relation))
    (hfinite : ∀ x ∈ xs, x.IsFinite) (hlength : 2 ≤ xs.length) {b : Bool}
    (hb : b = true ↔ xs.IsChain fun a b => relation (a.order b) = true) :
    m.Answers p (xs.map Number.toValue) fun _ => .ok (.bool b) := by
  cases xs with
  | nil => cases hlength
  | cons first rest =>
    obtain ⟨hfirst, hrest⟩ := List.forall_mem_cons.1 hfinite
    have heq : b = ordered relation first rest := by
      rw [Bool.eq_iff_iff, hb, ordered_iff_isChain hfirst hrest]
    have haccepts : (comparison name relation).arity.accepts
        ((first :: rest).map Number.toValue).length = true := by
      rw [List.length_map]
      exact decide_eq_true hlength
    refine answers_of_run hp rfl haccepts fun frame s => ?_
    have hbody := Native.variadicBody_first
      (fun first rest => giveBool (ordered relation first rest)) first rest frame
    change (Native.variadicBody [.number] .number _ ((first :: rest).map toValue) frame).run s = _
    rw [hbody, heq]
    rfl

lemma affirms_or_denies (hp : m.Carries p (comparison name relation))
    (hfinite : ∀ x ∈ xs, x.IsFinite) (hlength : 2 ≤ xs.length) :
    m.Affirms p xs ∨ m.Denies p xs := by
  by_cases h : xs.IsChain fun a b => relation (a.order b) = true
  · exact .inl (answers_comparison hp hfinite hlength (iff_of_true rfl h))
  · exact .inr (answers_comparison hp hfinite hlength (iff_of_false Bool.false_ne_true h))

lemma affirms_iff (hp : m.Carries p (comparison name relation)) (hfinite : ∀ x ∈ xs, x.IsFinite)
    (hlength : 2 ≤ xs.length) :
    m.Affirms p xs ↔ xs.IsChain fun a b => relation (a.order b) = true := by
  refine ⟨fun haffirms => ?_, fun h => answers_comparison hp hfinite hlength (iff_of_true rfl h)⟩
  by_contra h
  have hdenies := answers_comparison hp hfinite hlength (iff_of_false Bool.false_ne_true h)
  cases haffirms.unique hdenies

variable {eq lt le : Primitive} {a b c : Number}

lemma forall_mem_pair_finite (ha : a.IsFinite) (hb : b.IsFinite) : ∀ x ∈ [a, b], x.IsFinite :=
  List.forall_mem_cons.2 ⟨ha, List.forall_mem_singleton.2 hb⟩

lemma affirms_pair_iff (hp : m.Carries p (comparison name relation)) (ha : a.IsFinite)
    (hb : b.IsFinite) : m.Affirms p [a, b] ↔ relation (a.order b) = true := by
  rw [affirms_iff hp (forall_mem_pair_finite ha hb) le_rfl, List.isChain_pair]

lemma affirms_eq_iff (heq : m.IsStandard eq "=") (ha : a.IsFinite) (hb : b.IsFinite) :
    m.Affirms eq [a, b] ↔ a.order b = .eq := by
  rw [affirms_pair_iff (heq.carries rfl) ha hb, beq_iff_eq]

lemma affirms_lt_iff (hlt : m.IsStandard lt "<") (ha : a.IsFinite) (hb : b.IsFinite) :
    m.Affirms lt [a, b] ↔ a.order b = .lt := by
  rw [affirms_pair_iff (hlt.carries rfl) ha hb, beq_iff_eq]

lemma affirms_le_iff (hle : m.IsStandard le "<=") (ha : a.IsFinite) (hb : b.IsFinite) :
    m.Affirms le [a, b] ↔ a.order b ≠ .gt := by
  rw [affirms_pair_iff (hle.carries rfl) ha hb, bne_iff_ne]

/-- Of a chain that a transitive comparison affirms, it affirms any two operands, unless a number
between them blurs them. -/
lemma affirms_ends (hp : m.Carries p (comparison name relation)) (heq : relation .eq = true)
    (htrans : ∀ a b c : Number, b.IsFinite → relation (a.order b) = true →
      relation (b.order c) = true → relation (a.order c) = true ∨ Blurs b a c)
    (before between after : List Number)
    (hfinite : ∀ x ∈ before ++ a :: between ++ b :: after, x.IsFinite)
    (haffirms : m.Affirms p (before ++ a :: between ++ b :: after)) :
    m.Affirms p [a, b] ∨ ∃ x ∈ between, Blurs x a b := by
  have ha : a.IsFinite := hfinite a (by simp)
  have hb : b.IsFinite := hfinite b (by simp)
  have hlength : 2 ≤ (before ++ a :: between ++ b :: after).length := by
    simp only [List.length_append, List.length_cons]
    omega
  have hchain := (affirms_iff hp hfinite hlength).1 haffirms
  have hinfix : a :: between ++ [b] <:+: before ++ a :: between ++ b :: after :=
    ⟨before, after, by simp⟩
  have hbetween := hchain.infix hinfix
  rw [affirms_pair_iff hp ha hb]
  refine ends_of_isChain (fun a b h => ?_) htrans between (fun x hx => ?_) hbetween
  · rwa [h]
  · exact hfinite x (by simp [hx])

/-- Equality, less and at most of finite numbers come from a total preorder, except that a floating
point number which is the nearest one to two different integers is equal to both. -/
theorem compares_numbers (heq : m.IsStandard eq "=") (hlt : m.IsStandard lt "<")
    (hle : m.IsStandard le "<=") : m.ComparesNumbers eq lt le where
  decided p hp xs hfinite hlength := by
    simp only [List.mem_cons, List.not_mem_nil, or_false] at hp
    obtain rfl | rfl | rfl := hp
    · exact affirms_or_denies (heq.carries rfl) hfinite hlength
    · exact affirms_or_denies (hlt.carries rfl) hfinite hlength
    · exact affirms_or_denies (hle.carries rfl) hfinite hlength
  total a b ha hb := by
    rw [affirms_le_iff hle ha hb, affirms_le_iff hle hb ha, ← order_swap a b]
    cases a.order b <;> decide
  eq_iff a b ha hb := by
    rw [affirms_eq_iff heq ha hb, affirms_le_iff hle ha hb, affirms_le_iff hle hb ha,
      order_eq_eq_iff]
  lt_iff a b ha hb := by
    rw [affirms_lt_iff hlt ha hb, affirms_le_iff hle hb ha, not_not, order_eq_gt_iff]
  eq_trans a b c ha hb hc := by
    rw [affirms_eq_iff heq ha hb, affirms_eq_iff heq hb hc, affirms_eq_iff heq ha hc]
    exact fun hab hbc => ⟨fun hac h => h.order_eq.2.2 hac,
      (eq_trans_or_blurs hb hab hbc).resolve_right⟩
  le_trans a b c ha hb hc := by
    rw [affirms_le_iff hle ha hb, affirms_le_iff hle hb hc, affirms_le_iff hle ha hc]
    exact order_trans_or_blurs hb
  lt_irrefl a ha := by
    refine (affirms_or_denies (hlt.carries rfl) (forall_mem_pair_finite ha ha) le_rfl).resolve_left
      fun h => ?_
    rw [affirms_lt_iff hlt ha ha, order_self] at h
    cases h
  lt_trans a b c ha hb hc := by
    rw [affirms_lt_iff hlt ha hb, affirms_lt_iff hlt hb hc, affirms_lt_iff hlt ha hc]
    exact order_lt_trans ha
  ends p hp before between after a b hfinite haffirms := by
    simp only [List.mem_cons, List.not_mem_nil, or_false] at hp
    obtain rfl | rfl := hp
    · refine affirms_ends (heq.carries rfl) rfl (fun a b c hb hab hbc => ?_) before between after
        hfinite haffirms
      rw [beq_iff_eq] at hab hbc ⊢
      exact eq_trans_or_blurs hb hab hbc
    · refine affirms_ends (hle.carries rfl) rfl (fun a b c hb hab hbc => ?_) before between after
        hfinite haffirms
      rw [bne_iff_ne] at hab hbc ⊢
      exact order_trans_or_blurs hb hab hbc
  sorts xs hfinite := by
    refine ⟨less, fun x hx y hy => ?_, strictWeakOrder_iff hfinite⟩
    refine answers_comparison (hlt.carries rfl)
      (forall_mem_pair_finite (hfinite x hx) (hfinite y hy)) le_rfl ?_
    rw [less_toValue, List.isChain_pair]

end Machine

namespace Interpreter

open Number Machine

/-- The primitive that looks for equal numbers. -/
def equalPrimitive : Primitive := ⟨24, "=", .atLeast 2, .function⟩

/-- The primitive that looks for numbers that do not fall. -/
def atMostPrimitive : Primitive := ⟨27, "<=", .atLeast 2, .function⟩

lemma isStandard_equal : (full .standard).machine.IsStandard equalPrimitive "=" :=
  ⟨_, List.mem_of_getElem? (i := 24) rfl, rfl, rfl, rfl⟩

lemma isStandard_less : (full .standard).machine.IsStandard lessPrimitive "<" :=
  ⟨_, List.mem_of_getElem? (i := 25) rfl, rfl, rfl, rfl⟩

lemma isStandard_atMost : (full .standard).machine.IsStandard atMostPrimitive "<=" :=
  ⟨_, List.mem_of_getElem? (i := 27) rfl, rfl, rfl, rfl⟩

/-- Less is an order to sort `3`, `2.5` and `1` by. -/
theorem compares_numbers_small : ∃ less : Value → Value → Bool,
    (∀ x ∈ [int 3, float 2.5, int 1], ∀ y ∈ [int 3, float 2.5, int 1],
      (full .standard).machine.Answers lessPrimitive [x.toValue, y.toValue] fun _ =>
        .ok (.bool (less x.toValue y.toValue))) ∧
    StrictWeakOrder less [.int 3, .float 2.5, .int 1] := by
  have hfinite : ∀ x ∈ [int 3, float 2.5, int 1], x.IsFinite := by
    have hfloat : (2.5 : Float).isFinite = true := by decide +kernel
    simp [IsFinite, hfloat]
  obtain ⟨less, hanswers, hsorts⟩ :=
    (Machine.compares_numbers isStandard_equal isStandard_less isStandard_atMost).sorts _ hfinite
  have hsmall (i : Int64) (hi : int i ∈ [int 3, float 2.5, int 1]) : i.toInt.natAbs ≤ 2 ^ 53 := by
    simp only [List.mem_cons, int.injEq, reduceCtorEq, List.not_mem_nil, or_false, false_or] at hi
    obtain rfl | rfl := hi <;> decide
  refine ⟨less, hanswers, hsorts.2 fun b _ a ha c hc hblurs => ?_⟩
  obtain ⟨_, i, k, -, rfl, rfl, -⟩ := id hblurs
  exact hblurs.beyond.elim (hsmall i ha).not_gt (hsmall k hc).not_gt

lemma blurs_two_pow :
    Blurs (float 9007199254740992) (int 9007199254740992) (int 9007199254740993) :=
  ⟨_, _, _, rfl, rfl, rfl, by decide, by decide +kernel, by decide +kernel⟩

/-- `2 ^ 53` and its successor are both equal to the floating point number `2 ^ 53`, and stand
around it in an affirmed chain, but are not equal. The successor is at most that number, which is at
most `2 ^ 53`, but is not at most `2 ^ 53` itself. -/
theorem equality_not_transitive :
    (full .standard).machine.Affirms equalPrimitive
      [int 9007199254740992, float 9007199254740992] ∧
    (full .standard).machine.Affirms equalPrimitive
      [float 9007199254740992, int 9007199254740993] ∧
    (full .standard).machine.Affirms equalPrimitive
      [int 9007199254740992, float 9007199254740992, int 9007199254740993] ∧
    (full .standard).machine.Denies equalPrimitive
      [int 9007199254740992, int 9007199254740993] ∧
    (full .standard).machine.Affirms atMostPrimitive
      [int 9007199254740993, float 9007199254740992] ∧
    (full .standard).machine.Affirms atMostPrimitive
      [float 9007199254740992, int 9007199254740992] ∧
    (full .standard).machine.Denies atMostPrimitive
      [int 9007199254740993, int 9007199254740992] := by
  obtain ⟨hab, hbc, hac⟩ := blurs_two_pow.order_eq
  have hfloat : IsFinite (float 9007199254740992) := by
    change (9007199254740992 : Float).isFinite = true
    decide +kernel
  have hint (n : Int64) : IsFinite (int n) := trivial
  refine ⟨(affirms_eq_iff isStandard_equal (hint _) hfloat).2 hab,
    (affirms_eq_iff isStandard_equal hfloat (hint _)).2 hbc, ?_, ?_,
    (affirms_le_iff isStandard_atMost (hint _) hfloat).2 fun h => ?_,
    (affirms_le_iff isStandard_atMost hfloat (hint _)).2 fun h => ?_, ?_⟩
  · refine (affirms_iff (isStandard_equal.carries rfl) ?_ (by decide)).2 ?_
    · exact List.forall_mem_cons.2 ⟨hint _, forall_mem_pair_finite hfloat (hint _)⟩
    · exact List.isChain_cons_cons.2 ⟨beq_iff_eq.2 hab, List.isChain_pair.2 (beq_iff_eq.2 hbc)⟩
  · refine (affirms_or_denies (isStandard_equal.carries rfl)
      (forall_mem_pair_finite (hint _) (hint _)) le_rfl).resolve_left fun h => hac ?_
    exact (affirms_eq_iff isStandard_equal (hint _) (hint _)).1 h
  · cases (order_eq_comm.1 hbc).symm.trans h
  · cases (order_eq_comm.1 hab).symm.trans h
  · refine (affirms_or_denies (isStandard_atMost.carries rfl)
      (forall_mem_pair_finite (hint _) (hint _)) le_rfl).resolve_left fun h => ?_
    exact (affirms_le_iff isStandard_atMost (hint _) (hint _)).1 h rfl

end Interpreter

end HostedLisp
