import HostedLisp.Proofs.Decimal.Scientific
import HostedLisp.Proofs.Library.Answers

/-!
# The greatest and the least of integers

The comparisons put two integers in their exact order, while `max` and `min` take them for floating
point numbers first. That keeps the order but can make different integers equal, so an operand can
lie beyond the extreme that is found if both become the same number; up to `2 ^ 53` none does.
-/

namespace HostedLisp

open Binary64 Float.Model Float.Model.UnpackedFloat

/-! ### Integers as floating point numbers -/

namespace Number

/-- The place of an integer in the order of all floating point numbers. -/
def intPlace (n : Int) : Int := n.sign * wholeRank n.natAbs

lemma wholeRank_pos {n : Nat} (hn : 0 < n) : 0 < wholeRank n := by
  have := two_pow_le_significand hn
  rw [wholeRank]
  omega

lemma form_ofNat {n : Nat} (hn : 0 < n) (hlt : n < 2 ^ 64) : ∃ m e, ∃ h : Canonical m e,
    form (Float.ofNat n) = .finite .positive m e h.pos ∧ rank m e = wholeRank n ∧ e ≤ 971 := by
  obtain ⟨m, e, h, hnearest, hrank, -, hhigh⟩ := nearest_eq hn
  have hlog := (Nat.log2_lt hn.ne').2 hlt
  have hreg : Regular (.finite .positive m e h.pos) := ⟨h, by omega⟩
  refine ⟨m, e, h, ?_, hrank, hreg.2⟩
  change form (Float.ofScientific n false 0) = _
  rw [ofScientific_whole hn (Nat.zero_le _), pow_zero, mul_one, hnearest]
  exact form_pack hreg

/-- An integer becomes a finite number at its place, and zero becomes the positive zero. -/
lemma form_ofInt {n : Int} (hn : n.natAbs < 2 ^ 64) : (form (Float.ofInt n)).isFinite = true ∧
    place (form (Float.ofInt n)) = intPlace n ∧
    (n = 0 → form (Float.ofInt n) = .zero .positive) := by
  cases n with
  | ofNat k =>
    obtain rfl | hk := Nat.eq_zero_or_pos k
    · have hzero : form (Float.ofInt (.ofNat 0)) = .zero .positive := form_ofScientific_zero 0
      rw [hzero]
      exact ⟨rfl, rfl, fun _ => rfl⟩
    · obtain ⟨m, e, h, hform, hrank, -⟩ := form_ofNat hk hn
      change (form (Float.ofNat k)).isFinite = true ∧ place (form (Float.ofNat k)) = _ ∧ _
      rw [hform]
      refine ⟨rfl, ?_, fun h => absurd (Int.ofNat.inj h) hk.ne'⟩
      have hsign : (Int.ofNat k).sign = 1 := Int.sign_eq_one_of_pos (Int.natCast_pos.2 hk)
      rw [intPlace, hsign, one_mul]
      exact hrank
  | negSucc k =>
    obtain ⟨m, e, h, hform, hrank, -⟩ := form_ofNat k.succ_pos hn
    change (form (-Float.ofNat k.succ)).isFinite = true ∧ place (form (-Float.ofNat k.succ)) = _ ∧ _
    rw [form_neg, hform]
    refine ⟨rfl, ?_, nofun⟩
    change -rank m e = -1 * wholeRank k.succ
    rw [hrank, Int.neg_one_mul]

lemma natAbs_toInt_lt (n : Int64) : n.toInt.natAbs < 2 ^ 64 := by
  have hlow := n.le_toInt
  have hhigh := n.toInt_lt
  omega

lemma widen_lt_iff (a b : Int64) : widen a < widen b ↔ intPlace a.toInt < intPlace b.toInt := by
  obtain ⟨ha, hplace, -⟩ := form_ofInt (natAbs_toInt_lt a)
  obtain ⟨hb, hplace', -⟩ := form_ofInt (natAbs_toInt_lt b)
  rw [lt_iff_compare, widen, widen, compare_place (regular_form _) (regular_form _) ha hb, hplace,
    hplace', Option.some.injEq, compare_lt_iff_lt]

lemma intPlace_neg (n : Int) : intPlace (-n) = -intPlace n := by
  rw [intPlace, intPlace, Int.sign_neg, Int.natAbs_neg, Int.neg_mul]

lemma intPlace_of_pos {n : Int} (hn : 0 < n) : intPlace n = wholeRank n.natAbs := by
  rw [intPlace, Int.sign_eq_one_of_pos hn, one_mul]

lemma intPlace_pos {n : Int} (hn : 0 < n) : 0 < intPlace n := by
  rw [intPlace_of_pos hn]
  exact wholeRank_pos (by omega)

lemma intPlace_zero : intPlace 0 = 0 := rfl

lemma intPlace_neg_of_neg {n : Int} (hn : n < 0) : intPlace n < 0 := by
  have hpos := intPlace_pos (Int.neg_pos_of_neg hn)
  rw [intPlace_neg] at hpos
  omega

lemma intPlace_mono {a b : Int} (h : a ≤ b) : intPlace a ≤ intPlace b := by
  have hpos {a b : Int} (ha : 0 < a) (hab : a ≤ b) : intPlace a ≤ intPlace b := by
    rw [intPlace_of_pos ha, intPlace_of_pos (ha.trans_le hab)]
    exact wholeRank_mono (by omega) (by omega)
  rcases lt_trichotomy a 0 with ha | rfl | ha
  · rcases lt_trichotomy b 0 with hb | rfl | hb
    · have := hpos (Int.neg_pos_of_neg hb) (Int.neg_le_neg h)
      rw [intPlace_neg, intPlace_neg] at this
      omega
    · exact (intPlace_neg_of_neg ha).le
    · exact ((intPlace_neg_of_neg ha).trans (intPlace_pos hb)).le
  · obtain rfl | hb := h.eq_or_lt
    · exact le_rfl
    · exact (intPlace_pos hb).le
  · exact hpos ha h

/-- Integers up to `2 ^ 53` are kept apart. -/
lemma intPlace_strictMono {a b : Int} (h : a < b) (ha : a.natAbs ≤ 2 ^ 53)
    (hb : b.natAbs ≤ 2 ^ 53) : intPlace a < intPlace b := by
  have hpos {a b : Int} (ha : 0 < a) (hab : a < b) (hb : b.natAbs ≤ 2 ^ 53) :
      intPlace a < intPlace b := by
    rw [intPlace_of_pos ha, intPlace_of_pos (ha.trans hab)]
    exact wholeRank_strictMono (by omega) (by omega) hb
  rcases lt_trichotomy a 0 with ha0 | rfl | ha0
  · rcases lt_trichotomy b 0 with hb0 | rfl | hb0
    · have := hpos (Int.neg_pos_of_neg hb0) (Int.neg_lt_neg h) (by omega)
      rw [intPlace_neg, intPlace_neg] at this
      omega
    · exact intPlace_neg_of_neg ha0
    · exact (intPlace_neg_of_neg ha0).trans (intPlace_pos hb0)
  · exact intPlace_pos h
  · exact hpos ha0 h hb

lemma intPlace_inj {a b : Int} (h : intPlace a = intPlace b) (ha : a.natAbs ≤ 2 ^ 53)
    (hb : b.natAbs ≤ 2 ^ 53) : a = b := by
  rcases lt_trichotomy a b with hab | hab | hab
  · exact absurd h (intPlace_strictMono hab ha hb).ne
  · exact hab
  · exact absurd h (intPlace_strictMono hab hb ha).ne'

/-- Integers at the same place become the same number. -/
lemma widen_eq {a b : Int64} (h : intPlace a.toInt = intPlace b.toInt) : widen a = widen b := by
  obtain ⟨ha, hplace, hzero⟩ := form_ofInt (natAbs_toInt_lt a)
  obtain ⟨hb, hplace', hzero'⟩ := form_ofInt (natAbs_toInt_lt b)
  refine eq_of_form ?_
  by_cases ha0 : a.toInt = 0
  · have hb0 : b.toInt = 0 := by
      rw [ha0, intPlace_zero] at h
      rcases lt_trichotomy b.toInt 0 with hb0 | hb0 | hb0
      · exact absurd h (intPlace_neg_of_neg hb0).ne'
      · exact hb0
      · exact absurd h (intPlace_pos hb0).ne
    exact (hzero ha0).trans (hzero' hb0).symm
  · refine eq_of_place (regular_form _) (regular_form _) ha hb ?_ ?_
    · exact hplace.trans (h.trans hplace'.symm)
    · change place (form (Float.ofInt a.toInt)) ≠ 0
      rw [hplace]
      rcases lt_trichotomy a.toInt 0 with h0 | h0 | h0
      · exact (intPlace_neg_of_neg h0).ne
      · exact absurd h0 ha0
      · exact (intPlace_pos h0).ne'

end Number

/-! ### The extreme of a list -/

namespace Arithmetic

open Number

/-- Keeping the best element so far finds one with the greatest key. -/
lemma foldl_extreme {α : Type} {beats : α → α → Prop} [DecidableRel beats] {key : α → Int}
    (hbeats : ∀ x y, beats x y ↔ key y < key x) (first : α) (rest : List α) :
    rest.foldl (fun best x => if beats x best then x else best) first ∈ first :: rest ∧
      ∀ x ∈ first :: rest,
        key x ≤ key (rest.foldl (fun best x => if beats x best then x else best) first) := by
  induction rest generalizing first with
  | nil => simp
  | cons x rest ih =>
    rw [List.foldl_cons]
    split
    · next hx =>
      obtain ⟨hmem, hall⟩ := ih x
      refine ⟨List.mem_cons_of_mem _ hmem, List.forall_mem_cons.2 ⟨?_, hall⟩⟩
      exact ((hbeats x first).1 hx).le.trans (hall x List.mem_cons_self)
    · next hx =>
      obtain ⟨hmem, hall⟩ := ih first
      have hfirst := hall first List.mem_cons_self
      refine ⟨List.cons_subset_cons first (List.subset_cons_self x rest) hmem,
        List.forall_mem_cons.2 ⟨hfirst, List.forall_mem_cons.2 ⟨?_, fun y hy => ?_⟩⟩⟩
      · exact (not_lt.1 fun h => hx ((hbeats x first).2 h)).trans hfirst
      · exact hall y (List.mem_cons_of_mem _ hy)

lemma foldl_int {beats : Number → Number → Prop} [DecidableRel beats] (first : Int64)
    (rest : List Int64) :
    (rest.map Number.int).foldl (fun best n => if beats n best then n else best) (.int first) =
      .int (rest.foldl (fun best n => if beats (.int n) (.int best) then n else best) first) := by
  induction rest generalizing first with
  | nil => rfl
  | cons n rest ih =>
    rw [List.map_cons, List.foldl_cons, List.foldl_cons, ← ih]
    split <;> rfl

/-- An integer is found that no operand exceeds as a floating point number. -/
lemma greatest_ints (first : Int64) (rest : List Int64) : ∃ best ∈ first :: rest,
    greatest (.int first) (rest.map Number.int) = .int best ∧
      ∀ x ∈ first :: rest, intPlace x.toInt ≤ intPlace best.toInt := by
  have hbeats (x y : Int64) : (Number.int x).toFloat > (Number.int y).toFloat ↔
      intPlace y.toInt < intPlace x.toInt := widen_lt_iff y x
  obtain ⟨hmem, hall⟩ := foldl_extreme hbeats first rest
  exact ⟨_, hmem, foldl_int first rest, hall⟩

/-- An integer is found that exceeds no operand as a floating point number. -/
lemma least_ints (first : Int64) (rest : List Int64) : ∃ best ∈ first :: rest,
    least (.int first) (rest.map Number.int) = .int best ∧
      ∀ x ∈ first :: rest, intPlace best.toInt ≤ intPlace x.toInt := by
  have hbeats (x y : Int64) : (Number.int x).toFloat < (Number.int y).toFloat ↔
      -intPlace y.toInt < -intPlace x.toInt := (widen_lt_iff x y).trans Int.neg_lt_neg_iff.symm
  obtain ⟨hmem, hall⟩ := foldl_extreme hbeats first rest
  exact ⟨_, hmem, foldl_int first rest, fun x hx => Int.neg_le_neg_iff.1 (hall x hx)⟩

/-! ### The primitives -/

/-- The primitive for an extreme of numbers. -/
def extreme (name : String) (choose : Number → List Number → Number) : Native :=
  .variadic name (.atLeast 1) [.number] .number fun first rest => give (.ok (choose first rest))

/-- The names of an extreme and of the comparison that it belongs to, and the order of an operand
and the extreme that the comparison looks for. -/
def extremes : List (String × String × Ordering) := [("max", ">", .gt), ("min", "<", .lt)]

/-- What an extreme chooses is at the place of every operand beyond it. -/
lemma exists_choice {n c : Native} {direction : Ordering} (hn : n ∈ standardNatives)
    (hc : c ∈ standardNatives) (hnames : (n.name, c.name, direction) ∈ extremes) :
    ∃ name other choose, n = extreme name choose ∧ c = comparison other (· == direction) ∧
      direction ≠ .eq ∧ ∀ first rest, ∃ best ∈ first :: rest,
        choose (.int first) (rest.map Number.int) = .int best ∧
        ∀ x ∈ first :: rest, compare x.toInt best.toInt = direction →
          intPlace x.toInt = intPlace best.toInt := by
  simp only [extremes, List.mem_cons, Prod.mk.injEq, List.not_mem_nil, or_false] at hnames
  obtain ⟨hname, hother, rfl⟩ | ⟨hname, hother, rfl⟩ := hnames
  · have hn' : n = extreme "max" greatest :=
      Native.eq_of_name hn (by rw [hname]; rfl)
    have hc' : c = comparison ">" (· == .gt) :=
      Native.eq_of_name hc (by rw [hother]; rfl)
    refine ⟨_, _, _, hn', hc', nofun, fun first rest => ?_⟩
    obtain ⟨best, hbest, hfound, hall⟩ := greatest_ints first rest
    refine ⟨best, hbest, hfound, fun x hx hgt => le_antisymm (hall x hx) ?_⟩
    exact intPlace_mono (compare_gt_iff_gt.1 hgt).le
  · have hn' : n = extreme "min" least :=
      Native.eq_of_name hn (by rw [hname]; rfl)
    have hc' : c = comparison "<" (· == .lt) :=
      Native.eq_of_name hc (by rw [hother]; rfl)
    refine ⟨_, _, _, hn', hc', nofun, fun first rest => ?_⟩
    obtain ⟨best, hbest, hfound, hall⟩ := least_ints first rest
    refine ⟨best, hbest, hfound, fun x hx hlt => le_antisymm ?_ (hall x hx)⟩
    exact intPlace_mono (compare_lt_iff_lt.1 hlt).le

lemma extreme_body (name : String) (choose : Number → List Number → Number) (first : Int64)
    (rest : List Int64) (frame : FrameId) :
    (extreme name choose).body ((first :: rest).map Value.int) frame =
      .done (choose (.int first) (rest.map Number.int)).toValue := by
  rw [← map_int_toValue]
  exact Native.variadicBody_first (fun first rest => give (.ok (choose first rest))) (.int first)
    (rest.map Number.int) frame

lemma comparison_body (name : String) (relation : Ordering → Bool) (a b : Int64)
    (frame : FrameId) : (comparison name relation).body [.int a, .int b] frame =
      .done (.bool (relation (compare a.toInt b.toInt))) := by
  change Program.done (Value.bool (relation (compare a.toInt b.toInt) && true)) = _
  rw [Bool.and_true]

end Arithmetic

namespace Machine

open Number Arithmetic

variable {m : Machine} {p q : Primitive} {n c : Native} {frame : FrameId} {direction : Ordering}

lemma perform_comparison {name : String} {relation : Ordering → Bool}
    (hq : m.Carries q (comparison name relation)) (a b : Int64) (fuel : Nat) (s : State) :
    m.perform (fuel + 1) (.apply (.primitive q) [.int a, .int b] frame) s =
      (.ok (.bool (relation (compare a.toInt b.toInt))), s) := by
  have hinvoked : (comparison name relation).invoked [.int a, .int b] frame =
      (comparison name relation).body [.int a, .int b] frame := rfl
  rw [perform_succ, serve_call hq (.apply _)]
  change ((((comparison name relation).invoked [.int a, .int b] frame).run s).execute _) = _
  rw [hinvoked, comparison_body]
  rfl

lemma perform_extreme {name : String} {choose : Number → List Number → Number}
    (hp : m.Carries p (extreme name choose)) {r : Request} (hr : r.IsCall p frame) {fuel : Nat}
    {s t : State} {first : Int64} {rest : List Int64}
    (henters : r.Enters (m.perform fuel) s ((first :: rest).map Value.int) t) :
    m.perform (fuel + 1) r s =
      (.ok (choose (.int first) (rest.map Number.int)).toValue, t) := by
  have haccepts : (extreme name choose).arity.accepts ((first :: rest).map Value.int).length =
      true := by
    simp [extreme, Native.variadic, Native.function, Arity.accepts]
  rw [perform_succ, serve_call hp hr, execute_of_enters rfl hr haccepts henters, extreme_body]
  rfl

/-- `max` and `min` of integers answer one of them. The comparison puts no operand beyond it if and
only if none that becomes the same floating point number is greater, or for `min` less, so none at
all if the integers have no more than 53 bits. -/
theorem extreme_iff (hn : n ∈ standardNatives) (hc : c ∈ standardNatives)
    (hnames : (n.name, c.name, direction) ∈ extremes) (hp : m.Carries p n) (hq : m.Carries q c)
    {r : Request} (hr : r.IsCall p frame) {fuel : Nat} {s t : State} {operands : List Int64}
    (hne : operands ≠ []) (henters : r.Enters (m.perform fuel) s (operands.map Value.int) t) :
    ∃ best ∈ operands, m.perform (fuel + 1) r s = (.ok (.int best), t) ∧
      ((∀ x ∈ operands, ∀ fuel u,
          m.perform (fuel + 1) (.apply (.primitive q) [.int x, .int best] frame) u =
            (.ok (.bool false), u)) ↔
        ∀ x ∈ operands, widen x = widen best → compare x.toInt best.toInt ≠ direction) ∧
      ((∀ x ∈ operands, x.toInt.natAbs ≤ 2 ^ 53) → ∀ x ∈ operands, ∀ fuel u,
        m.perform (fuel + 1) (.apply (.primitive q) [.int x, .int best] frame) u =
          (.ok (.bool false), u)) := by
  obtain ⟨_, _, choose, rfl, rfl, hdirection, hchoose⟩ := exists_choice hn hc hnames
  obtain ⟨first, rest, rfl⟩ := List.exists_cons_of_ne_nil hne
  obtain ⟨best, hbest, hfound, hsame⟩ := hchoose first rest
  have hanswer (x : Int64) (hx : compare x.toInt best.toInt ≠ direction) (fuel : Nat) (u : State) :
      m.perform (fuel + 1) (.apply (.primitive q) [.int x, .int best] frame) u =
        (.ok (.bool false), u) := by
    rw [perform_comparison hq, beq_eq_false_iff_ne.2 hx]
  refine ⟨best, hbest, ?_, ⟨fun h x hx _ heq => ?_, fun h x hx => hanswer x fun heq => ?_⟩,
    fun hsmall x hx => hanswer x fun heq => ?_⟩
  · rw [perform_extreme hp hr henters, hfound]
    rfl
  · have hfalse := h x hx 0 s
    rw [perform_comparison hq, beq_iff_eq.2 heq] at hfalse
    cases hfalse
  · exact h x hx (widen_eq (hsame x hx heq)) heq
  · have hxbest := intPlace_inj (hsame x hx heq) (hsmall x hx) (hsmall best hbest)
    rw [hxbest, compare_eq_iff_eq.2 rfl] at heq
    exact hdirection heq.symm

end Machine

namespace Interpreter

open Arithmetic

/-- The primitive for the greatest of numbers. -/
def maxPrimitive : Primitive := ⟨22, "max", .atLeast 1, .function⟩

/-- The primitive that looks for numbers in falling order. -/
def greaterPrimitive : Primitive := ⟨26, ">", .atLeast 2, .function⟩

lemma carries_max :
    (full .standard).machine.Carries maxPrimitive (extreme "max" greatest) := ⟨rfl, rfl⟩

lemma carries_greater :
    (full .standard).machine.Carries greaterPrimitive (comparison ">" (· == .gt)) := ⟨rfl, rfl⟩

/-- None of three small integers is greater than the one that `max` answers. -/
theorem extreme_iff_small : ∃ best ∈ [(3 : Int64), 1, 2],
    (full .standard).machine.perform 1
      (.apply (.primitive maxPrimitive) [.int 3, .int 1, .int 2] .global) (full .standard).state =
        (.ok (.int best), (full .standard).state) ∧
      ∀ x ∈ [(3 : Int64), 1, 2], ∀ fuel u, (full .standard).machine.perform (fuel + 1)
        (.apply (.primitive greaterPrimitive) [.int x, .int best] .global) u =
          (.ok (.bool false), u) := by
  have hn : extreme "max" greatest ∈ standardNatives := List.mem_of_getElem? (i := 22) rfl
  have hc : comparison ">" (· == .gt) ∈ standardNatives := List.mem_of_getElem? (i := 26) rfl
  have hcall : Request.IsCall maxPrimitive .global
      (.apply (.primitive maxPrimitive) ([(3 : Int64), 1, 2].map Value.int) .global) := .apply _
  have henters : Request.Enters ((full .standard).machine.perform 0) (full .standard).state
      ([(3 : Int64), 1, 2].map Value.int) (full .standard).state
      (.apply (.primitive maxPrimitive) ([(3 : Int64), 1, 2].map Value.int) .global) := ⟨rfl, rfl⟩
  have hnames : ("max", ">", Ordering.gt) ∈ extremes := by decide
  obtain ⟨best, hbest, hanswer, -, hsmall⟩ :=
    Machine.extreme_iff hn hc hnames carries_max carries_greater hcall
      (List.cons_ne_nil 3 [1, 2]) henters
  refine ⟨best, hbest, hanswer, hsmall ?_⟩
  simp only [List.forall_mem_cons]
  exact ⟨by decide, by decide, by decide, nofun⟩

/-- Of `2 ^ 53` and its successor, which become the same floating point number, `max` answers the
first, and the second is greater. -/
theorem greatest_exceeded : (full .standard).machine.perform 1
    (.apply (.primitive maxPrimitive) [.int 9007199254740992, .int 9007199254740993] .global)
      (full .standard).state = (.ok (.int 9007199254740992), (full .standard).state) ∧
    (full .standard).machine.perform 1
      (.apply (.primitive greaterPrimitive) [.int 9007199254740993, .int 9007199254740992] .global)
      (full .standard).state = (.ok (.bool true), (full .standard).state) := by
  have hgreatest : greatest (.int 9007199254740992) ([(9007199254740993 : Int64)].map Number.int) =
      .int 9007199254740992 := by
    decide +kernel
  have henters : Request.Enters ((full .standard).machine.perform 0) (full .standard).state
      (((9007199254740992 : Int64) :: [9007199254740993]).map Value.int) (full .standard).state
      (.apply (.primitive maxPrimitive) [.int 9007199254740992, .int 9007199254740993] .global) :=
    ⟨rfl, rfl⟩
  have hmax := Machine.perform_extreme carries_max (.apply _) henters
  rw [hgreatest] at hmax
  exact ⟨hmax, Machine.perform_comparison carries_greater _ _ 0 _⟩

end Interpreter

end HostedLisp
