import HostedLisp.Proofs.Datum.Grammar
import HostedLisp.Proofs.Library.Answers
import Mathlib

/-!
# Arithmetic of integers

The four primitives of arithmetic fold their operands from the left, after all of them were found
to be numbers. Of integers the fold is that in unbounded integers, or the error of its first step
that has no result of 64 bits. Main definitions: `Fold`, `Computes`. Main statement:
`Machine.fold_exact`.
-/

namespace HostedLisp

namespace Arithmetic

/-! ### Definitions -/

/-- An integer has no more than 64 bits. -/
abbrev Fits (n : Int) : Prop := -2 ^ 63 ≤ n ∧ n < 2 ^ 63

/-- A way to fold integers from the left. -/
structure Fold where
  /-- What the message of an overflow calls it. -/
  operation : String
  step : Int → Int → Int
  /-- Whether the operands are divisors. -/
  divides : Bool

namespace Fold

variable (f : Fold)

/-- The fold in unbounded integers. -/
def total (start : Int) (operands : List Int64) : Int :=
  operands.foldl (fun x n => f.step x n.toInt) start

/-- The first `k` steps have results of 64 bits and divide by nothing that is zero. -/
structure Passes (start : Int) (operands : List Int64) (k : Nat) : Prop where
  fits : ∀ j ≤ k, Fits (f.total start (operands.take j))
  divisors : f.divides = true → ∀ n ∈ operands.take k, n ≠ 0

/-- The error of a step whose result does not fit. -/
def overflow : Error := .eval s!"Integer overflow in {f.operation}"

/-- What a fold comes to: its result in unbounded integers if all steps pass, otherwise the error
of the first one that does not. -/
structure Exact (start : Int) (operands : List Int64) (result : Except Error Int64) : Prop where
  ok_iff : ∀ n, result = .ok n ↔
    f.Passes start operands operands.length ∧ n.toInt = f.total start operands
  divideByZero_iff : result = .error .divideByZero ↔
    ∃ k, f.Passes start operands k ∧ f.divides = true ∧ operands[k]? = some 0
  overflow_iff : result = .error f.overflow ↔
    ∃ k n, f.Passes start operands k ∧ operands[k]? = some n ∧ (f.divides = true → n ≠ 0) ∧
      ¬Fits (f.total start (operands.take (k + 1)))
  cases : (∃ n, result = .ok n) ∨ result = .error .divideByZero ∨ result = .error f.overflow

def addition : Fold := ⟨"addition", (· + ·), false⟩

def multiplication : Fold := ⟨"multiplication", (· * ·), false⟩

def subtraction : Fold := ⟨"subtraction", (· - ·), false⟩

/-- Division toward zero. -/
def division : Fold := ⟨"division", Int.tdiv, true⟩

/-- The negation of one operand, whatever the start. -/
def negation : Fold := ⟨"negation", fun _ n => -n, false⟩

end Fold

/-- What the primitive of a name does with integers: how it folds, from where on, and which of its
operands. -/
inductive Computes : String → List Int64 → Fold → Int64 → List Int64 → Prop
  | sum (operands : List Int64) : Computes "+" operands .addition 0 operands
  | product (operands : List Int64) : Computes "*" operands .multiplication 1 operands
  | negation (n : Int64) : Computes "-" [n] .negation 0 [n]
  | difference (first second : Int64) (rest : List Int64) :
    Computes "-" (first :: second :: rest) .subtraction first (second :: rest)
  | quotient (first : Int64) (rest : List Int64) :
    Computes "/" (first :: rest) .division first rest

/-! ### Single steps -/

lemma fits_toInt (n : Int64) : Fits n.toInt := ⟨n.le_toInt, n.toInt_lt⟩

lemma toInt_ofInt {n : Int} (h : Fits n) : (Int64.ofInt n).toInt = n :=
  Int64.toInt_ofInt_of_le h.1 h.2

lemma inWord_iff_fits {n : Int} : Numeral.inWord n = true ↔ Fits n := by
  rw [Numeral.inWord_iff, Fits]
  norm_num

lemma exactly_of_fits {n : Int} (operation : String) (h : Fits n) :
    exactly operation n = .ok (Int64.ofInt n) := by
  rw [exactly, Numeral.word?, if_pos (inWord_iff_fits.2 h)]

lemma exactly_of_not_fits {n : Int} (operation : String) (h : ¬Fits n) :
    exactly operation n = .error (.eval s!"Integer overflow in {operation}") := by
  rw [exactly, Numeral.word?, if_neg fun hword => h (inWord_iff_fits.1 hword)]

/-! ### Folds -/

namespace Fold

variable {f : Fold} {start : Int} {n : Int64} {operands : List Int64} {k : Nat}

/-- The fold step by step, which ends at the first error. -/
def run (f : Fold) (x : Int64) : List Int64 → Except Error Int64
  | [] => .ok x
  | n :: rest =>
    if f.divides = true ∧ n = 0 then .error .divideByZero
    else (exactly f.operation (f.step x.toInt n.toInt)).bind fun y => f.run y rest

lemma Passes.fits_start (h : f.Passes start operands k) : Fits start := by
  simpa [total] using h.fits 0 (Nat.zero_le k)

lemma passes_zero (h : Fits start) : f.Passes start operands 0 := by
  refine ⟨fun j hj => ?_, fun _ n hn => by simp at hn⟩
  obtain rfl := Nat.le_zero.1 hj
  simpa [total] using h

lemma passes_succ : f.Passes start (n :: operands) (k + 1) ↔
    Fits start ∧ (f.divides = true → n ≠ 0) ∧ f.Passes (f.step start n.toInt) operands k := by
  constructor
  · intro h
    refine ⟨h.fits_start, fun hdivides => h.divisors hdivides n (by simp), fun j hj => ?_,
      fun hdivides m hm => h.divisors hdivides m (List.mem_cons_of_mem n hm)⟩
    exact h.fits (j + 1) (Nat.succ_le_succ hj)
  · rintro ⟨hstart, hn, h⟩
    refine ⟨fun j hj => ?_, fun hdivides => ?_⟩
    · cases j with
      | zero => simpa [total] using hstart
      | succ j => exact h.fits j (Nat.le_of_succ_le_succ hj)
    · rw [List.take_succ_cons]
      exact List.forall_mem_cons.2 ⟨hn hdivides, h.divisors hdivides⟩

lemma exact_nil (h : Fits n.toInt) : f.Exact n.toInt [] (.ok n) where
  ok_iff m := by
    rw [Except.ok.injEq, eq_comm, ← Int64.toInt_inj]
    exact ⟨fun hm => ⟨passes_zero h, hm⟩, fun hm => hm.2⟩
  divideByZero_iff := by simp
  overflow_iff := by simp
  cases := .inl ⟨n, rfl⟩

/-- A fold that divides by zero at once. -/
lemma exact_divideByZero (hstart : Fits start) (hdivides : f.divides = true) :
    f.Exact start (0 :: operands) (.error .divideByZero) where
  ok_iff m := by
    simp only [reduceCtorEq, List.length_cons, passes_succ, hdivides, ne_eq, not_true_eq_false,
      imp_false, false_and, and_false]
  divideByZero_iff := iff_of_true rfl ⟨0, passes_zero hstart, hdivides, rfl⟩
  overflow_iff := by
    refine iff_of_false (by simp [overflow]) ?_
    rintro ⟨k, m, hk, hm, hzero, -⟩
    cases k with
    | zero => exact hzero hdivides (Option.some.inj hm).symm
    | succ k => exact (passes_succ.1 hk).2.1 hdivides rfl
  cases := .inr (.inl rfl)

/-- A fold whose first result does not fit. -/
lemma exact_overflow (hstart : Fits start) (hn : f.divides = true → n ≠ 0)
    (hstep : ¬Fits (f.step start n.toInt)) :
    f.Exact start (n :: operands) (.error f.overflow) where
  ok_iff m := by
    refine iff_of_false (by simp) fun hm => hstep ?_
    exact (passes_succ.1 hm.1).2.2.fits_start
  divideByZero_iff := by
    refine iff_of_false (by simp [overflow]) ?_
    rintro ⟨k, hk, hdivides, hzero⟩
    cases k with
    | zero => exact hn hdivides (Option.some.inj hzero)
    | succ k => exact hstep (passes_succ.1 hk).2.2.fits_start
  overflow_iff := iff_of_true rfl ⟨0, n, passes_zero hstart, rfl, hn, hstep⟩
  cases := .inr (.inr rfl)

/-- A fold whose first step passes goes on with its result. -/
lemma Exact.cons {result : Except Error Int64}
    (h : f.Exact (f.step start n.toInt) operands result) (hstart : Fits start)
    (hn : f.divides = true → n ≠ 0) (hstep : Fits (f.step start n.toInt)) :
    f.Exact start (n :: operands) result where
  ok_iff m := by
    rw [h.ok_iff m, List.length_cons, passes_succ]
    exact ⟨fun hm => ⟨⟨hstart, hn, hm.1⟩, hm.2⟩, fun hm => ⟨hm.1.2.2, hm.2⟩⟩
  divideByZero_iff := by
    rw [h.divideByZero_iff]
    constructor
    · rintro ⟨k, hk, hzero⟩
      exact ⟨k + 1, passes_succ.2 ⟨hstart, hn, hk⟩, hzero⟩
    · rintro ⟨k, hk, hdivides, hzero⟩
      cases k with
      | zero => exact absurd (Option.some.inj hzero) (hn hdivides)
      | succ k => exact ⟨k, (passes_succ.1 hk).2.2, hdivides, hzero⟩
  overflow_iff := by
    rw [h.overflow_iff]
    constructor
    · rintro ⟨k, m, hk, hm⟩
      exact ⟨k + 1, m, passes_succ.2 ⟨hstart, hn, hk⟩, hm⟩
    · rintro ⟨k, m, hk, hm, hzero, hfits⟩
      cases k with
      | zero =>
        obtain rfl := Option.some.inj hm
        exact absurd hstep hfits
      | succ k => exact ⟨k, m, (passes_succ.1 hk).2.2, hm, hzero, hfits⟩
  cases := h.cases

/-- Step by step the fold is exact. -/
theorem run_exact (f : Fold) (x : Int64) (operands : List Int64) :
    f.Exact x.toInt operands (f.run x operands) := by
  induction operands generalizing x with
  | nil => exact exact_nil (fits_toInt x)
  | cons n operands ih =>
    rw [run]
    split
    · next hzero =>
      obtain ⟨hdivides, rfl⟩ := hzero
      exact exact_divideByZero (fits_toInt x) hdivides
    · next hzero =>
      have hn : f.divides = true → n ≠ 0 := fun hdivides heq => hzero ⟨hdivides, heq⟩
      by_cases hstep : Fits (f.step x.toInt n.toInt)
      · rw [exactly_of_fits _ hstep]
        refine Exact.cons ?_ (fits_toInt x) hn hstep
        have hy := ih (Int64.ofInt (f.step x.toInt n.toInt))
        rwa [toInt_ofInt hstep] at hy
      · rw [exactly_of_not_fits _ hstep]
        exact exact_overflow (fits_toInt x) hn hstep

/-- A function of numbers that takes the steps of a fold is that fold on integers. -/
lemma run_of_steps {g : Number → List Number → Except Error Number}
    (hnil : ∀ x, g (.int x) [] = .ok (.int x))
    (hcons : ∀ x n rest, g (.int x) (.int n :: rest) =
      if f.divides = true ∧ n = 0 then .error .divideByZero
      else (exactly f.operation (f.step x.toInt n.toInt)).bind fun y => g (.int y) rest)
    (x : Int64) (operands : List Int64) :
    g (.int x) (operands.map Number.int) = (f.run x operands).map Number.int := by
  induction operands generalizing x with
  | nil => exact hnil x
  | cons n operands ih =>
    rw [List.map_cons, hcons, run]
    split
    · rfl
    · cases exactly f.operation (f.step x.toInt n.toInt) with
      | error e => rfl
      | ok y => exact ih y

end Fold

lemma combine_bind (operation : String) (onInts : Int → Int → Int)
    (onFloats : Float → Float → Float) (a b : Int64) (next : Number → Except Error Number) :
    (combine operation onInts onFloats (.int a) (.int b)).bind next =
      (exactly operation (onInts a.toInt b.toInt)).bind fun n => next (.int n) := by
  rw [combine]
  cases exactly operation (onInts a.toInt b.toInt) <;> rfl

/-- A function of numbers that combines them one after the other, and never divides, is a fold on
integers. -/
lemma run_of_combine {f : Fold} {g : Number → List Number → Except Error Number}
    (hdivides : f.divides = false) (onFloats : Float → Float → Float) (hnil : ∀ x, g x [] = .ok x)
    (hcons : ∀ x n rest, g x (n :: rest) =
      (combine f.operation f.step onFloats x n).bind fun y => g y rest)
    (x : Int64) (operands : List Int64) :
    g (.int x) (operands.map .int) = (f.run x operands).map .int := by
  refine Fold.run_of_steps (fun x => hnil (.int x)) (fun x n rest => ?_) x operands
  rw [hcons, combine_bind, hdivides, if_neg fun h => Bool.false_ne_true h.1]

lemma addFrom_ints (x : Int64) (operands : List Int64) :
    addFrom (.int x) (operands.map .int) = (Fold.addition.run x operands).map .int :=
  run_of_combine rfl (· + ·) (fun _ => rfl) (fun _ _ _ => rfl) x operands

lemma mulFrom_ints (x : Int64) (operands : List Int64) :
    mulFrom (.int x) (operands.map .int) = (Fold.multiplication.run x operands).map .int :=
  run_of_combine rfl (· * ·) (fun _ => rfl) (fun _ _ _ => rfl) x operands

lemma subFrom_ints (x : Int64) (operands : List Int64) :
    subFrom (.int x) (operands.map .int) = (Fold.subtraction.run x operands).map .int :=
  run_of_combine rfl (· - ·) (fun _ => rfl) (fun _ _ _ => rfl) x operands

lemma divFrom_ints (x : Int64) (operands : List Int64) :
    divFrom (.int x) (operands.map .int) = (Fold.division.run x operands).map .int := by
  refine Fold.run_of_steps (fun _ => rfl) (fun x n rest => ?_) x operands
  have hzero : (Number.int n).isZero = true ↔ Fold.division.divides = true ∧ n = 0 := by
    rw [and_iff_right (a := Fold.division.divides = true) rfl]
    exact beq_iff_eq
  rw [divFrom, combine_bind]
  simp only [hzero]
  rfl

lemma subtract_ints (first : Int64) (others : List Int64) :
    ∃ f start rest, Computes "-" (first :: others) f start rest ∧
      subtract (.int first) (others.map .int) = (f.run start rest).map .int := by
  cases others with
  | nil =>
    refine ⟨_, _, _, .negation first, ?_⟩
    rw [Fold.run, if_neg fun h => Bool.false_ne_true h.1]
    change (exactly "negation" (-first.toInt)).map Number.int =
      ((exactly "negation" (-first.toInt)).bind .ok).map Number.int
    cases exactly "negation" (-first.toInt) <;> rfl
  | cons second rest =>
    exact ⟨_, _, _, .difference first second rest, subFrom_ints first (second :: rest)⟩

/-! ### Primitives -/

lemma giveInt_run (result : Except Error Int64) (s : State) :
    (giveInt result).run s = .stop ((result.map Value.int).mapError .error) s := by
  cases result <;> rfl

lemma give_int (result : Except Error Int64) : give (result.map .int) = giveInt result := by
  cases result <;> rfl

/-- A primitive that folds numbers from the left. -/
structure Folds (n : Native) : Prop where
  kind : n.kind = .function
  refuses : ∀ args bad, n.arity.accepts args.length = true →
    Param.number.refused? args = some bad → ∀ frame s, (n.body args frame).run s =
      .stop (.error (.error (Param.number.refusal s.heap bad))) s
  computes : ∀ operands : List Int64, n.arity.accepts operands.length = true →
    ∃ f start rest, Computes n.name operands f start rest ∧
      ∀ frame, n.body (operands.map .int) frame = giveInt (f.run start rest)

/-- A function of any numbers folds if it does on integers. -/
lemma Folds.of_any {name : String} {f : List Number → Except Error Number}
    (h : ∀ operands : List Int64, ∃ g start rest, Computes name operands g start rest ∧
      f (operands.map .int) = (g.run start rest).map .int) :
    Folds (.variadic name .any [] .number fun ns => give (f ns)) where
  kind := rfl
  refuses args bad _ hbad frame s :=
    Native.variadicBody_refuses (List.forall_mem_nil fun p : Param => p = .number)
      (fun ns : List Number => give (f ns)) (Nat.zero_le args.length) hbad frame s
  computes operands _ := by
    obtain ⟨g, start, rest, hg, hf⟩ := h operands
    refine ⟨g, start, rest, hg, fun frame => ?_⟩
    rw [← give_int, ← hf, ← Number.map_int_toValue]
    exact Native.variadicBody_numbers _ _ frame

/-- A function of one number and any others folds if it does on integers. -/
lemma Folds.of_first {name : String} {f : Number → List Number → Except Error Number}
    (h : ∀ (first : Int64) (others : List Int64), ∃ g start rest,
      Computes name (first :: others) g start rest ∧
      f (.int first) (others.map .int) = (g.run start rest).map .int) :
    Folds (.variadic name (.atLeast 1) [.number] .number fun first rest =>
      give (f first rest)) where
  kind := rfl
  refuses args bad haccepts hbad frame s := by
    refine Native.variadicBody_refuses (fun p hp => List.mem_singleton.1 hp) _ ?_ hbad frame s
    exact of_decide_eq_true haccepts
  computes operands haccepts := by
    obtain ⟨first, others, rfl⟩ : ∃ first others, operands = first :: others := by
      cases operands with
      | nil => cases haccepts
      | cons first others => exact ⟨first, others, rfl⟩
    obtain ⟨g, start, rest, hg, hf⟩ := h first others
    refine ⟨g, start, rest, hg, fun frame => ?_⟩
    rw [← give_int, ← hf, ← Number.map_int_toValue]
    exact Native.variadicBody_first _ _ _ frame

/-- Each of the four primitives folds. -/
lemma folds_of_name {n : Native} (hn : n ∈ standardNatives)
    (hname : n.name ∈ ["+", "-", "*", "/"]) : Folds n := by
  simp only [List.mem_cons, List.not_mem_nil, or_false] at hname
  obtain hname | hname | hname | hname := hname
  · obtain rfl := Native.eq_of_name hn (by rw [hname]; rfl)
    exact .of_any fun operands => ⟨_, _, _, .sum operands, addFrom_ints 0 operands⟩
  · obtain rfl := Native.eq_of_name hn (by rw [hname]; rfl)
    exact .of_first subtract_ints
  · obtain rfl := Native.eq_of_name hn (by rw [hname]; rfl)
    exact .of_any fun operands => ⟨_, _, _, .product operands, mulFrom_ints 1 operands⟩
  · obtain rfl := Native.eq_of_name hn (by rw [hname]; rfl)
    exact .of_first fun first others => ⟨_, _, _, .quotient first others, divFrom_ints first others⟩

end Arithmetic

namespace Machine

open Arithmetic

variable {m : Machine} {p : Primitive} {name : String} {args : List Value}

/-- The first operand that is not a number is the error, whatever else is wrong. Integers are folded
exactly, or the first step that fails decides which error it is. -/
theorem fold_exact (hname : name ∈ ["+", "-", "*", "/"]) (hp : m.IsStandard p name)
    (haccepts : p.arity.accepts args.length = true) :
    (∀ bad, args.find? (fun v => (Number.ofValue? v).isNone) = some bad →
      m.Answers p args fun h => .error (Param.number.refusal h bad)) ∧
    ∀ operands, args = operands.map .int →
      ∃ f start rest result, Computes name operands f start rest ∧
        f.Exact start.toInt rest result ∧ m.Answers p args fun _ => result.map .int := by
  obtain ⟨n, hn, rfl, hcarries⟩ := hp
  have hfolds := folds_of_name hn hname
  have harity : p.arity = n.arity := congrArg Primitive.arity hcarries.eq
  rw [harity] at haccepts
  constructor
  · intro bad hbad
    refine answers_of_run hcarries hfolds.kind haccepts fun frame s => ?_
    refine hfolds.refuses args bad haccepts ?_ frame s
    rw [Param.refused?, ← hbad]
    exact congrArg (args.find? ·) (funext fun v => by rw [Param.ofValue?_number])
  · rintro operands rfl
    obtain ⟨f, start, rest, hcomputes, hbody⟩ :=
      hfolds.computes operands (by rwa [List.length_map] at haccepts)
    refine ⟨f, start, rest, f.run start rest, hcomputes, f.run_exact start rest, ?_⟩
    refine answers_of_run hcarries hfolds.kind haccepts fun frame s => ?_
    rw [hbody, giveInt_run]

end Machine

namespace Interpreter

open Arithmetic

/-- The primitive that divides numbers. -/
def dividePrimitive : Primitive := ⟨17, "/", .atLeast 1, .function⟩

lemma isStandard_divide : (full .standard).machine.IsStandard dividePrimitive "/" :=
  ⟨_, List.mem_of_getElem? (i := 17) rfl, rfl, rfl, rfl⟩

lemma computes_divide {operands : List Int64} {f : Fold} {start : Int64} {rest : List Int64}
    (h : Computes "/" operands f start rest) : f = .division ∧ operands = start :: rest := by
  generalize hname : "/" = name at h
  cases h with
  | quotient => exact ⟨rfl, rfl⟩
  | sum | product | negation | difference => exact absurd hname (by decide)

/-- A string among the operands is the error although a zero comes before it, and the overflow of
the least integer by `-1` is although a zero comes after it. -/
theorem fold_exact_division :
    (full .standard).machine.Answers dividePrimitive [.int 1, .int 0, .str "x"]
      (fun h => .error (Param.number.refusal h (.str "x"))) ∧
    (full .standard).machine.Answers dividePrimitive [.int Int64.minValue, .int (-1), .int 0]
      (fun _ => .error (.eval "Integer overflow in division")) := by
  have hname : "/" ∈ ["+", "-", "*", "/"] := by decide
  refine ⟨(Machine.fold_exact hname isStandard_divide rfl).1 (.str "x") rfl, ?_⟩
  obtain ⟨f, start, rest, result, hcomputes, hexact, hanswers⟩ :=
    (Machine.fold_exact hname isStandard_divide rfl).2 [Int64.minValue, -1, 0] rfl
  obtain ⟨rfl, hoperands⟩ := computes_divide hcomputes
  cases hoperands
  have hoverflow : result = .error Fold.division.overflow :=
    hexact.overflow_iff.2 ⟨0, -1, Fold.passes_zero (fits_toInt _), rfl, by decide, by decide⟩
  rw [hoverflow] at hanswers
  exact hanswers

end Interpreter

end HostedLisp
