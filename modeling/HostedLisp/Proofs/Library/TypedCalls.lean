import HostedLisp.Library.Samples
import HostedLisp.Proofs.Library.Answers

/-!
# Calls of typed functions

A function of typed parameters is called with arguments that are converted from left to right. It
runs if there are as many arguments as it takes and each one converts, and then it is given the
conversions in their order; otherwise the call is an error and nothing runs. Main definitions:
`Param.Suits`, `Native.Converts`, `Native.TypedCall`. Main statement: `Machine.calls_typed`.
-/

namespace HostedLisp

/-! ### Arguments and their parameters -/

namespace Param

variable {p q rest : Param} {tail : Option Param} {ps qs : List Param} {args values : List Value}
  {value bad : Value} {i : Nat}

/-- The parameter that an argument at a position goes to. Those past the last parameter all go to
the one that takes the rest, if there is one. -/
def at? (ps : List Param) (tail : Option Param) (position : Nat) : Option Param :=
  ps[position]?.or tail

/-- An argument at a position converts. -/
def Fits (ps : List Param) (tail : Option Param) (position : Nat) (value : Value) : Prop :=
  ∃ p, at? ps tail position = some p ∧ (p.ofValue? value).isSome

/-- All arguments convert. -/
def Suits (ps : List Param) (tail : Option Param) (args : List Value) : Prop :=
  ∀ i value, args[i]? = some value → Fits ps tail i value

/-- The leftmost argument that does not convert, its position and the parameter that it goes to. -/
structure Misfit (ps : List Param) (tail : Option Param) (args : List Value) (i : Nat) (p : Param)
    (bad : Value) : Prop where
  argument : args[i]? = some bad
  parameter : at? ps tail i = some p
  refused : p.ofValue? bad = none
  before : ∀ j value, j < i → args[j]? = some value → Fits ps tail j value

/-- The conversions of arguments that all go to one parameter. -/
def ConvertsAll (p : Param) : List Value → List p.Carrier → Prop :=
  List.Forall₂ fun value x => p.ofValue? value = some x

lemma Fits.not_refused (h : Fits ps tail i value) (hparameter : at? ps tail i = some p) :
    p.ofValue? value ≠ none := by
  obtain ⟨q, hq, hconverts⟩ := h
  rw [hparameter, Option.some.injEq] at hq
  subst hq
  exact Option.ne_none_iff_isSome.2 hconverts

lemma Misfit.not_suits (h : Misfit ps tail args i p bad) : ¬Suits ps tail args := by
  intro hsuits
  exact (hsuits i bad h.argument).not_refused h.parameter h.refused

lemma Misfit.le {j : Nat} {other : Value} (h : Misfit ps tail args i p bad)
    (h' : Misfit ps tail args j q other) : i ≤ j := by
  by_contra hlt
  exact (h.before j other (Nat.lt_of_not_ge hlt) h'.argument).not_refused h'.parameter h'.refused

/-- There is one leftmost argument that does not convert. -/
lemma Misfit.unique {j : Nat} {other : Value} (h : Misfit ps tail args i p bad)
    (h' : Misfit ps tail args j q other) : i = j ∧ p = q ∧ bad = other := by
  obtain rfl : i = j := Nat.le_antisymm (h.le h') (h'.le h)
  exact ⟨rfl, Option.some.inj (h.parameter.symm.trans h'.parameter),
    Option.some.inj (h.argument.symm.trans h'.argument)⟩

/-- The first argument is the leftmost one that does not convert. -/
lemma misfit_zero (hparameter : at? ps tail 0 = some p) (hrefused : p.ofValue? bad = none) :
    Misfit ps tail (bad :: args) 0 p bad :=
  ⟨rfl, hparameter, hrefused, nofun⟩

section

-- The parameters `ps` are those for the arguments after the first one.
variable (hshift : ∀ i, at? qs tail (i + 1) = at? ps tail i)

include hshift

lemma Suits.cons (hfirst : Fits qs tail 0 value) (h : Suits ps tail args) :
    Suits qs tail (value :: args) := by
  intro i other hother
  cases i with
  | zero =>
    cases hother
    exact hfirst
  | succ i =>
    obtain ⟨p, hp, hconverts⟩ := h i other hother
    exact ⟨p, (hshift i).trans hp, hconverts⟩

lemma Misfit.cons (hfirst : Fits qs tail 0 value) (h : Misfit ps tail args i p bad) :
    Misfit qs tail (value :: args) (i + 1) p bad where
  argument := h.argument
  parameter := (hshift i).trans h.parameter
  refused := h.refused
  before j other hj hother := by
    cases j with
    | zero =>
      cases hother
      exact hfirst
    | succ j =>
      obtain ⟨p, hp, hconverts⟩ := h.before j other (Nat.lt_of_succ_lt_succ hj) hother
      exact ⟨p, (hshift j).trans hp, hconverts⟩

end

/-! ### One parameter for the rest -/

lemma fits_of_some {x : p.Carrier} (hparameter : at? ps tail 0 = some p)
    (hx : p.ofValue? value = some x) : Fits ps tail 0 value :=
  ⟨p, hparameter, by rw [hx]; rfl⟩

lemma ConvertsAll.suits {xs : List p.Carrier} (h : p.ConvertsAll values xs) :
    Suits [] (some p) values := by
  induction h with
  | nil => nofun
  | cons hx _ ih => exact ih.cons (fun _ => rfl) (fits_of_some rfl hx)

/-- Values that all convert are converted. -/
lemma ConvertsAll.convertAll {xs : List p.Carrier} (h : p.ConvertsAll values xs) :
    p.convertAll values = .done xs := by
  induction h with
  | nil => rfl
  | cons hx _ ih =>
    rw [Param.convertAll, convert_of_some hx, ih]
    rfl

/-- Either all values convert or one of them is the first that does not, which is the error. -/
lemma convertsAll_or_misfit (p : Param) (values : List Value) :
    (∃ xs, p.ConvertsAll values xs) ∨ ∃ i bad, Misfit [] (some p) values i p bad ∧
      p.refused? values = some bad := by
  induction values with
  | nil => exact .inl ⟨[], .nil⟩
  | cons value values ih =>
    cases hvalue : p.ofValue? value with
    | none => exact .inr ⟨0, value, misfit_zero rfl hvalue, refused?_cons_of_none hvalue⟩
    | some x =>
      obtain ⟨xs, hxs⟩ | ⟨i, bad, hbad, hrefused⟩ := ih
      · exact .inl ⟨x :: xs, .cons hvalue hxs⟩
      · exact .inr ⟨i + 1, bad, hbad.cons (fun _ => rfl) (fits_of_some rfl hvalue),
          (refused?_cons_of_some hvalue).trans hrefused⟩

end Param

namespace Native

open Param (Suits Misfit ConvertsAll)

variable {α : Type} {p rest : Param} {tail : Option Param} {ps : List Param}
  {args remaining : List Value} {value bad : Value} {i : Nat} {s : State}

/-! ### A parameter for each argument -/

/-- One conversion for each parameter. -/
def Given : List Param → Type
  | [] => Unit
  | p :: ps => p.Carrier × Given ps

/-- What becomes of a function of parameters that is given them. -/
def give : (ps : List Param) → Function α ps → Given ps → α
  | [], f, _ => f
  | _ :: ps, f, (x, xs) => give ps (f x) xs

/-- The conversions of the first arguments, one for each parameter, and the arguments after them. -/
inductive Converts : (ps : List Param) → List Value → Given ps → List Value → Prop
  | nil (remaining : List Value) : Converts [] remaining () remaining
  | cons {p : Param} {ps : List Param} {value : Value} {x : p.Carrier} {args : List Value}
      {xs : Given ps} {remaining : List Value} (hx : p.ofValue? value = some x)
      (hxs : Converts ps args xs remaining) : Converts (p :: ps) (value :: args) (x, xs) remaining

namespace Converts

variable {xs : Given ps}

lemma length (h : Converts ps args xs remaining) : args.length = ps.length + remaining.length := by
  induction h with
  | nil => exact (Nat.zero_add _).symm
  | cons _ _ ih => rw [List.length_cons, List.length_cons, ih, Nat.succ_add_eq_add_succ]; rfl

lemma suits (h : Converts ps args xs remaining) (hremaining : Suits [] tail remaining) :
    Suits ps tail args := by
  induction h with
  | nil => exact hremaining
  | cons hx _ ih => exact (ih hremaining).cons (fun _ => rfl) (Param.fits_of_some rfl hx)

lemma misfit (h : Converts ps args xs remaining) (hbad : Misfit [] tail remaining i p bad) :
    ∃ j, Misfit ps tail args j p bad := by
  induction h with
  | nil => exact ⟨i, hbad⟩
  | cons hx _ ih =>
    obtain ⟨j, hj⟩ := ih hbad
    exact ⟨j + 1, hj.cons (fun _ => rfl) (Param.fits_of_some rfl hx)⟩

/-- A function is fed with the conversions of its arguments. -/
lemma feed (h : Converts ps args xs remaining) (next : α → List Value → Program Value)
    (f : Function α ps) : feed next ps f args = next (give ps f xs) remaining := by
  induction h with
  | nil => rfl
  | cons hx _ ih =>
    rw [Native.feed, Param.convert_of_some hx]
    exact ih (f _)

end Converts

/-- Either there is a conversion for each parameter or one argument is the first that does not
convert, which is the error. -/
lemma converts_or_misfit (tail : Option Param) (hlength : ps.length ≤ args.length) :
    (∃ xs remaining, Converts ps args xs remaining) ∨ ∃ i p bad, Misfit ps tail args i p bad ∧
      ∀ (next : α → List Value → Program Value) (f : Function α ps) (s : State),
        (feed next ps f args).run s = .stop (.error (.error (p.refusal s.heap bad))) s := by
  induction ps generalizing args with
  | nil => exact .inl ⟨(), args, .nil args⟩
  | cons p ps ih =>
    cases args with
    | nil => cases hlength
    | cons value args =>
      cases hvalue : p.ofValue? value with
      | none =>
        refine .inr ⟨0, p, value, Param.misfit_zero rfl hvalue, fun next f s => ?_⟩
        rw [feed, Program.run_bind, Run.bind_apply, Param.convert_run_of_none hvalue]
        rfl
      | some x =>
        obtain ⟨xs, remaining, hxs⟩ | ⟨i, q, bad, hbad, hrun⟩ := ih (Nat.le_of_succ_le_succ hlength)
        · exact .inl ⟨(x, xs), remaining, .cons hvalue hxs⟩
        · refine .inr ⟨i + 1, q, bad, hbad.cons (fun _ => rfl) (Param.fits_of_some rfl hvalue),
            fun next f s => ?_⟩
          rw [feed, Param.convert_of_some hvalue]
          exact hrun next (f x) s

/-! ### Calls -/

lemma fixedBody_eq (f : Function (Program Value) ps) (frame : FrameId) :
    fixedBody ps f args frame = if (Arity.exactly ps.length).accepts args.length then
      feed (fun result _ => result) ps f args
    else .fail (.arity (.exactly ps.length) args.length none) := by
  simp only [fixedBody, Arity.accepts, beq_iff_eq]

lemma variadicBody_eq (f : Function (List rest.Carrier → Program Value) ps) (frame : FrameId) :
    variadicBody ps rest f args frame = if (Arity.atLeast ps.length).accepts args.length then
      feed (fun f remaining => (rest.convertAll remaining).bind f) ps f args
    else .fail (.arity (.atLeast ps.length) args.length none) := by
  simp only [variadicBody, Arity.accepts, decide_eq_true_eq]

/-- What comes of a call of a typed function for which `declared` is declared, and which itself
takes as many arguments as `own` says. If there are too few or too many arguments, or if one does
not convert, the call is an error that leaves the state alone; of the arguments that do not convert,
the leftmost is named. Otherwise the call is a run of the function on the conversions. -/
structure TypedCall (name : String) (declared own : Arity) (ps : List Param) (tail : Option Param)
    (args : List Value) (runs : Run Value → Prop) (call : Run Value) : Prop where
  undeclared : declared.accepts args.length = false →
    call = Run.raise (.arity declared args.length (some name))
  miscounted : declared.accepts args.length = true → own.accepts args.length = false →
    call = Run.raise (.arity own args.length none)
  run : declared.accepts args.length = true → own.accepts args.length = true →
    Suits ps tail args → runs call
  refused : declared.accepts args.length = true → own.accepts args.length = true →
    ¬Suits ps tail args → ∃ i p bad, Misfit ps tail args i p bad ∧
      ∀ s, call s = .stop (.error (.error (p.refusal s.heap bad))) s

/-- A body that counts its arguments and converts them is a typed call, if conversions lead to a run
of the function and the leftmost argument that does not convert is the error. -/
lemma typedCall_of {name : String} {declared own : Arity} {runs : Run Value → Prop}
    {call : Run Value} (fed : Program Value)
    (hcall : call = if declared.accepts args.length then
      (if own.accepts args.length then fed else .fail (.arity own args.length none)).run
      else Run.raise (.arity declared args.length (some name)))
    (hfed : own.accepts args.length = true → (Suits ps tail args ∧ runs fed.run) ∨
      ∃ i p bad, Misfit ps tail args i p bad ∧
        ∀ s, fed.run s = .stop (.error (.error (p.refusal s.heap bad))) s) :
    TypedCall name declared own ps tail args runs call where
  undeclared hdeclared := by
    rw [hcall, hdeclared]
    rfl
  miscounted hdeclared hown := by
    rw [hcall, hdeclared, hown]
    rfl
  run hdeclared hown hsuits := by
    rw [hcall, if_pos hdeclared, if_pos hown]
    obtain ⟨-, hruns⟩ | ⟨i, p, bad, hbad, -⟩ := hfed hown
    · exact hruns
    · exact absurd hsuits hbad.not_suits
  refused hdeclared hown hsuits := by
    rw [hcall, if_pos hdeclared, if_pos hown]
    exact (hfed hown).resolve_left fun h => hsuits h.1

end Native

namespace Machine

open Native

variable {m : Machine}

/-- How a machine calls typed functions: those of a fixed number of parameters, whatever arity is
declared for them, and those that take the remaining arguments as a list. -/
structure CallsTyped (m : Machine) : Prop where
  fixed : ∀ {p : Primitive} {name : String} {declared : Arity} {ps : List Param}
    {f : Native.Function (Program Value) ps},
    m.Carries p (.function name declared (Native.fixedBody ps f)) → ∀ args frame,
    Native.TypedCall name declared (.exactly ps.length) ps none args
      (fun call => ∃ xs, Native.Converts ps args xs [] ∧ call = (Native.give ps f xs).run)
      (m.applyTo (.primitive p) args frame)
  variadic : ∀ {p : Primitive} {name : String} {declared : Arity} {ps : List Param} {rest : Param}
    {f : Native.Function (List rest.Carrier → Program Value) ps},
    m.Carries p (.variadic name declared ps rest f) → ∀ args frame,
    Native.TypedCall name declared (.atLeast ps.length) ps (some rest) args
      (fun call => ∃ xs remaining ys, Native.Converts ps args xs remaining ∧
        rest.ConvertsAll remaining ys ∧ call = (Native.give ps f xs ys).run)
      (m.applyTo (.primitive p) args frame)

/-- A function is called with values if the declared arity takes so many. -/
lemma applyTo_function {p : Primitive} {name : String} {declared : Arity} {body : Body}
    (h : m.Carries p (.function name declared body)) (args : List Value) (frame : FrameId) :
    m.applyTo (.primitive p) args frame = if declared.accepts args.length then (body args frame).run
      else Run.raise (.arity declared args.length (some name)) := by
  have hkind : p.kind = .function := congrArg Primitive.kind h.eq
  rw [applyTo, hkind]
  change m.invoke p args frame = _
  rw [h.invoke, Native.invoked]
  exact apply_ite Program.run _ _ _

/-- Every machine calls every typed function in this way. -/
theorem calls_typed (m : Machine) : m.CallsTyped where
  fixed {p name declared ps f} h args frame := by
    refine typedCall_of (feed (fun result _ => result) ps f args) ?_ fun hown => ?_
    · rw [applyTo_function h, fixedBody_eq]
    · have hlength : args.length = ps.length := by simpa [Arity.accepts] using hown
      obtain ⟨xs, remaining, hxs⟩ | ⟨i, p, bad, hbad, hrun⟩ :=
        converts_or_misfit (α := Program Value) none hlength.ge
      · obtain rfl : remaining = [] :=
          List.eq_nil_of_length_eq_zero (by have := hxs.length; omega)
        exact .inl ⟨hxs.suits nofun, xs, hxs, congrArg Program.run (hxs.feed _ f)⟩
      · exact .inr ⟨i, p, bad, hbad, hrun _ f⟩
  variadic {p name declared ps rest f} h args frame := by
    refine typedCall_of
      (feed (fun f remaining => (rest.convertAll remaining).bind f) ps f args) ?_ fun hown => ?_
    · rw [applyTo_function h, variadicBody_eq]
    · have hlength : ps.length ≤ args.length := by simpa [Arity.accepts] using hown
      obtain ⟨xs, remaining, hxs⟩ | ⟨i, p, bad, hbad, hrun⟩ :=
        converts_or_misfit (α := List rest.Carrier → Program Value) (some rest) hlength
      · obtain ⟨ys, hys⟩ | ⟨i, bad, hbad, hrefused⟩ := Param.convertsAll_or_misfit rest remaining
        · refine .inl ⟨hxs.suits hys.suits, xs, remaining, ys, hxs, hys, ?_⟩
          rw [hxs.feed, hys.convertAll]
          rfl
        · obtain ⟨j, hj⟩ := hxs.misfit hbad
          refine .inr ⟨j, rest, bad, hj, fun s => ?_⟩
          rw [hxs.feed, Program.run_bind, Run.bind_apply, Param.convertAll_refuses hrefused]
          rfl
      · exact .inr ⟨i, p, bad, hbad, hrun _ f⟩

end Machine

namespace Interpreter

open Native Param

/-- An interpreter with a function of three parameters and a rest of numbers that is offered for any
number of arguments. -/
def withTagged : Interpreter :=
  (bare .standard).register (.function "loose-tagged" .any
    (variadicBody [.symbol, .string, .bool] .number Samples.tagged))

def taggedPrimitive : Primitive := ⟨0, "loose-tagged", .any, .function⟩

/-- The function runs on a name, a string, a truth value and numbers. With too few arguments or with
a number in the place of the string, it does not. -/
theorem calls_typed_tagged :
    withTagged.machine.applyTo (.primitive taggedPrimitive)
      [.sym ⟨"a"⟩, .str "b", .bool true, .int 1, .int 2] .global =
        (Samples.tagged ⟨"a"⟩ "b" true [.int 1, .int 2]).run ∧
    withTagged.machine.applyTo (.primitive taggedPrimitive) [.sym ⟨"a"⟩] .global =
      Run.raise (.arity (.atLeast 3) 1 none) ∧
    ∀ s, withTagged.machine.applyTo (.primitive taggedPrimitive)
      [.sym ⟨"a"⟩, .int 7, .nil] .global s =
        .stop (.error (.error (.type "expected string, got 7"))) s := by
  have hcarries : withTagged.machine.Carries taggedPrimitive (.function "loose-tagged" .any
      (variadicBody [.symbol, .string, .bool] .number Samples.tagged)) := ⟨rfl, rfl⟩
  have hcall := fun args =>
    (Machine.calls_typed withTagged.machine).variadic hcarries args .global
  refine ⟨?_, (hcall _).miscounted rfl rfl, fun s => ?_⟩
  · have hsuits : Suits [.symbol, .string, .bool] (some .number)
        [.sym ⟨"a"⟩, .str "b", .bool true, .int 1, .int 2] :=
      Converts.suits (.cons rfl (.cons rfl (.cons rfl (.nil _))))
        (ConvertsAll.suits (.cons rfl (.cons rfl .nil)))
    obtain ⟨xs, remaining, ys, hxs, hys, hrun⟩ := (hcall _).run rfl rfl hsuits
    obtain _ | ⟨hname, _ | ⟨htext, _ | ⟨hflag, _ | _⟩⟩⟩ := hxs
    obtain _ | ⟨hone, _ | ⟨htwo, _ | _⟩⟩ := hys
    cases hname
    cases htext
    cases hflag
    cases hone
    cases htwo
    exact hrun
  · have hmisfit : Misfit [.symbol, .string, .bool] (some .number) [.sym ⟨"a"⟩, .int 7, .nil] 1
        .string (.int 7) :=
      (misfit_zero rfl rfl).cons (fun _ => rfl) (fits_of_some rfl rfl)
    obtain ⟨i, p, bad, hbad, hrefused⟩ := (hcall _).refused rfl rfl hmisfit.not_suits
    obtain ⟨rfl, rfl, rfl⟩ := hmisfit.unique hbad
    exact hrefused s

end Interpreter

end HostedLisp
