import HostedLisp.Proofs.Program.Safety

/-!
# Primitives that stay within a vocabulary

What a primitive asks for is bounded by the number of its arguments. A primitive that calls
functions calls them with fewer arguments than it has itself, all but those that sort: they have
two arguments and compare with two. A primitive is safe for some primitives if it speaks their
vocabulary. Main definitions: `Request.weight`, `Native.Speaks`, `Native.Safe`.
-/

namespace HostedLisp

/-- A measure of requests that grows with the arguments of a call. -/
def Request.weight : Request → Nat
  | .eval .. => 0
  | .apply _ args _ => args.length + 2
  | .call _ operands _ => operands.length + 2
  | .pause _ | .setting .. | .print _ | .isPaused | .depth => 1

/-- The names of the primitives that sort. -/
def sortNames : List String := ["sort", "vector-sort", "vector-sort!"]

/-- The weight of what a primitive asks for at most, with so many arguments. -/
def reach (name : String) (count : Nat) : Nat :=
  if name ∈ sortNames then count + 2 else count + 1

variable {V : Vocabulary} {may : Request → Prop}

lemma lt_reach (name : String) (count : Nat) : count < reach name count := by
  rw [reach]
  split <;> omega

/-- Any arguments that a primitive takes are safe in its hands. -/
def Native.Safe (G : Primitive → Prop) (n : Native) : Prop :=
  ∀ args frame, n.arity.accepts args.length = true → AllOver G args →
    (n.body args frame).Safe G (fun r => r.weight ≤ reach n.name args.length) (Value.Over G)

/-- With any arguments of the vocabulary that it takes, a primitive speaks the vocabulary. -/
def Native.Speaks (V : Vocabulary) (n : Native) : Prop :=
  ∀ args frame, n.arity.accepts args.length = true → AllIn V args →
    (n.body args frame).Speaks V (fun r => r.weight ≤ reach n.name args.length) (Value.In V)

lemma Native.safe_iff {G : Primitive → Prop} {n : Native} :
    n.Safe G ↔ n.Speaks (.ofPrimitives G) :=
  forall₃_congr fun _ _ _ => imp_congr allOver_iff Program.safe_over_iff

lemma evals_reach (name : String) (count : Nat) :
    Program.Evals fun r => r.weight ≤ reach name count :=
  fun _ _ => Nat.zero_le _

/-! ### Typed arguments -/

namespace Param

/-- What is known of a converted argument of the vocabulary. -/
def Holds (V : Vocabulary) : (p : Param) → p.Carrier → Prop
  | any, v => v.In V
  | symbol, name => V.symbol name
  | int, _ | float, _ | bool, _ | string, _ | number, _ => True

lemma ofValue?_holds {p : Param} {v : Value} {x : p.Carrier} (hv : v.In V)
    (h : p.ofValue? v = some x) : p.Holds V x := by
  cases p with
  | any => exact Option.some.inj h ▸ hv
  | symbol =>
    cases v with
    | sym name => exact Option.some.inj h ▸ hv
    | _ => cases h
  | int | float | bool | string | number => exact trivial

variable [V.Coherent]

lemma speaks_convert {p : Param} {v : Value} {post : p.Carrier → Prop} (hv : v.In V)
    (h : ∀ x, p.Holds V x → post x) : (p.convert v).Speaks V may post := by
  rw [convert]
  split
  · next x heq => exact h x (ofValue?_holds hv heq)
  · exact Program.speaks_wrongType (Vocabulary.Coherent.line (by cases p <;> decide)) hv

lemma speaks_convertAll {p : Param} {values : List Value} {post : List p.Carrier → Prop}
    (hv : AllIn V values) (h : ∀ xs, (∀ x ∈ xs, p.Holds V x) → post xs) :
    (p.convertAll values).Speaks V may post := by
  induction values generalizing post with
  | nil => exact h [] nofun
  | cons v rest ih =>
    rw [AllIn.cons_iff] at hv
    simp only [convertAll, Program.speaks_bind]
    refine speaks_convert hv.1 fun x hx => ih hv.2 fun xs hxs => ?_
    exact h (x :: xs) (List.forall_mem_cons.2 ⟨hx, hxs⟩)

end Param

namespace Native

/-- Whatever the arguments of the vocabulary are, a function of parameters ends with `post`. -/
def Function.Always {result : Type} (V : Vocabulary) (post : result → Prop) :
    (ps : List Param) → Function result ps → Prop
  | [], f => post f
  | p :: ps, f => ∀ x : p.Carrier, p.Holds V x → Function.Always V post ps (f x)

/-- A function asks for nothing and speaks the vocabulary. -/
abbrev Quiet (V : Vocabulary) (p : Program Value) : Prop :=
  p.Speaks V (fun _ => False) (Value.In V)

lemma speaks_of_quiet {p : Program Value} (h : Quiet V p) : p.Speaks V may (Value.In V) :=
  h.mono (fun _ => False.elim) fun _ hv => hv

variable [V.Coherent]

lemma speaks_feed {result : Type} {next : result → List Value → Program Value}
    {post : result → Prop} {ps : List Param} {f : Function result ps} {args : List Value}
    (hf : Function.Always V post ps f) (ha : AllIn V args) (hlen : ps.length ≤ args.length)
    (h : ∀ r rest, post r → AllIn V rest → (next r rest).Speaks V may (Value.In V)) :
    (feed next ps f args).Speaks V may (Value.In V) := by
  induction ps generalizing args with
  | nil => exact h f args hf ha
  | cons p ps ih =>
    cases args with
    | nil => simp at hlen
    | cons v rest =>
      rw [AllIn.cons_iff] at ha
      rw [feed, Program.speaks_bind]
      refine Param.speaks_convert ha.1 fun x hx => ih (hf x hx) ha.2 ?_
      simpa using hlen

lemma speaks_fixedBody {ps : List Param} {f : Function (Program Value) ps} {args : List Value}
    (frame : FrameId) (hf : Function.Always V (Quiet V) ps f) (ha : AllIn V args) :
    (fixedBody ps f args frame).Speaks V may (Value.In V) := by
  rw [fixedBody]
  split
  · next hlen =>
    have hle : ps.length ≤ args.length := Nat.le_of_eq hlen.symm
    exact speaks_feed hf ha hle fun _ _ hr _ => speaks_of_quiet hr
  · exact trivial

lemma speaks_variadicBody {ps : List Param} {rest : Param}
    {f : Function (List rest.Carrier → Program Value) ps} {args : List Value} (frame : FrameId)
    (hf : Function.Always V
      (fun g => ∀ xs : List rest.Carrier, (∀ x ∈ xs, rest.Holds V x) → Quiet V (g xs)) ps f)
    (ha : AllIn V args) : (variadicBody ps rest f args frame).Speaks V may (Value.In V) := by
  rw [variadicBody]
  split
  · next hlen =>
    refine speaks_feed hf ha hlen fun g remaining hg hrem => ?_
    rw [Program.speaks_bind]
    exact Param.speaks_convertAll hrem fun xs hxs => speaks_of_quiet (hg xs hxs)
  · exact trivial

lemma speaks_fixed {name : String} {ps : List Param} {f : Function (Program Value) ps}
    (hf : Function.Always V (Quiet V) ps f) : (fixed name ps f).Speaks V :=
  fun _ frame _ ha => speaks_fixedBody frame hf ha

lemma speaks_variadic {name : String} {arity : Arity} {ps : List Param} {rest : Param}
    {f : Function (List rest.Carrier → Program Value) ps}
    (hf : Function.Always V
      (fun g => ∀ xs : List rest.Carrier, (∀ x ∈ xs, rest.Holds V x) → Quiet V (g xs)) ps f) :
    (variadic name arity ps rest f).Speaks V :=
  fun _ frame _ ha => speaks_variadicBody frame hf ha

end Native

end HostedLisp
