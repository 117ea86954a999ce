import HostedLisp.Proofs.Machine.Calls

/-!
# Answers of typed primitives

A primitive with typed parameters converts its arguments before it does anything, and the first one
that cannot be converted is the error, whatever the others are. Most primitives then answer at once
and leave the state alone, however they came to be called. Main definition: `Machine.Answers`. Main
statements: `Machine.answers_of_run`, `Native.variadicBody_refuses`.
-/

namespace HostedLisp

/-! ### Conversions -/

namespace Param

/-- The error of an argument that a parameter does not take. -/
def refusal (p : Param) (h : Heap) (value : Value) : Error :=
  .type (s!"expected {p.noun}, got " ++ h.render value)

/-- The first argument that a parameter does not take. -/
def refused? (p : Param) (values : List Value) : Option Value :=
  values.find? fun v => (p.ofValue? v).isNone

variable {p : Param} {value bad : Value} {values : List Value}

lemma refused?_cons_of_none (h : p.ofValue? value = none) :
    p.refused? (value :: values) = some value := by
  rw [refused?, List.find?_cons, h]
  rfl

lemma refused?_cons_of_some {x : p.Carrier} (h : p.ofValue? value = some x) :
    p.refused? (value :: values) = p.refused? values := by
  rw [refused?, List.find?_cons, h]
  rfl

lemma convert_of_some {x : p.Carrier} (h : p.ofValue? value = some x) :
    p.convert value = .done x := by
  rw [convert, h]

lemma convert_run_of_none (h : p.ofValue? value = none) (s : State) :
    (p.convert value).run s = .stop (.error (.error (p.refusal s.heap value))) s := by
  rw [convert, h]
  rfl

lemma convertAll_refuses (h : p.refused? values = some bad) (s : State) :
    (p.convertAll values).run s = .stop (.error (.error (p.refusal s.heap bad))) s := by
  induction values with
  | nil => cases h
  | cons value values ih =>
    rw [convertAll, Program.run_bind, Run.bind_apply]
    cases hvalue : p.ofValue? value with
    | none =>
      rw [refused?_cons_of_none hvalue] at h
      cases h
      rw [convert_run_of_none hvalue]
      rfl
    | some x =>
      rw [refused?_cons_of_some hvalue] at h
      rw [convert_of_some hvalue]
      change (((p.convertAll values).bind _).run s) = _
      rw [Program.run_bind, Run.bind_apply, ih h]
      rfl

lemma ofValue?_toValue (n : Number) : number.ofValue? n.toValue = some n := by
  cases n <;> rfl

lemma convertAll_numbers (ns : List Number) :
    number.convertAll (ns.map Number.toValue) = .done ns := by
  induction ns with
  | nil => rfl
  | cons n ns ih =>
    rw [List.map_cons, convertAll, convert_of_some (ofValue?_toValue n), ih]
    rfl

lemma ofValue?_number (value : Value) : number.ofValue? value = Number.ofValue? value := by
  cases value <;> rfl

end Param

lemma Number.map_int_toValue (values : List Int64) :
    (values.map Number.int).map Number.toValue = values.map Value.int := by
  rw [List.map_map]
  rfl

namespace Native

variable {rest : Param} {args : List Value} {bad : Value}

/-- If all parameters are of one type, the first argument of another type is the error. -/
lemma variadicBody_refuses {ps : List Param} (hps : ∀ p ∈ ps, p = rest)
    (f : Function (List rest.Carrier → Program Value) ps) (hlength : ps.length ≤ args.length)
    (hbad : rest.refused? args = some bad) (frame : FrameId) (s : State) :
    (variadicBody ps rest f args frame).run s =
      .stop (.error (.error (rest.refusal s.heap bad))) s := by
  rw [variadicBody, if_pos hlength]
  induction ps generalizing args with
  | nil =>
    rw [feed, Program.run_bind, Run.bind_apply, Param.convertAll_refuses hbad]
    rfl
  | cons p ps ih =>
    obtain ⟨rfl, hps⟩ := List.forall_mem_cons.1 hps
    cases args with
    | nil => cases hbad
    | cons value args =>
      rw [feed, Program.run_bind, Run.bind_apply]
      cases hvalue : p.ofValue? value with
      | none =>
        rw [Param.refused?_cons_of_none hvalue] at hbad
        cases hbad
        rw [Param.convert_run_of_none hvalue]
        rfl
      | some x =>
        rw [Param.refused?_cons_of_some hvalue] at hbad
        rw [Param.convert_of_some hvalue]
        exact ih hps (f x) (Nat.le_of_succ_le_succ hlength) hbad

/-- A function of any numbers receives them all. -/
lemma variadicBody_numbers (f : List Number → Program Value) (ns : List Number) (frame : FrameId) :
    variadicBody [] .number f (ns.map Number.toValue) frame = f ns := by
  change ((Param.number.convertAll (ns.map Number.toValue)).bind f) = _
  rw [Param.convertAll_numbers]
  rfl

/-- A function of one number and any others receives the first one on its own. -/
lemma variadicBody_first (f : Number → List Number → Program Value) (first : Number)
    (others : List Number) (frame : FrameId) :
    variadicBody [.number] .number f ((first :: others).map Number.toValue) frame =
      f first others := by
  change ((Param.number.convert first.toValue).bind fun n =>
    (Param.number.convertAll (others.map Number.toValue)).bind (f n)) = _
  rw [Param.convert_of_some (Param.ofValue?_toValue first), Param.convertAll_numbers]
  rfl

end Native

/-! ### Answers -/

namespace Machine

variable {m : Machine} {p : Primitive} {n : Native} {name : String} {args : List Value}
  {result : Heap → Except Error Value}

/-- A machine has the standard primitive of a name under the number of a primitive. -/
def IsStandard (m : Machine) (p : Primitive) (name : String) : Prop :=
  ∃ n ∈ standardNatives, n.name = name ∧ m.Carries p n

/-- However a primitive comes to be called with these arguments, it answers with this, which may
show something of the heap, and leaves the state as it is. -/
def Answers (m : Machine) (p : Primitive) (args : List Value)
    (result : Heap → Except Error Value) : Prop :=
  ∀ (r : Request) (frame : FrameId) (fuel : Nat) (s t : State), r.IsCall p frame →
    r.Enters (m.perform fuel) s args t → m.perform (fuel + 1) r s = .answered (result t.heap) t

lemma IsStandard.carries (hp : m.IsStandard p name)
    (hname : standardNatives.filter (fun d => d.name = name) = [n]) : m.Carries p n := by
  obtain ⟨d, hd, rfl, hcarries⟩ := hp
  rwa [← Native.eq_of_name hd hname]

/-- A native function answers with what its body comes to, if that asks for nothing. -/
theorem answers_of_run (hp : m.Carries p n) (hkind : n.kind = .function)
    (haccepts : n.arity.accepts args.length = true)
    (hrun : ∀ frame s, (n.body args frame).run s =
      .stop ((result s.heap).mapError .error) s) : m.Answers p args result := by
  intro r frame fuel s t hr henters
  rw [perform_succ, serve_call hp hr, execute_of_enters hkind hr haccepts henters, hrun]
  rfl

end Machine

end HostedLisp
