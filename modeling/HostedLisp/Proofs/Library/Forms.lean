import HostedLisp.Form
import HostedLisp.Library.Debugging
import HostedLisp.Library.DeviceFields
import HostedLisp.Proofs.Library.Natives

/-!
# Forms within a vocabulary

The special forms, the primitives of the debugger and those on device fields ask for evaluations,
which weigh nothing, and for the services of the debugger. They stay within the vocabulary of their
operands: `Form.core_speaks`, `Debugging.library_speaks`, `DeviceFields.library_speaks`.
-/

namespace HostedLisp

variable {V : Vocabulary} [V.Coherent] {may : Request → Prop} {frame : FrameId}

open Program Native Vocabulary

namespace Form

lemma speaks_clauses (heval : Evals may) {clauseList : List Value} (hc : AllIn V clauseList) :
    (clauses frame clauseList).Speaks V may (Value.In V) := by
  induction clauseList with
  | nil => exact Value.in_nil
  | cons clause rest ih =>
    rw [AllIn.cons_iff] at hc
    rw [clauses, speaks_look]
    intro heap hheap
    split
    · exact speaks_wrongType (Coherent.line (by decide)) hc.1
    · exact Coherent.line (by decide)
    · next test body heq =>
      have hitems := hheap.listItems? heq
      rw [AllIn.cons_iff] at hitems
      -- The word `else` and any other test are followed by the same choice.
      have hchoice (verdict : Value) (hv : verdict.In V) :
          (if verdict.isTruthy then if body.isEmpty then done verdict else evalBody body frame
            else clauses frame rest).Speaks V may (Value.In V) := by
        split
        · split
          · exact hv
          · exact speaks_evalBody heval hitems.2
        · exact ih hc.2
      rw [speaks_bind]
      by_cases htest : test = .sym ⟨"else"⟩
      · rw [if_pos htest]
        exact hchoice _ (Value.in_bool true)
      · rw [if_neg htest]
        exact speaks_eval heval hitems.1 hchoice

/-! ### Functions -/

/-- A name among the parameters that offends is in the vocabulary, and so is any other value. -/
def ParamsFault.In (V : Vocabulary) : ParamsFault → Prop
  | repeated name => V.symbol name
  | notSymbol value | notList value => value.In V

omit [V.Coherent] in
lemma paramsFrom_in {heap : Heap} (hheap : heap.In V) {steps : Nat} {before : List Symbol}
    {value : Value} {offence : ParamsFault} (hv : value.In V)
    (eq : paramsFrom heap steps before value = .error offence) : offence.In V := by
  fun_induction paramsFrom heap steps before value with
  | case1 => cases eq
  | case2 => exact Except.error.inj eq ▸ hv
  | case3 => cases eq
  | case4 => exact Except.error.inj eq ▸ hv
  | case5 before steps id name hhead =>
    exact Except.error.inj eq ▸ Value.in_sym.1 (hhead ▸ hheap.head id)
  | case6 before steps id name hhead hnew ih => exact ih (hheap.tail id) eq
  | case7 before steps id => exact Except.error.inj eq ▸ hheap.head id
  | case8 => exact Except.error.inj eq ▸ hv

lemma ParamsFault.toError_in {heap : Heap} (hheap : heap.In V) {offence : ParamsFault}
    (h : offence.In V) : (offence.toError heap).In V := by
  cases offence with
  | repeated name => exact Coherent.append (Coherent.line (by decide)) (Coherent.symbol h)
  | notSymbol value | notList value =>
    exact Coherent.append (Coherent.line (by decide)) (Coherent.value hheap h)

lemma speaks_makeClosure {parameters : Value} {body : List Value} {name : Option Symbol}
    {post : Value → Prop} (hp : parameters.In V) (hb : AllIn V body)
    (hname : ∀ symbol, name = some symbol → V.symbol symbol) (h : ∀ v, v.In V → post v) :
    (makeClosure parameters body frame name).Speaks V may post := by
  rw [makeClosure, speaks_look]
  intro heap hheap
  split
  · next offence heq => exact ParamsFault.toError_in hheap (paramsFrom_in hheap hp heq)
  · exact ⟨⟨hb, hname⟩, h⟩

omit [V.Coherent] in
lemma speaks_bindName {name : Symbol} {value : Value} (hname : V.symbol name)
    (hv : value.In V) : (bindName frame name value).Speaks V may (Value.In V) := by
  rw [bindName]
  exact ⟨hv, fun _ _ => hname⟩

omit [V.Coherent] in
lemma speaks_conditional (heval : Evals may) {operands : List Value} (ho : AllIn V operands) :
    (conditional operands frame).Speaks V may (Value.In V) := by
  match operands with
  | [] | [_] | _ :: _ :: _ :: _ :: _ => exact trivial
  | [test, consequent] =>
    simp only [AllIn.cons_iff] at ho
    simp only [conditional, bind_eq_bind, speaks_bind]
    refine speaks_eval heval ho.1 fun v _ => ?_
    split
    · exact speaks_eval heval ho.2.1 fun _ h => h
    · exact Value.in_nil
  | [test, consequent, alternative] =>
    simp only [AllIn.cons_iff] at ho
    simp only [conditional, bind_eq_bind, speaks_bind]
    refine speaks_eval heval ho.1 fun v _ => ?_
    split
    · exact speaks_eval heval ho.2.1 fun _ h => h
    · exact speaks_eval heval ho.2.2.1 fun _ h => h

lemma speaks_define (heval : Evals may) {operands : List Value} (ho : AllIn V operands) :
    (define operands frame).Speaks V may (Value.In V) := by
  unfold define
  split
  · exact speaks_bindName (AllIn.cons_iff.1 ho).1 Value.in_nil
  · simp only [AllIn.cons_iff] at ho
    simp only [bind_eq_bind, speaks_bind]
    refine speaks_eval heval ho.2.1 fun v hv => ?_
    cases v with
    | closure id => exact ⟨ho.1, fun _ _ => speaks_bindName ho.1 hv⟩
    | _ => exact speaks_bindName ho.1 hv
  · exact trivial
  · next id body =>
    rw [AllIn.cons_iff] at ho
    rw [speaks_look]
    intro heap hheap
    split
    · next name hhead =>
      have hname : V.symbol name := Value.in_sym.1 (hhead ▸ hheap.head id)
      split
      · exact Coherent.append (Coherent.append (Coherent.line (by decide))
          (Coherent.symbol hname)) (Coherent.line (by decide))
      · rw [speaks_bind]
        refine speaks_makeClosure (hheap.tail id) ho.2 (fun symbol heq => ?_) fun v hv =>
          speaks_bindName hname hv
        exact Option.some.inj heq ▸ hname
    · exact speaks_wrongType (Coherent.line (by decide)) (hheap.head id)
  · exact speaks_wrongType (Coherent.line (by decide)) (AllIn.cons_iff.1 ho).1
  · exact trivial

lemma speaks_set (heval : Evals may) {operands : List Value} (ho : AllIn V operands) :
    (set operands frame).Speaks V may (Value.In V) := by
  unfold set
  split
  · simp only [AllIn.cons_iff] at ho
    simp only [bind_eq_bind, speaks_bind]
    refine speaks_eval heval ho.2.1 fun v hv => ?_
    rw [assign, speaks_look]
    intro heap _
    split
    · exact ⟨hv, fun _ _ => hv⟩
    · exact trivial
  · exact speaks_wrongType (Coherent.line (by decide)) (AllIn.cons_iff.1 ho).1
  · exact trivial

lemma speaks_lambda {operands : List Value} (ho : AllIn V operands) :
    (lambda operands frame).Speaks V may (Value.In V) := by
  unfold lambda
  split
  · rw [AllIn.cons_iff] at ho
    exact speaks_makeClosure ho.1 ho.2 nofun fun _ h => h
  · exact trivial

/-! ### Local bindings -/

omit [V.Coherent] in
lemma localBinding?_in {heap : Heap} (hheap : heap.In V) {binding expr : Value}
    {name : Symbol} (eq : localBinding? heap binding = some (name, some expr)) :
    expr.In V := by
  cases binding with
  | pair id =>
    rw [localBinding?] at eq
    split at eq
    · cases eq
    · next heq =>
      cases eq
      exact (AllIn.cons_iff.1 (hheap.listItems? heq)).1
    · cases eq
  | sym => cases eq
  | _ => cases eq

lemma speaks_initialValues (heval : Evals may) {before : List (Symbol × Value)}
    {bindings : List Value} {post : List (Symbol × Value) → Prop}
    (hbefore : ∀ e ∈ before, e.2.In V) (hb : AllIn V bindings)
    (h : ∀ vs, (∀ e ∈ vs, e.2.In V) → post vs) :
    (initialValues frame before bindings).Speaks V may post := by
  induction bindings generalizing before with
  | nil => exact h _ fun e he => hbefore e (List.mem_reverse.1 he)
  | cons binding rest ih =>
    rw [AllIn.cons_iff] at hb
    rw [initialValues, speaks_look]
    intro heap hheap
    split
    · exact speaks_wrongType (Coherent.line (by decide)) hb.1
    · exact ih (List.forall_mem_cons.2 ⟨Value.in_nil, hbefore⟩) hb.2
    · next heq =>
      rw [speaks_bind]
      refine speaks_eval heval (localBinding?_in hheap heq) fun v hv => ?_
      exact ih (List.forall_mem_cons.2 ⟨hv, hbefore⟩) hb.2

omit [V.Coherent] in
lemma speaks_defineAll {values : List (Symbol × Value)} (hv : ∀ e ∈ values, e.2.In V) :
    (defineAll frame values).Speaks V may fun _ => True := by
  induction values with
  | nil => exact trivial
  | cons e rest ih =>
    rw [List.forall_mem_cons] at hv
    rw [defineAll, speaks_bind]
    exact ⟨hv.1, fun _ _ => ih hv.2⟩

lemma speaks_locals (heval : Evals may) {operands : List Value} (ho : AllIn V operands) :
    (locals operands frame).Speaks V may (Value.In V) := by
  unfold locals
  split
  · exact trivial
  · rw [AllIn.cons_iff] at ho
    rw [speaks_look]
    intro heap hheap
    split
    · exact speaks_wrongType (Coherent.line (by decide)) ho.1
    · next items heq =>
      simp only [bind_eq_bind, speaks_bind]
      have hitems := hheap.listItems? heq
      refine speaks_initialValues heval (List.forall_mem_nil _) hitems fun vs hvs => ?_
      exact ⟨trivial, fun inner _ =>
        (speaks_defineAll hvs).imp fun _ _ => speaks_evalBody heval ho.2⟩

/-! ### Sequences of conditions -/

omit [V.Coherent] in
lemma speaks_conjunctionFrom (heval : Evals may) {last : Value} {exprs : List Value}
    (hl : last.In V) (he : AllIn V exprs) :
    (conjunctionFrom frame last exprs).Speaks V may (Value.In V) := by
  induction exprs generalizing last with
  | nil => exact hl
  | cons expr rest ih =>
    rw [AllIn.cons_iff] at he
    rw [conjunctionFrom, speaks_bind]
    refine speaks_eval heval he.1 fun v hv => ?_
    split
    · exact ih hv he.2
    · exact hv

omit [V.Coherent] in
lemma speaks_disjunctionFrom (heval : Evals may) {exprs : List Value} (he : AllIn V exprs) :
    (disjunctionFrom frame exprs).Speaks V may (Value.In V) := by
  induction exprs with
  | nil => exact Value.in_bool false
  | cons expr rest ih =>
    rw [AllIn.cons_iff] at he
    rw [disjunctionFrom, speaks_bind]
    refine speaks_eval heval he.1 fun v hv => ?_
    split
    · exact hv
    · exact ih he.2

theorem core_speaks : ∀ n ∈ core, n.Speaks V := by
  simp only [core, List.forall_mem_cons]
  refine ⟨?_, ?_, ?_, ?_, ?_, ?_, ?_, ?_, ?_, ?_, nofun⟩
  · intro operands frame _ ho
    match operands with
    | [] | _ :: _ :: _ => exact trivial
    | [expr] => exact (AllIn.cons_iff.1 ho).1
  · exact fun _ _ _ ho => speaks_conditional (evals_reach _ _) ho
  · exact fun _ _ _ ho => speaks_clauses (evals_reach _ _) ho
  · exact fun _ _ _ ho => speaks_define (evals_reach _ _) ho
  · exact fun _ _ _ ho => speaks_set (evals_reach _ _) ho
  · exact fun _ _ _ ho => speaks_lambda ho
  · exact fun _ _ _ ho => speaks_locals (evals_reach _ _) ho
  · exact fun _ _ _ ho => speaks_evalBody (evals_reach _ _) ho
  · exact fun _ _ _ ho => speaks_conjunctionFrom (evals_reach _ _) (Value.in_bool true) ho
  · exact fun _ _ _ ho => speaks_disjunctionFrom (evals_reach _ _) ho

end Form

namespace Debugging

/-- What the primitives of the debugger ask for weighs less than a call. -/
lemma service_reach {r : Request} {name : String} {count : Nat} (h : r.weight = 1) :
    r.weight ≤ reach name count := by
  have := lt_reach name count
  omega

omit [V.Coherent] in
lemma toggle_speaks {name : String} {arity : Arity} {which : Debugger.Setting} :
    (Native.function name arity (toggle which)).Speaks V := by
  intro args frame _ _
  change (toggle which args frame).Speaks V _ _
  unfold toggle
  split
  · exact ⟨⟨service_reach rfl, trivial⟩, fun _ h => h⟩
  · exact ⟨⟨service_reach rfl, trivial⟩, fun _ h => h⟩

omit [V.Coherent] in
theorem library_speaks : ∀ n ∈ library, n.Speaks V := by
  simp only [library, List.forall_mem_cons]
  refine ⟨?_, toggle_speaks, toggle_speaks, ?_, nofun⟩
  · exact fun _ _ _ _ => ⟨⟨service_reach rfl, trivial⟩, fun _ h => h⟩
  · exact fun _ _ _ _ heap _ => ⟨⟨service_reach rfl, trivial⟩, fun _ _ => Value.in_nil⟩

end Debugging

namespace DeviceFields

/-- An expression that a modifier defers is in the vocabulary. -/
def Modifier.In (V : Vocabulary) : Modifier → Prop
  | deferral form => form.In V
  | repetition _ | restriction _ => True

lemma speaks_evalInteger (heval : Evals may) {expr : Value} {post : Int64 → Prop}
    (he : expr.In V) (h : ∀ n, post n) : (evalInteger expr frame).Speaks V may post := by
  rw [evalInteger, speaks_bind]
  exact speaks_eval heval he fun v hv => Param.speaks_convert (p := .int) hv fun n _ => h n

lemma speaks_readRepetition (heval : Evals may) {operands : List Value}
    (ho : AllIn V operands) :
    (readRepetition operands frame).Speaks V may (Modifier.In V) := by
  unfold readRepetition
  split
  · rw [AllIn.cons_iff] at ho
    simp only [bind_eq_bind, speaks_bind]
    refine speaks_evalInteger heval ho.1 fun n => ?_
    split <;> exact trivial
  · exact trivial

lemma speaks_readRange (heval : Evals may) {operands : List Value} (ho : AllIn V operands) :
    (readRange operands frame).Speaks V may (Modifier.In V) := by
  unfold readRange
  split
  · simp only [AllIn.cons_iff] at ho
    simp only [bind_eq_bind, speaks_bind]
    refine speaks_evalInteger heval ho.1 fun low => ?_
    refine speaks_evalInteger heval ho.2.1 fun high => ?_
    split <;> exact trivial
  · exact trivial

lemma speaks_readValues (heval : Evals may) {operands : List Value} (ho : AllIn V operands) :
    (readValues operands frame).Speaks V may (Modifier.In V) := by
  unfold readValues
  split
  · exact trivial
  · simp only [bind_eq_bind, speaks_bind]
    refine speaks_evalAll heval ho fun values hv _ => ?_
    -- A single list stands for its elements.
    split
    · rw [speaks_bind]
      refine speaks_listItems (Value.in_pair _) fun items hi => ?_
      rw [speaks_bind]
      exact Param.speaks_convertAll (p := .int) hi fun _ _ => trivial
    · rw [pure_eq_done, done_bind, speaks_bind]
      exact Param.speaks_convertAll (p := .int) hv fun _ _ => trivial

omit [V.Coherent] in
lemma speaks_readDeferral {operands : List Value} (ho : AllIn V operands) :
    (readDeferral operands).Speaks V may (Modifier.In V) := by
  unfold readDeferral
  split
  · exact (AllIn.cons_iff.1 ho).1
  · exact trivial

lemma speaks_readNamed (heval : Evals may) {name : String} {operands : List Value}
    (hname : V.text name) (ho : AllIn V operands) :
    (readNamed name operands frame).Speaks V may (Modifier.In V) := by
  unfold readNamed
  split
  · exact speaks_readRepetition heval ho
  · exact speaks_readRange heval ho
  · exact speaks_readValues heval ho
  · exact speaks_readDeferral ho
  · exact Coherent.append (Coherent.line (by decide)) hname

lemma speaks_readModifier (heval : Evals may) {form : Value} (hform : form.In V) :
    (readModifier form frame).Speaks V may (Modifier.In V) := by
  cases form with
  | pair id =>
    rw [readModifier, speaks_bind]
    refine speaks_listItems_pair fun first rest hfirst hrest => ?_
    cases first with
    | sym name => exact speaks_readNamed heval (Coherent.symbol hfirst) hrest
    | _ => exact speaks_wrongType (Coherent.line (by decide)) hfirst
  | _ => exact speaks_wrongType (Coherent.line (by decide)) hform

/-- The deferred expressions of a field are in the vocabulary. -/
def FieldIn (V : Vocabulary) (field : DeviceField) : Prop := AllIn V field.deferred

omit [V.Coherent] in
lemma addTo_in {field : DeviceField} {modifier : Modifier} (hf : FieldIn V field)
    (hm : modifier.In V) : FieldIn V (modifier.addTo field) := by
  cases modifier with
  | repetition | restriction => exact hf
  | deferral form => exact AllIn.append_iff.2 ⟨hf, AllIn.cons_iff.2 ⟨hm, AllIn.nil⟩⟩

lemma speaks_readModifiers (heval : Evals may) {field : DeviceField} {forms : List Value}
    {post : DeviceField → Prop} (hf : FieldIn V field) (hforms : AllIn V forms)
    (h : ∀ field, FieldIn V field → post field) :
    (readModifiers frame field forms).Speaks V may post := by
  induction forms generalizing field with
  | nil => exact h field hf
  | cons form rest ih =>
    rw [AllIn.cons_iff] at hforms
    rw [readModifiers, speaks_bind]
    refine (speaks_readModifier heval hforms.1).imp fun modifier hm => ?_
    exact ih (addTo_in hf hm) hforms.2

lemma speaks_readType {value : Value} {post : FieldType → Prop} (hv : value.In V)
    (h : ∀ type, post type) : (readType value).Speaks V may post := by
  unfold readType
  split
  · split
    · exact h _
    · exact trivial
  · exact speaks_wrongType (Coherent.line (by decide)) hv

lemma speaks_make (heval : Evals may) {operands : List Value} (hlen : 2 ≤ operands.length)
    (ho : AllIn V operands) : (make operands frame).Speaks V may (Value.In V) := by
  unfold make
  split
  · simp only [AllIn.cons_iff] at ho
    simp only [bind_eq_bind, speaks_bind]
    refine speaks_readType ho.2.1 fun type => ?_
    refine speaks_readModifiers heval AllIn.nil ho.2.2 fun field hf => ?_
    by_cases hsize : (Numeral.word? (field.type.width * field.repeatCount)).isSome = true
    · rw [if_pos hsize]
      refine ⟨⟨Coherent.field, fun f hfield => ?_⟩, fun _ h => h⟩
      cases hfield
      exact hf
    · rw [if_neg hsize]
      exact trivial
  · exact speaks_wrongType (Coherent.line (by decide)) (AllIn.cons_iff.1 ho).1
  · next _ hother =>
    obtain _ | ⟨name, _ | ⟨type, modifiers⟩⟩ := operands
    · simp at hlen
    · simp at hlen
    · exact absurd rfl (hother name type modifiers)

lemma speaks_expectField {name : String} {value : Value} {post : DeviceField → Prop}
    (hname : V.text name) (hv : value.In V) (h : ∀ field, FieldIn V field → post field) :
    (expectField name value).Speaks V may post := by
  have hmessage : V.text s!"{name} needs a device field, but got " :=
    Coherent.append hname (Coherent.line (by decide))
  cases value with
  | object id =>
    rw [expectField, speaks_look]
    intro heap hheap
    split
    · split
      · next field heq => exact h field (hheap.deferred id field heq)
      · exact Coherent.append hname (Coherent.line (by decide))
    · exact speaks_wrongType hmessage hv
  | _ => exact speaks_wrongType hmessage hv

lemma speaks_validateDeferred (heval : Evals may) {value : Int64} {forms : List Value}
    {post : Bool → Prop} (hforms : AllIn V forms) (h : ∀ b, post b) :
    (validateDeferred value frame forms).Speaks V may post := by
  induction forms with
  | nil => exact h true
  | cons form rest ih =>
    rw [AllIn.cons_iff] at hforms
    rw [validateDeferred, speaks_bind]
    refine (speaks_readModifier heval hforms.1).imp fun modifier _ => ?_
    split
    · split
      · exact ih hforms.2
      · exact h false
    · intro heap hheap
      exact Coherent.append (Coherent.line (by decide)) (Coherent.value hheap hforms.1)

lemma speaks_validate (heval : Evals may) {field : DeviceField} {value : Int64}
    {post : Bool → Prop} (hf : FieldIn V field) (h : ∀ b, post b) :
    (validate field value frame).Speaks V may post := by
  rw [validate]
  split
  · exact speaks_validateDeferred heval hf h
  · exact h false

lemma speaks_fieldSize {value : Value} (hv : value.In V) :
    (fieldSize value).Speaks V may (Value.In V) := by
  simp only [fieldSize, bind_eq_bind, speaks_bind]
  refine speaks_expectField (Coherent.line (by decide)) hv fun field _ => ?_
  split
  · exact Value.in_int _
  · exact trivial

lemma validateField_speaks {name : String} :
    (Native.function name (.exactly 2) validateField).Speaks V := by
  intro args frame haccepts ha
  match args, haccepts, ha with
  | [field, value], _, ha =>
    simp only [AllIn.cons_iff] at ha
    simp only [validateField, Native.function, bind_eq_bind, speaks_bind]
    refine speaks_expectField (Coherent.line (by decide)) ha.1 fun field hf => ?_
    refine Param.speaks_convert (p := .int) ha.2.1 fun n _ => ?_
    exact speaks_validate (evals_reach _ _) hf fun b => Value.in_bool b

theorem library_speaks : ∀ n ∈ library, n.Speaks V := by
  simp only [library, List.forall_mem_cons]
  refine ⟨?_, validateField_speaks, speaks_fixed fun _ hv => speaks_fieldSize hv, nofun⟩
  exact fun _ _ haccepts ho => speaks_make (evals_reach _ _) (of_decide_eq_true haccepts) ho

end DeviceFields

end HostedLisp
