import HostedLisp.Proofs.Machine.Development
import HostedLisp.Proofs.Program.Endings

/-!
# What the modifiers of a field say

A modifier names what it is about, and its operands are evaluated where the field is made; only a
deferred one is kept as it is written. `ReadsAs` tells what a form is read as and what is left after
that, `Given` what several forms are read as one after the other. A field is what its modifiers
describe: the last repetition counts, the restrictions and the deferred forms add up. Its size is
never cut off and can always be told, since a greater field is not made. Main statement:
`Machine.made_field_wellFormed`.
-/

namespace HostedLisp

namespace DeviceFields

open Program

variable {answer : Answer} {frame : FrameId} {s t : State} {form v : Value} {m : Modifier}
  {operands forms : List Value} {ms : List Modifier}

/-! ### Single modifiers -/

/-- What a modifier can be about whose operands are evaluated at once. -/
inductive Aspect where
  | repetition
  | range
  | values
deriving DecidableEq, Repr

def Aspect.name : Aspect → String
  | repetition => "repeat"
  | range => "range"
  | values => "values"

/-- What a modifier says of the values of its operands. -/
inductive Meaning (h : Heap) : Aspect → List Value → Modifier → Prop
  | repetition {n : Int64} (hpositive : 1 ≤ n.toInt) :
    Meaning h .repetition [.int n] (.repetition n.toInt.toNat)
  | range {low high : Int64} (hle : low.toInt ≤ high.toInt) :
    Meaning h .range [.int low, .int high] (.restriction (.range low high))
  | values {allowed : List Int64} (hsome : allowed ≠ []) :
    Meaning h .values (allowed.map .int) (.restriction (.values allowed))
  /-- The values that are allowed may be in a list. -/
  | listed {id : CellId} {allowed : List Int64}
    (hlist : h.walk (.pair id) = (allowed.map .int, .proper)) :
    Meaning h .values [.pair id] (.restriction (.values allowed))

/-- What a form is read as in the state `s`, and the state after that. -/
inductive ReadsAs (answer : Answer) (frame : FrameId) (s : State) : Value → Modifier → State → Prop
  | evaluated {id : CellId} {aspect : Aspect} {operands values : List Value} {m : Modifier}
      {t : State} (hform : s.heap.walk (.pair id) = (.sym ⟨aspect.name⟩ :: operands, .proper))
      (hvalues : Evaluates answer frame s operands values t)
      (hmeaning : Meaning t.heap aspect values m) : ReadsAs answer frame s (.pair id) m t
  | deferred {id : CellId} {form : Value}
      (hform : s.heap.walk (.pair id) = ([.sym ⟨"deferred-validation"⟩, form], .proper)) :
      ReadsAs answer frame s (.pair id) (.deferral form) s

lemma endsIn_evalInteger {expr : Value} {n : Int64} :
    (evalInteger expr frame).EndsIn answer s n t ↔
      answer (.eval expr frame) s = (.ok (.int n), t) := by
  rw [evalInteger, endsIn_bind]
  constructor
  · rintro ⟨value, u, hvalue, hn⟩
    obtain ⟨rfl, rfl⟩ := Param.endsIn_convert_int.1 hn
    exact endsIn_eval.1 hvalue
  · exact fun h => ⟨_, _, endsIn_eval.2 h, Param.endsIn_convert_int.2 ⟨rfl, rfl⟩⟩

lemma endsIn_readRepetition : (readRepetition operands frame).EndsIn answer s m t ↔
    ∃ values, Evaluates answer frame s operands values t ∧
      Meaning t.heap .repetition values m := by
  match operands with
  | [expr] =>
    simp only [readRepetition, bind_eq_bind, endsIn_bind, endsIn_evalInteger, endsIn_ite,
      pure_eq_done, endsIn_done]
    constructor
    · rintro ⟨n, _, hn, hpositive, rfl, rfl⟩
      exact ⟨_, .cons hn (.nil t), .repetition hpositive⟩
    · rintro ⟨values, hvalues, hmeaning⟩
      obtain ⟨value, rest, u, rfl, hn, hrest⟩ := evaluates_cons.1 hvalues
      obtain ⟨rfl, rfl⟩ := evaluates_nil.1 hrest
      cases hmeaning with
      | repetition hpositive => exact ⟨_, t, hn, hpositive, rfl, rfl⟩
  | [] | _ :: _ :: _ =>
    refine iff_of_false endsIn_fail ?_
    rintro ⟨values, hvalues, hmeaning⟩
    have hlength := hvalues.length
    cases hmeaning
    simp at hlength

lemma endsIn_readRange : (readRange operands frame).EndsIn answer s m t ↔
    ∃ values, Evaluates answer frame s operands values t ∧ Meaning t.heap .range values m := by
  match operands with
  | [lowExpr, highExpr] =>
    simp only [readRange, bind_eq_bind, endsIn_bind, endsIn_evalInteger, endsIn_ite,
      pure_eq_done, endsIn_done]
    constructor
    · rintro ⟨low, u, hlow, high, _, hhigh, hle, rfl, rfl⟩
      exact ⟨_, .cons hlow (.cons hhigh (.nil t)), .range hle⟩
    · rintro ⟨values, hvalues, hmeaning⟩
      obtain ⟨value, rest, u, rfl, hlow, hrest⟩ := evaluates_cons.1 hvalues
      obtain ⟨value', rest', w, rfl, hhigh, hnil⟩ := evaluates_cons.1 hrest
      obtain ⟨rfl, rfl⟩ := evaluates_nil.1 hnil
      cases hmeaning with
      | range hle => exact ⟨_, u, hlow, _, t, hhigh, hle, rfl, rfl⟩
  | [] | [_] | _ :: _ :: _ :: _ =>
    refine iff_of_false endsIn_fail ?_
    rintro ⟨values, hvalues, hmeaning⟩
    have hlength := hvalues.length
    cases hmeaning
    simp at hlength

/-- A single list stands for its items. -/
def listed (values : List Value) : Program (List Value) :=
  match values with
  | [.pair id] => listItems (.pair id)
  | _ => pure values

lemma readValues_cons (operand : Value) (rest : List Value) :
    readValues (operand :: rest) frame = (evalAll (operand :: rest) frame).bind fun values =>
      (listed values).bind fun items => (Param.int.convertAll items).bind fun allowed =>
        done (.restriction (.values allowed)) := by
  unfold readValues
  rw [List.isEmpty_cons, if_neg Bool.false_ne_true]
  refine congrArg _ (funext fun values => ?_)
  dsimp only
  unfold listed
  split
  · rfl
  · simp

lemma endsIn_listed {values : List Value} (hsome : values ≠ []) :
    ((listed values).bind fun items => (Param.int.convertAll items).bind fun allowed =>
      done (.restriction (.values allowed))).EndsIn answer s m t ↔
      t = s ∧ Meaning s.heap .values values m := by
  rw [endsIn_bind]
  constructor
  · rintro ⟨items, u, hitems, hrest⟩
    obtain ⟨allowed, w, hallowed, hdone⟩ := endsIn_bind.1 hrest
    obtain ⟨rfl, rfl⟩ := endsIn_done.1 hdone
    obtain ⟨rfl, rfl⟩ := Param.endsIn_convertAll_int.1 hallowed
    unfold listed at hitems
    split at hitems
    · obtain ⟨hwalk, rfl⟩ := endsIn_listItems.1 hitems
      exact ⟨rfl, .listed hwalk⟩
    · obtain ⟨rfl, rfl⟩ := endsIn_done.1 hitems
      exact ⟨rfl, .values fun hnil => hsome (congrArg (List.map Value.int) hnil)⟩
  · rintro ⟨rfl, hmeaning⟩
    cases hmeaning with
    | @values allowed _ =>
      refine ⟨allowed.map .int, t, ?_, ?_⟩
      · unfold listed
        split
        · next heq =>
          obtain ⟨n, rest, -, ⟨⟩, -⟩ := List.map_eq_cons_iff.1 heq
        · exact endsIn_done.2 ⟨rfl, rfl⟩
      · exact endsIn_bind.2 ⟨allowed, t, Param.endsIn_convertAll_int.2 ⟨rfl, rfl⟩,
          endsIn_done.2 ⟨rfl, rfl⟩⟩
    | @listed id allowed hlist =>
      refine ⟨allowed.map .int, t, endsIn_listItems.2 ⟨hlist, rfl⟩, ?_⟩
      exact endsIn_bind.2 ⟨allowed, t, Param.endsIn_convertAll_int.2 ⟨rfl, rfl⟩,
        endsIn_done.2 ⟨rfl, rfl⟩⟩

lemma endsIn_readValues : (readValues operands frame).EndsIn answer s m t ↔
    ∃ values, Evaluates answer frame s operands values t ∧ Meaning t.heap .values values m := by
  cases operands with
  | nil =>
    refine iff_of_false endsIn_fail ?_
    rintro ⟨values, hvalues, hmeaning⟩
    obtain ⟨hnil, rfl⟩ := evaluates_nil.1 hvalues
    cases hmeaning with
    | values hsome => exact hsome (List.map_eq_nil_iff.1 hnil)
    | listed hlist => cases hnil
  | cons operand rest =>
    rw [readValues_cons, endsIn_bind]
    refine exists_congr fun values => ?_
    constructor
    · rintro ⟨u, hvalues, hm⟩
      have hevaluates := endsIn_evalAll.1 hvalues
      obtain ⟨rfl, hmeaning⟩ := (endsIn_listed (by rintro rfl; cases hevaluates.length)).1 hm
      exact ⟨hevaluates, hmeaning⟩
    · rintro ⟨hvalues, hmeaning⟩
      refine ⟨t, endsIn_evalAll.2 hvalues, ?_⟩
      exact (endsIn_listed (by rintro rfl; cases hvalues.length)).2 ⟨rfl, hmeaning⟩

lemma endsIn_readNamed (aspect : Aspect) :
    (readNamed aspect.name operands frame).EndsIn answer s m t ↔
      ∃ values, Evaluates answer frame s operands values t ∧ Meaning t.heap aspect values m := by
  cases aspect with
  | repetition => exact endsIn_readRepetition
  | range => exact endsIn_readRange
  | values => exact endsIn_readValues

lemma endsIn_readDeferral : (readDeferral operands).EndsIn answer s m t ↔
    ∃ form, operands = [form] ∧ m = .deferral form ∧ t = s := by
  unfold readDeferral
  split
  · next form => simp
  · next hlength =>
    refine iff_of_false endsIn_fail ?_
    rintro ⟨form, rfl, -⟩
    exact hlength form rfl

/-- A modifier has one of four names. -/
lemma aspect_of_endsIn_readNamed {name : String}
    (h : (readNamed name operands frame).EndsIn answer s m t) :
    (∃ aspect : Aspect, name = aspect.name) ∨ name = "deferred-validation" := by
  unfold readNamed at h
  split at h
  · exact .inl ⟨.repetition, rfl⟩
  · exact .inl ⟨.range, rfl⟩
  · exact .inl ⟨.values, rfl⟩
  · exact .inr rfl
  · cases h

/-- Reading a form does what the relation tells. -/
theorem endsIn_readModifier :
    (readModifier form frame).EndsIn answer s m t ↔ ReadsAs answer frame s form m t := by
  constructor
  · intro h
    unfold readModifier at h
    split at h
    · next id =>
      obtain ⟨parts, u, hparts, hm⟩ := endsIn_bind.1 h
      obtain ⟨hform, rfl⟩ := endsIn_listItems.1 hparts
      split at hm
      · next name operands =>
        obtain ⟨aspect, haspect⟩ | hdeferred := aspect_of_endsIn_readNamed hm
        · rw [haspect] at hm
          obtain ⟨values, hvalues, hmeaning⟩ := (endsIn_readNamed aspect).1 hm
          have hname : name = ⟨aspect.name⟩ := congrArg Symbol.mk haspect
          exact .evaluated (hname ▸ hform) hvalues hmeaning
        · rw [hdeferred] at hm
          obtain ⟨form, rfl, rfl, rfl⟩ := endsIn_readDeferral.1 hm
          have hname : name = ⟨"deferred-validation"⟩ := congrArg Symbol.mk hdeferred
          exact .deferred (hname ▸ hform)
      · exact (endsIn_wrongType hm).elim
      · exact (endsIn_fault hm).elim
    · exact (endsIn_wrongType h).elim
  · rintro (⟨hform, hvalues, hmeaning⟩ | ⟨hform⟩)
    · refine endsIn_bind.2 ⟨_, s, endsIn_listItems.2 ⟨hform, rfl⟩, ?_⟩
      exact (endsIn_readNamed _).2 ⟨_, hvalues, hmeaning⟩
    · refine endsIn_bind.2 ⟨_, s, endsIn_listItems.2 ⟨hform, rfl⟩, ?_⟩
      exact endsIn_readDeferral.2 ⟨_, rfl, rfl, rfl⟩

lemma ReadsAs.unique {m' : Modifier} {t' : State} (h : ReadsAs answer frame s form m t)
    (h' : ReadsAs answer frame s form m' t') : m = m' ∧ t = t' :=
  (endsIn_readModifier.2 h).unique (endsIn_readModifier.2 h')

/-! ### All modifiers of a field -/

/-- What several forms say one after the other, each of them read in a state with `P`, and the last
one leaving such a state. -/
inductive Given (answer : Answer) (frame : FrameId) (P : State → Prop) :
    State → List Value → List Modifier → State → Prop
  | nil {s : State} (hs : P s) : Given answer frame P s [] [] s
  | cons {s t u : State} {form : Value} {m : Modifier} {forms : List Value} {ms : List Modifier}
      (hs : P s) (hfirst : ReadsAs answer frame s form m t)
      (hrest : Given answer frame P t forms ms u) :
      Given answer frame P s (form :: forms) (m :: ms) u

/-- In any states. -/
abbrev Anywhere : State → Prop := fun _ => True

def Modifier.repetition? : Modifier → Option Nat
  | repetition count => some count
  | _ => none

def Modifier.restriction? : Modifier → Option Constraint
  | restriction constraint => some constraint
  | _ => none

def Modifier.deferral? : Modifier → Option Value
  | deferral form => some form
  | _ => none

/-- The field that modifiers describe. -/
def describe (name : Symbol) (type : FieldType) (ms : List Modifier) : DeviceField where
  name := name
  type := type
  repeatCount := (ms.filterMap Modifier.repetition?).getLast?.getD 1
  constraints := ms.filterMap Modifier.restriction?
  deferred := ms.filterMap Modifier.deferral?

/-- Modifiers are added to a field one by one. -/
lemma foldl_addTo (field : DeviceField) (ms : List Modifier) : ms.foldl Modifier.addTo field =
    { field with
      repeatCount := (ms.filterMap Modifier.repetition?).getLast?.getD field.repeatCount
      constraints := field.constraints ++ ms.filterMap Modifier.restriction?
      deferred := field.deferred ++ ms.filterMap Modifier.deferral? } := by
  induction ms generalizing field with
  | nil => simp
  | cons m rest ih =>
    rw [List.foldl_cons, ih]
    cases m with
    | repetition count =>
      simp [Modifier.addTo, List.filterMap_cons, Modifier.repetition?, Modifier.restriction?,
        Modifier.deferral?, List.getLast?_cons]
    | restriction constraint =>
      simp [Modifier.addTo, List.filterMap_cons, Modifier.repetition?, Modifier.restriction?,
        Modifier.deferral?]
    | deferral form =>
      simp [Modifier.addTo, List.filterMap_cons, Modifier.repetition?, Modifier.restriction?,
        Modifier.deferral?]

lemma foldl_addTo_nothing (name : Symbol) (type : FieldType) (ms : List Modifier) :
    ms.foldl Modifier.addTo ⟨name, type, 1, [], []⟩ = describe name type ms :=
  foldl_addTo ⟨name, type, 1, [], []⟩ ms

lemma endsIn_readModifiers {field field' : DeviceField} :
    (readModifiers frame field forms).EndsIn answer s field' t ↔
      ∃ ms, Given answer frame Anywhere s forms ms t ∧
        field' = ms.foldl Modifier.addTo field := by
  induction forms generalizing field s with
  | nil =>
    rw [readModifiers, endsIn_done]
    constructor
    · rintro ⟨rfl, rfl⟩
      exact ⟨[], .nil trivial, rfl⟩
    · rintro ⟨ms, ⟨⟩, rfl⟩
      exact ⟨rfl, rfl⟩
  | cons form rest ih =>
    simp only [readModifiers, endsIn_bind, endsIn_readModifier, ih]
    constructor
    · rintro ⟨m, u, hm, ms, hms, rfl⟩
      exact ⟨m :: ms, .cons trivial hm hms, rfl⟩
    · rintro ⟨ms, hgiven, rfl⟩
      cases hgiven with
      | cons hs hm hms => exact ⟨_, _, hm, _, hms, rfl⟩

/-- A positive number of repetitions, and no empty range. -/
def Modifier.Sound : Modifier → Prop
  | repetition count => 1 ≤ count
  | restriction (.range low high) => low.toInt ≤ high.toInt
  | _ => True

lemma ReadsAs.sound (h : ReadsAs answer frame s form m t) : m.Sound := by
  cases h with
  | evaluated hform hvalues hmeaning =>
    cases hmeaning with
    | @repetition n hpositive =>
      have hcount : 1 ≤ n.toInt.toNat := by omega
      exact hcount
    | range hle => exact hle
    | values | listed => trivial
  | deferred => trivial

lemma Given.sound {P : State → Prop} (h : Given answer frame P s forms ms t) :
    ∀ m ∈ ms, m.Sound := by
  induction h with
  | nil => nofun
  | cons _ hfirst _ ih => exact List.forall_mem_cons.2 ⟨hfirst.sound, ih⟩

/-! ### Making a field -/

lemma ofName?_eq_some_iff {text : String} {type : FieldType} :
    FieldType.ofName? text = some type ↔ text = type.name := by
  unfold FieldType.ofName?
  constructor
  · intro h
    split at h
    · next heq =>
      cases h
      exact heq
    · split at h
      · next heq =>
        cases h
        exact heq
      · split at h
        · next heq =>
          cases h
          exact heq
        · cases h
  · rintro rfl
    cases type <;> rfl

lemma endsIn_readType {value : Value} {type : FieldType} :
    (readType value).EndsIn answer s type t ↔ value = .sym ⟨type.name⟩ ∧ t = s := by
  constructor
  · intro h
    unfold readType at h
    split at h
    · next name =>
      split at h
      · next found hfound =>
        obtain ⟨rfl, rfl⟩ := endsIn_done.1 h
        exact ⟨congrArg (Value.sym ⟨·⟩) (ofName?_eq_some_iff.1 hfound), rfl⟩
      · exact (endsIn_fail h).elim
    · exact (endsIn_wrongType h).elim
  · rintro ⟨rfl, rfl⟩
    cases type <;> rfl

lemma isSome_word? (n : Int) : (Numeral.word? n).isSome = Numeral.inWord n := by
  unfold Numeral.word?
  split
  · next h => exact h.symm
  · next h => exact (Bool.eq_false_of_not_eq_true h).symm

/-- A field is made if its name and type are names, its modifiers say something and its size is a
word. -/
theorem endsIn_make : (make operands frame).EndsIn answer s v t ↔
    ∃ name type forms ms u, operands = .sym name :: .sym ⟨type.name⟩ :: forms ∧
      Given answer frame Anywhere s forms ms u ∧
      Numeral.inWord (type.width * (describe name type ms).repeatCount) = true ∧
      v = .object ⟨u.heap.objects.size⟩ ∧
      t = { u with
        heap := (u.heap.newObject ⟨DeviceField.tag, .field (describe name type ms)⟩).2 } := by
  constructor
  · intro h
    unfold make at h
    split at h
    · next name typeValue forms =>
      simp only [bind_eq_bind, endsIn_bind, endsIn_readType, endsIn_readModifiers] at h
      obtain ⟨type, _, ⟨rfl, rfl⟩, _, u, ⟨ms, hgiven, rfl⟩, hmade⟩ := h
      rw [foldl_addTo_nothing, endsIn_ite, isSome_word?] at hmade
      obtain ⟨hword, hobject⟩ := hmade
      obtain ⟨rfl, rfl⟩ := endsIn_perform.1 hobject
      exact ⟨name, type, forms, ms, u, rfl, hgiven, hword, rfl, rfl⟩
    · exact (endsIn_wrongType h).elim
    · exact (endsIn_fault h).elim
  · rintro ⟨name, type, forms, ms, u, rfl, hgiven, hword, rfl, rfl⟩
    simp only [make, bind_eq_bind, endsIn_bind, endsIn_readType, endsIn_readModifiers]
    refine ⟨type, s, ⟨rfl, rfl⟩, _, u, ⟨ms, hgiven, rfl⟩, ?_⟩
    rw [foldl_addTo_nothing, endsIn_ite, isSome_word?]
    exact ⟨hword, endsIn_perform.2 ⟨rfl, rfl⟩⟩

end DeviceFields

/-! ### Made fields -/

/-- A value is an object of the heap that is a field. -/
def Heap.HasField (h : Heap) (v : Value) (field : DeviceField) : Prop :=
  ∃ id, v = .object id ∧ h.objects[id.index]? = some ⟨DeviceField.tag, .field field⟩

/-- Fields never change. -/
lemma Heap.HasField.later {h h' : Heap} {v : Value} {field : DeviceField}
    (hfield : h.HasField v field) (hlater : h.Develops h') : h'.HasField v field := by
  obtain ⟨id, rfl, hobject⟩ := hfield
  obtain ⟨o, ho, rfl⟩ := hlater.objects _ _ hobject
  exact ⟨id, rfl, ho⟩

lemma Heap.HasField.unique {h : Heap} {v : Value} {field field' : DeviceField}
    (hfield : h.HasField v field) (hfield' : h.HasField v field') : field' = field := by
  obtain ⟨id, rfl, hobject⟩ := hfield
  obtain ⟨_, ⟨⟩, hobject'⟩ := hfield'
  rw [hobject] at hobject'
  cases hobject'
  rfl

/-- A repetition at least, no empty range, and a size that is exact and a word. -/
structure DeviceField.WellFormed (f : DeviceField) : Prop where
  repeats : 1 ≤ f.repeatCount
  ranges : ∀ low high, .range low high ∈ f.constraints → low.toInt ≤ high.toInt
  fits : f.type.width * f.repeatCount < 0x8000000000000000
  size : f.size = f.type.width * f.repeatCount

/-- The size of a well-formed field is a word. -/
lemma DeviceField.WellFormed.exists_size {f : DeviceField} (h : f.WellFormed) :
    ∃ size, Numeral.word? f.size = some size ∧
      size.toInt = f.type.width * f.repeatCount := by
  have hlt := h.fits
  have hword : Numeral.inWord f.size = true := by
    rw [h.size, Numeral.inWord_iff]
    omega
  refine ⟨Int64.ofInt f.size, if_pos hword, ?_⟩
  rw [Int64.toInt_ofInt_of_le, h.size, Int.natCast_mul] <;> rw [h.size] <;> omega

namespace DeviceFields

open Program

variable {answer : Answer} {frame : FrameId} {s t : State} {v : Value}

lemma wellFormed_describe {ms : List Modifier} (hsound : ∀ m ∈ ms, m.Sound) {name : Symbol}
    {type : FieldType}
    (hword : Numeral.inWord (type.width * (describe name type ms).repeatCount) = true) :
    (describe name type ms).WellFormed where
  repeats := by
    cases hlast : (ms.filterMap Modifier.repetition?).getLast? with
    | none => exact (congrArg (Option.getD · 1) hlast).ge
    | some count =>
      obtain ⟨m, hm, hcount⟩ := List.mem_filterMap.1 (List.mem_of_getLast? hlast)
      cases m with
      | repetition n =>
        cases hcount
        exact (hsound _ hm).trans_eq (congrArg (Option.getD · 1) hlast).symm
      | restriction | deferral => cases hcount
  ranges low high hmem := by
    obtain ⟨m, hm, hrange⟩ := List.mem_filterMap.1 hmem
    cases m with
    | restriction constraint =>
      cases hrange
      exact hsound _ hm
    | repetition | deferral => cases hrange
  fits := by
    have hlt := (Numeral.inWord_iff.1 hword).2
    change type.width * (describe name type ms).repeatCount < 0x8000000000000000
    omega
  size := by
    have hlt := (Numeral.inWord_iff.1 hword).2
    have hle : type.width * (describe name type ms).repeatCount ≤ Numeral.countLimit - 1 := by
      unfold Numeral.countLimit
      omega
    exact Nat.min_eq_left hle

lemma expectField_run {field : DeviceField} (hfield : s.heap.HasField v field) (name : String) :
    (expectField name v).run s = .stop (.ok field) s := by
  obtain ⟨id, rfl, hobject⟩ := hfield
  have hfound : s.heap.object id = ⟨DeviceField.tag, .field field⟩ := by
    rw [Heap.object, Array.getD_eq_getD_getElem?, hobject]
    rfl
  rw [expectField, run_look, hfound]
  rfl

/-- The size of a field whose size is a word is told as it is. -/
lemma fieldSize_run {field : DeviceField} (hfield : s.heap.HasField v field) {size : Int64}
    (hsize : Numeral.word? field.size = some size) :
    (fieldSize v).run s = .stop (.ok (.int size)) s := by
  rw [fieldSize, bind_eq_bind, run_bind, Run.bind_apply, expectField_run hfield,
    Plan.bind_stop_ok, hsize]
  rfl

end DeviceFields

namespace Machine

open DeviceFields

variable {m : Machine} {p : Primitive} {fuel : Nat} {operands : List Value} {frame : FrameId}
  {s t : State} {v : Value}

lemma perform_make (hp : m.IsStandard p "def-field") :
    m.perform (fuel + 1) (.call (.primitive p) operands frame) s = (.ok v, t) ↔
      (make operands frame).EndsIn (m.perform fuel) s v t := by
  have hcarries : m.Carries p (.form "def-field" (.atLeast 2) make) := hp.carries rfl
  rw [perform_succ, serve_call hcarries (.call operands)]
  change ((Native.invoked _ operands frame).run s).execute _ = _ ↔ _
  unfold Native.invoked
  split
  · rfl
  · next hfew =>
    refine iff_of_false nofun fun h => hfew ?_
    obtain ⟨name, type, forms, ms, u, rfl, -⟩ := endsIn_make.1 h
    exact decide_eq_true (Nat.le_add_left 2 forms.length)

/-- If the form that makes fields returns, it has made the field that its modifiers describe. -/
lemma exists_made (hp : m.IsStandard p "def-field")
    (hmade : m.perform (fuel + 1) (.call (.primitive p) operands frame) s = (.ok v, t)) :
    ∃ name type forms ms u, operands = .sym name :: .sym ⟨type.name⟩ :: forms ∧
      Given (m.perform fuel) frame Anywhere s forms ms u ∧
      t.heap.HasField v (describe name type ms) ∧ (describe name type ms).WellFormed := by
  obtain ⟨name, type, forms, ms, u, rfl, hgiven, hword, rfl, rfl⟩ :=
    endsIn_make.1 ((perform_make hp).1 hmade)
  exact ⟨name, type, forms, ms, u, rfl, hgiven, ⟨_, rfl, Array.getElem?_push_size⟩,
    wellFormed_describe hgiven.sound hword⟩

/-- Every field that is made is well formed. It describes what its modifiers say, one after the
other, and so it has the last repetition among them. Every state after that has the same field,
which tells its exact size there. -/
theorem made_field_wellFormed (hp : m.IsStandard p "def-field")
    (hmade : m.perform (fuel + 1) (.call (.primitive p) operands frame) s = (.ok v, t)) :
    ∃ (field : DeviceField) (forms : List Value) (ms : List Modifier) (u : State),
      operands = .sym field.name :: .sym ⟨field.type.name⟩ :: forms ∧
      Given (m.perform fuel) frame Anywhere s forms ms u ∧
      t.heap.HasField v field ∧ field.WellFormed ∧
      field.repeatCount = (ms.filterMap Modifier.repetition?).getLast?.getD 1 ∧
      ∀ (q : Primitive) (r : Request) (outer : FrameId) (n : Nat) (a b : State),
        m.IsStandard q "field-size" → r.IsCall q outer → r.Enters (m.perform n) a [v] b →
        t.heap.Develops b.heap →
        ∃ size : Int64, size.toInt = field.type.width * field.repeatCount ∧
          m.perform (n + 1) r a = (.ok (.int size), b) := by
  obtain ⟨name, type, forms, ms, u, rfl, hgiven, hfield, hwellFormed⟩ := exists_made hp hmade
  refine ⟨describe name type ms, forms, ms, u, rfl, hgiven, hfield, hwellFormed, rfl, ?_⟩
  intro q r outer n a b hq hr henters hlater
  have hcarries : m.Carries q (.fixed "field-size" [.any] fieldSize) := hq.carries rfl
  obtain ⟨size, hsize, hvalue⟩ := hwellFormed.exists_size
  refine ⟨size, hvalue, ?_⟩
  rw [perform_succ, serve_call hcarries hr, execute_of_enters rfl hr rfl henters]
  change ((fieldSize v).run b).execute _ = _
  rw [fieldSize_run (hfield.later hlater) hsize]
  rfl

end Machine

namespace Interpreter

/-- The primitive that makes fields. -/
def fieldPrimitive : Primitive := ⟨104, "def-field", .atLeast 2, .specialForm⟩

def fieldSizePrimitive : Primitive := ⟨106, "field-size", .exactly 1, .function⟩

/-- An interpreter with three modifiers: `(repeat 3)`, `(range 1 9)` and `(repeat 5)`. -/
def modified : Interpreter :=
  (full .standard).changeHeap fun h =>
    [[.sym ⟨"repeat"⟩, .int 3], [.sym ⟨"range"⟩, .int 1, .int 9], [.sym ⟨"repeat"⟩, .int 5]].foldl
      (fun h items => (h.newChain items .nil).2) h

/-- A field of two bytes with these modifiers. -/
def repeatedField : Request :=
  .call (.primitive fieldPrimitive)
    [.sym ⟨"f"⟩, .sym ⟨"uint16"⟩, .pair ⟨1⟩, .pair ⟨4⟩, .pair ⟨6⟩] .global

/-- The last repetition counts, so the field has ten bytes. -/
theorem made_field_wellFormed_repeated :
    modified.machine.IsStandard fieldPrimitive "def-field" ∧
      ∃ t, modified.machine.perform 2 repeatedField modified.state = (.ok (.object ⟨0⟩), t) ∧
        ∃ (field : DeviceField) (size : Int64), t.heap.HasField (.object ⟨0⟩) field ∧
          field.WellFormed ∧ field.repeatCount = 5 ∧ size.toInt = 10 ∧
          modified.machine.perform 1
            (.apply (.primitive fieldSizePrimitive) [.object ⟨0⟩] .global) t =
              (.ok (.int size), t) := by
  have hp : modified.machine.IsStandard fieldPrimitive "def-field" :=
    ⟨_, List.mem_of_getElem? (i := 104) rfl, rfl, rfl, rfl⟩
  have hq : modified.machine.IsStandard fieldSizePrimitive "field-size" :=
    ⟨_, List.mem_of_getElem? (i := 106) rfl, rfl, rfl, rfl⟩
  have hvalue : (modified.machine.perform 2 repeatedField modified.state).1 =
      .ok (.object ⟨0⟩) := by decide +kernel
  have hobjects : (modified.machine.perform 2 repeatedField modified.state).2.heap.objects =
      #[⟨DeviceField.tag, .field ⟨⟨"f"⟩, .uint16, 5, [.range 1 9], []⟩⟩] := by decide +kernel
  generalize hmade : modified.machine.perform 2 repeatedField modified.state = outcome
    at hvalue hobjects
  obtain ⟨result, t⟩ := outcome
  cases hvalue
  obtain ⟨field, forms, ms, u, -, -, hfield, hwellFormed, -, hsize⟩ :=
    Machine.made_field_wellFormed hp hmade
  obtain ⟨id, hid, hobject⟩ := id hfield
  cases hid
  rw [hobjects] at hobject
  cases hobject
  obtain ⟨size, htotal, hanswer⟩ := hsize fieldSizePrimitive
    (.apply (.primitive fieldSizePrimitive) [.object ⟨0⟩] .global) .global 0 _ _ hq (.apply _)
    ⟨rfl, rfl⟩ (.refl _)
  exact ⟨hp, t, rfl, _, size, hfield, hwellFormed, rfl, htotal, hanswer⟩

end Interpreter

end HostedLisp
