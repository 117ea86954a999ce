import HostedLisp.Form
import HostedLisp.Library.Debugging
import HostedLisp.Library.DeviceFields
import HostedLisp.Proofs.Library.DirectFunctions

/-!
# Forms in direct steps

Device fields take the parts of a form by position once they have counted them. With them all
primitives that do something directly are known: `Direct.bodies` is the table of what they do, and
each of them does the same as the primitive of its name, `Direct.body_follows`.
-/

namespace HostedLisp

open Program Native

namespace Direct

/-! ### Device fields -/

section Fields

open DeviceFields

variable {frame : FrameId}

/-- Insists on a number of operands of a modifier. -/
def expectCount (modifier : String) (operands : List Value) (arity : Arity) : Program Unit :=
  if arity.accepts operands.length then done ()
  else fail (.arity arity operands.length (some modifier))

def readRepetition (operands : List Value) (frame : FrameId) : Program Modifier := do
  expectCount "repeat" operands (.exactly 1)
  let expr ← item operands 0
  let count ← evalInteger expr frame
  if 1 ≤ count.toInt then pure (.repetition count.toInt.toNat)
  else fail (.domain s!"repeat needs a positive count, but got {count.toInt}")

def readRange (operands : List Value) (frame : FrameId) : Program Modifier := do
  expectCount "range" operands (.exactly 2)
  let lowExpr ← item operands 0
  let low ← evalInteger lowExpr frame
  let highExpr ← item operands 1
  let high ← evalInteger highExpr frame
  if low.toInt ≤ high.toInt then pure (.restriction (.range low high))
  else fail (.domain s!"range needs low <= high, but got {low.toInt} and {high.toInt}")

/-- The items of a single list, other values as they are. -/
def spread (values : List Value) : Program (List Value) :=
  if values.length = 1 then
    (item values 0).bind fun value =>
      match value with
      | .pair _ => listItems value
      | _ => done values
  else done values

def readValues (operands : List Value) (frame : FrameId) : Program Modifier := do
  expectCount "values" operands (.atLeast 1)
  let values ← evalAll operands frame
  let values ← spread values
  let allowed ← Param.int.convertAll values
  pure (.restriction (.values allowed))

def readDeferral (operands : List Value) : Program Modifier := do
  expectCount "deferred-validation" operands (.exactly 1)
  let form ← item operands 0
  pure (.deferral form)

def readNamed (name : String) (operands : List Value) (frame : FrameId) : Program Modifier :=
  match name with
  | "repeat" => readRepetition operands frame
  | "range" => readRange operands frame
  | "values" => readValues operands frame
  | "deferred-validation" => readDeferral operands
  | _ => fail (.eval s!"Unknown def-field modifier: {name}")

def readModifier (form : Value) (frame : FrameId) : Program Modifier :=
  match form with
  | .pair _ => do
    let parts ← listItems form
    let head ← item parts 0
    match head with
    | .sym name => do
      let operands ← itemsFrom parts 1
      readNamed name.name operands frame
    | _ => wrongType "def-field modifier needs a name, but got " head
  | _ => wrongType "def-field modifiers are lists, but got " form

def readModifiers (frame : FrameId) (field : DeviceField) : List Value → Program DeviceField
  | [] => done field
  | form :: rest =>
    (readModifier form frame).bind fun modifier =>
      readModifiers frame (modifier.addTo field) rest

def make : Body := fun operands frame => do
  let first ← item operands 0
  match first with
  | .sym name => do
    let typeName ← item operands 1
    let type ← readType typeName
    let modifiers ← itemsFrom operands 2
    let field ← readModifiers frame ⟨name, type, 1, [], []⟩ modifiers
    if (Numeral.word? (field.type.width * field.repeatCount)).isSome then
      perform (.object ⟨DeviceField.tag, .field field⟩)
    else
      fail (.domain (s!"def-field {name.name}: {field.repeatCount} repeats of " ++
        s!"{field.type.name} is too large"))
  | _ => wrongType "def-field needs a field name, but got " first

def validateDeferred (value : Int64) (frame : FrameId) : List Value → Program Bool
  | [] => done true
  | form :: rest =>
    (readModifier form frame).bind fun modifier =>
      match modifier with
      | .restriction constraint =>
        if constraint.accepts value then validateDeferred value frame rest else done false
      | _ =>
        look fun h =>
          fail (.eval ("deferred-validation needs a range or values modifier, but got " ++
            h.render form))

def validate (field : DeviceField) (value : Int64) (frame : FrameId) : Program Bool :=
  if field.type.holds value && field.constraints.all (·.accepts value) then
    validateDeferred value frame field.deferred
  else done false

def validateField : Body := fun args frame => do
  let field ← item args 0
  let field ← expectField "validate-field" field
  let value ← item args 1
  let value ← Param.int.convert value
  let verdict ← validate field value frame
  pure (.bool verdict)

def fieldSize : Body := fun args _ => (item args 0).bind DeviceFields.fieldSize

lemma readRepetition_eq (operands : List Value) :
    readRepetition operands frame = DeviceFields.readRepetition operands frame := by
  match operands with
  | [] | [expr] | _ :: _ :: _ =>
    simp [readRepetition, DeviceFields.readRepetition, expectCount, Arity.accepts, Program.bind]

lemma readRange_eq (operands : List Value) :
    readRange operands frame = DeviceFields.readRange operands frame := by
  match operands with
  | [] | [_] | [_, _] | _ :: _ :: _ :: _ =>
    simp [readRange, DeviceFields.readRange, expectCount, Arity.accepts, Program.bind]

lemma readDeferral_eq (operands : List Value) :
    readDeferral operands = DeviceFields.readDeferral operands := by
  match operands with
  | [] | [_] | _ :: _ :: _ =>
    simp [readDeferral, DeviceFields.readDeferral, expectCount, Arity.accepts, Program.bind]

lemma spread_eq (values : List Value) : spread values =
    match values with
    | [.pair id] => listItems (.pair id)
    | _ => done values := by
  match values with
  | [] | _ :: _ :: _ => simp [spread]
  | [value] => cases value <;> rfl

lemma readValues_eq (operands : List Value) :
    readValues operands frame = DeviceFields.readValues operands frame := by
  cases operands with
  | nil => rfl
  | cons expr rest =>
    have hcount : expectCount "values" (expr :: rest) (.atLeast 1) = done () := by
      simp [expectCount, Arity.accepts]
    simp only [readValues, DeviceFields.readValues, hcount, bind_eq_bind, done_bind,
      List.isEmpty_cons, Bool.false_eq_true, if_false, spread_eq]
    refine congrArg (Program.bind _) (funext fun values => ?_)
    cases values with
    | nil => rfl
    | cons value others => cases value <;> cases others <;> rfl

lemma readNamed_eq (name : String) (operands : List Value) :
    readNamed name operands frame = DeviceFields.readNamed name operands frame := by
  simp only [readNamed, readRepetition_eq, readRange_eq, readValues_eq, readDeferral_eq]
  rfl

/-- A form that is a list has a first part, or else neither reading comes to its end. -/
lemma readModifier_eq (form : Value) :
    readModifier form frame = DeviceFields.readModifier form frame := by
  cases form with
  | pair id =>
    refine congrArg (Program.bind (listItems (.pair id))) (funext fun parts => ?_)
    cases parts with
    | nil => rfl
    | cons head operands =>
      cases head with
      | sym name => exact readNamed_eq name.name operands
      | _ => rfl
  | _ => rfl

lemma readModifiers_eq (field : DeviceField) (forms : List Value) :
    readModifiers frame field forms = DeviceFields.readModifiers frame field forms := by
  induction forms generalizing field with
  | nil => rfl
  | cons form rest ih => simp only [readModifiers, DeviceFields.readModifiers, readModifier_eq, ih]

lemma validateDeferred_eq (value : Int64) (forms : List Value) :
    validateDeferred value frame forms = DeviceFields.validateDeferred value frame forms := by
  induction forms with
  | nil => rfl
  | cons form rest ih =>
    simp only [validateDeferred, readModifier_eq, ih]
    rfl

lemma make_follows : Follows make (.form "def-field" (.atLeast 2) DeviceFields.make) := by
  intro operands frame haccepts
  match operands, haccepts with
  | first :: type :: modifiers, _ =>
    simp only [make, form, item_zero_cons, item_one_cons, itemsFrom_two_cons, bind_eq_bind,
      done_bind, readModifiers_eq]
    cases first <;> rfl

lemma validateField_follows :
    Follows validateField (.function "validate-field" (.exactly 2) DeviceFields.validateField) := by
  intro args frame haccepts
  match args, haccepts with
  | [field, value], _ =>
    simp only [validateField, DeviceFields.validateField, validate, DeviceFields.validate, function,
      item_zero_cons, item_one_cons, bind_eq_bind, done_bind, validateDeferred_eq]

lemma fieldSize_follows :
    Follows fieldSize (.fixed "field-size" [.any] DeviceFields.fieldSize) := by
  intro args frame haccepts
  match args, haccepts with
  | [value], _ => rfl

end Fields

/-! ### The table -/

open Arithmetic Sequence

/-- A comparison of neighbours. -/
def comparison (relation : Ordering → Bool) : Body :=
  numericBody [.number] fun first rest => giveBool (ordered relation first rest)

/-- What the primitives of these names do, step by step. The others take nothing for granted. -/
def bodies : List (String × Body) := [
  ("+", numericBody [] fun ns => give (addFrom (.int 0) ns)),
  ("*", numericBody [] fun ns => give (mulFrom (.int 1) ns)),
  ("-", numericBody [.number] fun first rest => give (subtract first rest)),
  ("/", numericBody [.number] fun first rest => give (divFrom first rest)),
  ("modulo", fixedBody [.int, .int] modulo),
  ("max", numericBody [.number] fun first rest => give (.ok (greatest first rest))),
  ("min", numericBody [.number] fun first rest => give (.ok (least first rest))),
  ("=", comparison (· == .eq)),
  ("<", comparison (· == .lt)),
  (">", comparison (· == .gt)),
  ("<=", comparison (· != .gt)),
  (">=", comparison (· != .lt)),
  ("even?", fixedBody [.int] (parity (· == 0))),
  ("odd?", fixedBody [.int] (parity (· != 0))),
  ("nth", fixedBody [.any, .int] nth),
  ("first", fixedBody [.any] (position "first" 0)),
  ("second", fixedBody [.any] (position "second" 1)),
  ("third", fixedBody [.any] (position "third" 2)),
  ("map", mapping "map" ofAny),
  ("for-each", iteration "for-each" ofAny),
  ("filter", selection "filter" true ofAny),
  ("remove", selection "remove" false ofAny),
  ("reduce", reduction "reduce" ofAny),
  ("find", search "find" ofAny),
  ("sort", sorting "sort" ofAny),
  ("make-initialized-vector", makeInitialized),
  ("vector-ref", fixedBody [.any, .int] (ref "vector-ref")),
  ("vector-set!", fixedBody [.any, .int, .any] set),
  ("vector-first", fixedBody [.any] fun value => ref "vector-first" value 0),
  ("vector-second", fixedBody [.any] fun value => ref "vector-second" value 1),
  ("vector-third", fixedBody [.any] fun value => ref "vector-third" value 2),
  ("vector-fourth", fixedBody [.any] fun value => ref "vector-fourth" value 3),
  ("vector-fifth", fixedBody [.any] fun value => ref "vector-fifth" value 4),
  ("vector-sixth", fixedBody [.any] fun value => ref "vector-sixth" value 5),
  ("vector-seventh", fixedBody [.any] fun value => ref "vector-seventh" value 6),
  ("vector-eighth", fixedBody [.any] fun value => ref "vector-eighth" value 7),
  ("vector-ninth", fixedBody [.any] fun value => ref "vector-ninth" value 8),
  ("vector-tenth", fixedBody [.any] fun value => ref "vector-tenth" value 9),
  ("subvector", fixedBody [.any, .int, .int] subvector),
  ("vector-head", fixedBody [.any, .int] head),
  ("vector-tail", fixedBody [.any, .int] tail),
  ("subvector-fill!", fixedBody [.any, .int, .int, .any] fillSlice),
  ("subvector-move-left!",
    fixedBody [.any, .int, .int, .any, .int] (move "subvector-move-left!" false)),
  ("subvector-move-right!",
    fixedBody [.any, .int, .int, .any, .int] (move "subvector-move-right!" true)),
  ("vector-map", mapping "vector-map" ofVector),
  ("vector-for-each", iteration "vector-for-each" ofVector),
  ("vector-reduce", reduction "vector-reduce" ofVector),
  ("vector-filter", selection "vector-filter" true ofVector),
  ("vector-remove", selection "vector-remove" false ofVector),
  ("vector-find", search "vector-find" ofVector),
  ("vector-sort", sorting "vector-sort" ofVector),
  ("vector-sort!", sortInPlace),
  ("def-field", make),
  ("validate-field", validateField),
  ("field-size", fieldSize)
]

/-- What a primitive does step by step. -/
def body (n : Native) : Body := (bodies.lookup n.name).getD n.body

lemma body_follows_of_lookup {n : Native} {b : Body} (h : bodies.lookup n.name = some b)
    (hb : Follows b n) : Follows (body n) n := by
  rw [body, h]
  exact hb

lemma body_follows_of_none {n : Native} (h : bodies.lookup n.name = none) :
    Follows (body n) n := by
  rw [body, h]
  exact fun _ _ _ => rfl

lemma parity_follows {name : String} {holds : Int64 → Bool} {holds' : Int64 → Bool}
    (h : ∀ n : Int64, holds (Int64.ofInt (n.toInt.tmod 2)) = holds' n) :
    Follows (fixedBody [.int] (parity holds))
      (.fixed name [.int] fun n => giveBool (holds' n)) := by
  refine fixed_follows fun n => ?_
  simp only [parity, remWords_two, done_bind, h]
  rfl

lemma ref_follows {name : String} {index : Nat} :
    Follows (fixedBody [.any] fun value => ref name value (Int64.ofNat index))
      (Vectors.position name index) :=
  fixed_follows fun value => congrArg Program.run (ref_eq value _)

lemma form_body_follows : ∀ n ∈ Form.core, Follows (body n) n := by
  simp only [Form.core, List.forall_mem_cons]
  refine ⟨?_, ?_, ?_, ?_, ?_, ?_, ?_, ?_, ?_, ?_, nofun⟩
  all_goals exact body_follows_of_none rfl

lemma debugging_body_follows : ∀ n ∈ Debugging.library, Follows (body n) n := by
  simp only [Debugging.library, List.forall_mem_cons]
  refine ⟨?_, ?_, ?_, ?_, nofun⟩
  all_goals exact body_follows_of_none rfl

lemma arithmetic_body_follows : ∀ n ∈ Arithmetic.library, Follows (body n) n := by
  simp only [Arithmetic.library, List.forall_mem_cons]
  refine ⟨?_, ?_, ?_, ?_, ?_, ?_, ?modulo, ?_, ?_, ?_, ?_, ?_, ?_, ?_, ?_, ?_, ?_, ?_, ?_, ?_,
    ?even, ?odd, nofun⟩
  case modulo =>
    exact body_follows_of_lookup rfl (fixed_follows fun a b => congrArg Program.run (modulo_eq a b))
  case even => exact body_follows_of_lookup rfl (parity_follows ofInt_tmod_two)
  case odd =>
    exact body_follows_of_lookup rfl (parity_follows fun n => congrArg (!·) (ofInt_tmod_two n))
  all_goals first
    | exact body_follows_of_lookup rfl numericBody_follows
    | exact body_follows_of_none rfl

lemma lists_body_follows : ∀ n ∈ Lists.library, Follows (body n) n := by
  simp only [Lists.library, List.forall_mem_cons]
  refine ⟨?_, ?_, ?_, ?_, ?_, ?_, ?_, ?_, ?_, ?nth, ?_, ?_, ?_, ?_, ?_, ?_, ?_, ?_, ?_, ?_, ?_,
    ?_, ?_, ?_, ?_, ?map, ?forEach, ?filter, ?remove, ?reduce, ?find, ?sort, nofun⟩
  case nth =>
    exact body_follows_of_lookup rfl
      (fixed_follows fun seq index => congrArg Program.run (nth_eq seq index))
  case map => exact body_follows_of_lookup rfl mapping_follows
  case forEach => exact body_follows_of_lookup rfl iteration_follows
  case filter => exact body_follows_of_lookup rfl selection_follows
  case remove => exact body_follows_of_lookup rfl selection_follows
  case reduce => exact body_follows_of_lookup rfl reduction_follows
  case find => exact body_follows_of_lookup rfl search_follows
  case sort => exact body_follows_of_lookup rfl sorting_follows
  all_goals first
    | exact body_follows_of_lookup rfl position_follows
    | exact body_follows_of_none rfl

lemma vectors_body_follows : ∀ n ∈ Vectors.library, Follows (body n) n := by
  simp only [Vectors.library, List.forall_mem_cons]
  refine ⟨?_, ?_, ?_, ?_, ?_, ?initialized, ?_, ?_, ?_, ?ref, ?set, ?_, ?_, ?_, ?_, ?_, ?_, ?_, ?_,
    ?_, ?_, ?subvector, ?head, ?tail, ?_, ?fill, ?moveLeft, ?moveRight, ?map, ?forEach, ?reduce,
    ?filter, ?remove, ?find, ?sort, ?sortInPlace, nofun⟩
  case initialized => exact body_follows_of_lookup rfl makeInitialized_follows
  case ref =>
    exact body_follows_of_lookup rfl
      (fixed_follows fun value index => congrArg Program.run (ref_eq value index))
  case set =>
    exact body_follows_of_lookup rfl (fixed_follows fun value index new => run_set value new index)
  case subvector =>
    exact body_follows_of_lookup rfl
      (fixed_follows fun value start finish => congrArg Program.run (subvector_eq value start finish))
  case head =>
    exact body_follows_of_lookup rfl
      (fixed_follows fun value finish => congrArg Program.run (head_eq value finish))
  case tail =>
    exact body_follows_of_lookup rfl
      (fixed_follows fun value start => congrArg Program.run (tail_eq value start))
  case fill =>
    exact body_follows_of_lookup rfl
      (fixed_follows fun value start finish new => run_fillSlice value new start finish)
  case moveLeft => exact body_follows_of_lookup rfl move_follows
  case moveRight => exact body_follows_of_lookup rfl move_follows
  case map => exact body_follows_of_lookup rfl mapping_follows
  case forEach => exact body_follows_of_lookup rfl iteration_follows
  case reduce => exact body_follows_of_lookup rfl reduction_follows
  case filter => exact body_follows_of_lookup rfl selection_follows
  case remove => exact body_follows_of_lookup rfl selection_follows
  case find => exact body_follows_of_lookup rfl search_follows
  case sort => exact body_follows_of_lookup rfl sorting_follows
  case sortInPlace => exact body_follows_of_lookup rfl sortInPlace_follows
  all_goals first
    | exact body_follows_of_lookup rfl ref_follows
    | exact body_follows_of_none rfl

lemma fields_body_follows : ∀ n ∈ DeviceFields.library, Follows (body n) n := by
  simp only [DeviceFields.library, List.forall_mem_cons]
  refine ⟨?_, ?_, ?_, nofun⟩
  · exact body_follows_of_lookup rfl make_follows
  · exact body_follows_of_lookup rfl validateField_follows
  · exact body_follows_of_lookup rfl fieldSize_follows

end Direct

end HostedLisp
