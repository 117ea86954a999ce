import HostedLisp.Operation

/-!
# Device fields in programs

A form that describes a field by its name, its type and modifiers, and primitives that use the
description. The arguments of modifiers are evaluated when the field is made, those of deferred
modifiers whenever a value is validated. Main definitions: `readModifier`, `make`, `validate`.
-/

namespace HostedLisp.DeviceFields

open Program

/-- What a modifier says about a field. -/
inductive Modifier where
  | repetition (count : Nat)
  | restriction (constraint : Constraint)
  | deferral (form : Value)
deriving DecidableEq, Repr

/-- The value of an expression that has to be an integer. -/
def evalInteger (expr : Value) (frame : FrameId) : Program Int64 :=
  (eval expr frame).bind Param.int.convert

/-- How often a field is repeated. -/
def readRepetition (operands : List Value) (frame : FrameId) : Program Modifier :=
  match operands with
  | [expr] => do
    let count ← evalInteger expr frame
    if 1 ≤ count.toInt then pure (.repetition count.toInt.toNat)
    else fail (.domain s!"repeat needs a positive count, but got {count.toInt}")
  | _ => fail (.arity (.exactly 1) operands.length (some "repeat"))

/-- The least and the greatest value that are allowed. -/
def readRange (operands : List Value) (frame : FrameId) : Program Modifier :=
  match operands with
  | [lowExpr, highExpr] => do
    let low ← evalInteger lowExpr frame
    let high ← evalInteger highExpr frame
    if low.toInt ≤ high.toInt then pure (.restriction (.range low high))
    else fail (.domain s!"range needs low <= high, but got {low.toInt} and {high.toInt}")
  | _ => fail (.arity (.exactly 2) operands.length (some "range"))

/-- The values that are allowed, one by one or in a single list. -/
def readValues (operands : List Value) (frame : FrameId) : Program Modifier := do
  if operands.isEmpty then fail (.arity (.atLeast 1) 0 (some "values"))
  else
    let values ← evalAll operands frame
    let values ← match values with
      | [.pair id] => listItems (.pair id)
      | _ => pure values
    let allowed ← Param.int.convertAll values
    pure (.restriction (.values allowed))

/-- A modifier that is left for the time of validation. -/
def readDeferral (operands : List Value) : Program Modifier :=
  match operands with
  | [form] => done (.deferral form)
  | _ => fail (.arity (.exactly 1) operands.length (some "deferred-validation"))

/-- What the modifier of a name says, given its operands. -/
def readNamed (name : String) (operands : List Value) (frame : FrameId) : Program Modifier :=
  match name with
  | "repeat" => readRepetition operands frame
  | "range" => readRange operands frame
  | "values" => readValues operands frame
  | "deferred-validation" => readDeferral operands
  | _ => fail (.eval s!"Unknown def-field modifier: {name}")

/-- What a form says as a modifier. -/
def readModifier (form : Value) (frame : FrameId) : Program Modifier :=
  match form with
  | .pair _ =>
    (listItems form).bind fun parts =>
      match parts with
      | .sym name :: operands => readNamed name.name operands frame
      | other :: _ => wrongType "def-field modifier needs a name, but got " other
      | [] => fault
  | _ => wrongType "def-field modifiers are lists, but got " form

/-- A field with one more modifier. The last repetition counts, restrictions add up. -/
def Modifier.addTo (field : DeviceField) : Modifier → DeviceField
  | repetition count => { field with repeatCount := count }
  | restriction constraint => { field with constraints := field.constraints ++ [constraint] }
  | deferral form => { field with deferred := field.deferred ++ [form] }

/-- A field with further modifiers. -/
def readModifiers (frame : FrameId) (field : DeviceField) : List Value → Program DeviceField
  | [] => done field
  | form :: rest =>
    (readModifier form frame).bind fun modifier =>
      readModifiers frame (modifier.addTo field) rest

/-- The type of a field that is called by its name. -/
def readType (value : Value) : Program FieldType :=
  match value with
  | .sym name =>
    match FieldType.ofName? name.name with
    | some type => done type
    | none => fail (.domain s!"Unknown field type: {name.name}")
  | _ => wrongType "def-field needs a type name, but got " value

/-- Makes a field. The number of its bytes is an integer that programs can see. -/
def make : Body := fun operands frame =>
  match operands with
  | .sym name :: type :: modifiers => do
    let type ← readType type
    let field ← readModifiers frame ⟨name, type, 1, [], []⟩ modifiers
    if (Numeral.word? (field.type.width * field.repeatCount)).isSome then
      perform (.object ⟨DeviceField.tag, .field field⟩)
    else
      fail (.domain (s!"def-field {name.name}: {field.repeatCount} repeats of " ++
        s!"{field.type.name} is too large"))
  | other :: _ :: _ => wrongType "def-field needs a field name, but got " other
  | _ => fault

/-- The field that an argument is. -/
def expectField (name : String) (value : Value) : Program DeviceField :=
  match value with
  | .object id =>
    look fun h =>
      if (h.object id).tag = DeviceField.tag then
        match (h.object id).payload with
        | .field field => done field
        | _ => fail (.type s!"{name}: malformed device field")
      else wrongType s!"{name} needs a device field, but got " value
  | _ => wrongType s!"{name} needs a device field, but got " value

/-- Whether deferred modifiers allow a value. The first that does not ends the validation. -/
def validateDeferred (value : Int64) (frame : FrameId) : List Value → Program Bool
  | [] => done true
  | form :: rest =>
    (readModifier form frame).bind fun modifier =>
      match modifier with
      | .restriction constraint =>
        if constraint.accepts value then validateDeferred value frame rest else done false
      | _ =>
        look fun h =>
          fail (.eval ("deferred-validation needs a range or values modifier, but got " ++
            h.render form))

/-- Whether a field may hold a value. Nothing is evaluated for a value that the width or a
restriction excludes. -/
def validate (field : DeviceField) (value : Int64) (frame : FrameId) : Program Bool :=
  if field.type.holds value && field.constraints.all (·.accepts value) then
    validateDeferred value frame field.deferred
  else done false

/-- Whether a field may hold a value, as a primitive. -/
def validateField : Body := fun args frame =>
  match args with
  | [field, value] => do
    let field ← expectField "validate-field" field
    let value ← Param.int.convert value
    let verdict ← validate field value frame
    pure (.bool verdict)
  | _ => fault

def fieldSize (value : Value) : Program Value := do
  let field ← expectField "field-size" value
  match Numeral.word? field.size with
  | some size => pure (.int size)
  | none => fail (.domain "field size overflow")

/-- The form and the primitives on device fields. -/
def library : List Native := [
  .form "def-field" (.atLeast 2) make,
  .function "validate-field" (.exactly 2) validateField,
  .fixed "field-size" [.any] fieldSize
]

end HostedLisp.DeviceFields
