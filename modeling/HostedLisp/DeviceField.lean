import HostedLisp.Value

/-!
# Device fields

A device field describes one field of a binary record: its width, how often it is repeated and
which values it may hold. Restrictions that are deferred are kept as expressions and evaluated
whenever a value is validated.
-/

namespace HostedLisp

/-- The unsigned integers that a field may hold. -/
inductive FieldType where
  | uint8
  | uint16
  | uint32
deriving DecidableEq, Repr, Inhabited

namespace FieldType

def name : FieldType → String
  | uint8 => "uint8"
  | uint16 => "uint16"
  | uint32 => "uint32"

/-- The field type of that name. -/
def ofName? (text : String) : Option FieldType :=
  if text = "uint8" then some uint8
  else if text = "uint16" then some uint16
  else if text = "uint32" then some uint32
  else none

def width : FieldType → Nat
  | uint8 => 1
  | uint16 => 2
  | uint32 => 4

/-- Whether a value fits the width. -/
def holds (type : FieldType) (value : Int64) : Bool :=
  0 ≤ value.toInt && value.toInt < Nat.pow 256 type.width

end FieldType

/-- A restriction on the values of a field. -/
inductive Constraint where
  | range (low high : Int64)
  | values (allowed : List Int64)
deriving DecidableEq, Repr

def Constraint.accepts : Constraint → Int64 → Bool
  | range low high, value => low.toInt ≤ value.toInt && value.toInt ≤ high.toInt
  | values allowed, value => allowed.contains value

structure DeviceField where
  name : Symbol
  type : FieldType
  repeatCount : Nat
  constraints : List Constraint
  deferred : List Value
deriving DecidableEq, Repr

namespace DeviceField

/-- The tag of the host objects that are device fields. -/
def tag : String := "device-field"

/-- The bytes that all repetitions occupy, at most the largest count. -/
def size (f : DeviceField) : Nat :=
  min (f.type.width * f.repeatCount) (Numeral.countLimit - 1)

end DeviceField

end HostedLisp
