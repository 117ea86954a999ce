import HostedLisp.Arity
import HostedLisp.Decimal.Basic
import HostedLisp.Symbol

/-!
# Values

A value is an atom or a handle. Pairs, vectors, closures, frames and host objects live in the
heap; a handle to one is its number there, so two values are the same object exactly when their
handles are equal. Primitives never change and carry all that a program can see of them.
-/

namespace HostedLisp

structure CellId where
  index : Nat
deriving DecidableEq, Repr, Inhabited

structure VectorId where
  index : Nat
deriving DecidableEq, Repr, Inhabited

structure ClosureId where
  index : Nat
deriving DecidableEq, Repr, Inhabited

structure FrameId where
  index : Nat
deriving DecidableEq, Repr, Inhabited

structure ObjectId where
  index : Nat
deriving DecidableEq, Repr, Inhabited

/-- Whether a primitive takes the values of its operands or the operands as they are written. -/
inductive Primitive.Kind where
  | function
  | specialForm
deriving DecidableEq, Repr, Inhabited

/-- A callable that the host provides. Its number tells it from others of the same name. -/
structure Primitive where
  id : Nat
  name : String
  arity : Arity
  kind : Primitive.Kind
deriving DecidableEq, Repr

/-- What a program computes with. -/
inductive Value where
  | nil
  | bool (b : Bool)
  | int (n : Int64)
  | float (x : Float)
  | str (text : String)
  | sym (name : Symbol)
  | pair (id : CellId)
  | vector (id : VectorId)
  | closure (id : ClosureId)
  | primitive (p : Primitive)
  | object (id : ObjectId)
deriving DecidableEq, Repr, Inhabited

namespace Value

/-- Everything but the false truth value counts as true. -/
def isTruthy (v : Value) : Bool := v != bool false

/-- Closures and primitives can be called. -/
def isFunction : Value → Bool
  | closure _ | primitive _ => true
  | _ => false

def typeName : Value → String
  | nil => "nil"
  | bool _ => "boolean"
  | int _ => "integer"
  | float _ => "float"
  | str _ => "string"
  | sym _ => "symbol"
  | pair _ => "pair"
  | vector _ => "vector"
  | closure _ => "function"
  | primitive _ => "primitive"
  | object _ => "object"

end Value

/-- A number of either kind. -/
inductive Number where
  | int (n : Int64)
  | float (x : Float)
deriving DecidableEq, Repr, Inhabited

namespace Number

/-- The floating point number nearest to an integer. -/
def widen (n : Int64) : Float := Float.ofInt n.toInt

def toFloat : Number → Float
  | int n => widen n
  | float x => x

/-- Whether the number is zero of either kind and sign. -/
def isZero : Number → Bool
  | int n => n == 0
  | float x => x == 0.0

def toValue : Number → Value
  | int n => .int n
  | float x => .float x

def ofValue? : Value → Option Number
  | .int n => some (int n)
  | .float x => some (float x)
  | _ => none

end Number

end HostedLisp
