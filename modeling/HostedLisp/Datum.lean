import HostedLisp.Symbol

/-!
# Data

A datum is what a text denotes: a tree without identity. Placed in memory it becomes a value,
whose pairs and vectors can be shared and changed.
-/

namespace HostedLisp

/-- A tree of atoms, pairs and vectors. -/
inductive Datum where
  | nil
  | bool (b : Bool)
  | int (n : Int64)
  | float (x : Float)
  | str (text : String)
  | sym (name : Symbol)
  | pair (head tail : Datum)
  | vector (items : List Datum)
deriving Inhabited

namespace Datum

/-- The chain of the given items that ends in `tail`. -/
def chain (items : List Datum) (tail : Datum) : Datum := items.foldr pair tail

/-- The proper list of the given items. -/
def list (items : List Datum) : Datum := chain items nil

/-- The expression that yields a datum unevaluated. -/
def quoted (d : Datum) : Datum := list [sym ⟨"quote"⟩, d]

def typeName : Datum → String
  | nil => "nil"
  | bool _ => "boolean"
  | int _ => "integer"
  | float _ => "float"
  | str _ => "string"
  | sym _ => "symbol"
  | pair _ _ => "pair"
  | vector _ => "vector"

end Datum

end HostedLisp
