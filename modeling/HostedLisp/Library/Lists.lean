import HostedLisp.Heap.Equality
import HostedLisp.Library.Sequence

/-!
# Pairs and lists

Making, taking apart and changing pairs, the operations on whole lists, the predicates on the kinds
of values, and the operations on sequences for lists and vectors alike.
-/

namespace HostedLisp.Lists

open Program

/-- A part of a pair. Both parts of the empty list are the empty list. -/
def part (name : String) (select : Cell → Value) : Native :=
  .fixed name [.any] fun value =>
    match value with
    | .pair id => view fun h => select (h.cell id)
    | .nil => done .nil
    | _ => wrongType s!"{name} needs a pair, but got " value

/-- Changes a part of a pair and answers the new one. -/
def update (name : String) (change : CellId → Value → Change) : Native :=
  .fixed name [.any, .any] fun target value =>
    match target with
    | .pair id => (perform (change id value)).bind fun _ => done value
    | _ => wrongType s!"{name} needs a pair, but got " target

/-- The number of elements of a sequence. -/
def length (value : Value) : Program Value :=
  (Sequence.ofAny "length" value).bind fun s =>
    match Numeral.word? s.items.length with
    | some n => done (.int n)
    | none => fail (.domain "length does not fit an integer")

/-- The elements of all lists but the last, and the last value, after those in `before`. -/
def collect (before : List Value) : List Value → Program (List Value × Value)
  | [] => done (before, .nil)
  | [tail] => done (before, tail)
  | value :: rest =>
    look fun h =>
      match h.listItems? value with
      | some items => collect (before ++ items) rest
      | none => wrongType "append needs lists, but got " value

/-- A chain of the elements of all arguments but the last, which becomes its tail. -/
def append (values : List Value) : Program Value :=
  (collect [] values).bind fun (items, tail) => chain items tail

/-- The element of a sequence at a position. -/
def nth (seq : Value) (index : Int64) : Program Value :=
  (Sequence.ofAny "nth" seq).bind fun s => Sequence.elementAt "nth" s.items index

/-- The element at a fixed position. -/
def position (name : String) (index : Nat) : Native :=
  .fixed name [.any] fun seq =>
    (Sequence.ofAny "nth" seq).bind fun s =>
      match s.items[index]? with
      | some value => done value
      | none => fail (.index s!"{name} needs at least {index + 1} elements")

/-- A property of values. -/
def predicate (name : String) (holds : Heap → Value → Bool) : Native :=
  .fixed name [.any] fun value => view fun h => .bool (holds h value)

/-- A relation between values. -/
def relation (name : String) (holds : Heap → Value → Value → Bool) : Native :=
  .fixed name [.any, .any] fun a b => view fun h => .bool (holds h a b)

/-- The primitives on pairs, lists and sequences. -/
def library : List Native := [
  part "car" Cell.head,
  part "cdr" Cell.tail,
  .fixed "cons" [.any, .any] fun head tail => chain [head] tail,
  .variadic "list" .any [] .any fun values => list values,
  update "set-car!" .setHead,
  update "set-cdr!" .setTail,
  .fixed "length" [.any] length,
  .variadic "append" .any [] .any append,
  .fixed "reverse" [.any] fun value => (listItems value).bind fun items => list items.reverse,
  .fixed "nth" [.any, .int] nth,
  position "first" 0,
  position "second" 1,
  position "third" 2,
  predicate "null?" fun _ v => v matches .nil,
  predicate "nil?" fun _ v => v matches .nil,
  predicate "pair?" fun _ v => v matches .pair _,
  predicate "list?" fun h v => h.isList v,
  predicate "symbol?" fun _ v => v matches .sym _,
  predicate "string?" fun _ v => v matches .str _,
  predicate "boolean?" fun _ v => v matches .bool _,
  predicate "function?" fun _ v => v.isFunction,
  predicate "object?" fun _ v => v matches .object _,
  predicate "not" fun _ v => !v.isTruthy,
  relation "eq?" fun _ a b => Heap.identical a b,
  relation "equal?" fun h a b => h.equal a b,
  Sequence.mapping "map" Sequence.ofAny,
  Sequence.iteration "for-each" Sequence.ofAny,
  Sequence.selection "filter" true Sequence.ofAny,
  Sequence.selection "remove" false Sequence.ofAny,
  Sequence.reduction "reduce" Sequence.ofAny,
  Sequence.search "find" Sequence.ofAny,
  Sequence.sorting "sort" Sequence.ofAny
]

end HostedLisp.Lists
