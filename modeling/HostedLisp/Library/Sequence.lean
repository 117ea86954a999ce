import HostedLisp.Operation

/-!
# Sequences

A list or a vector is seen as its elements at the time of the call, so what a callback does to it
has no influence on the elements that are still to come. This file has the operations that call
back into programs; the lists library offers them for lists and vectors, the vectors library for
vectors alone. Main definitions: `Sequence`, `Sequence.ofAny`, `Sequence.ofVector`,
`Sequence.mergeSort`, and the primitives made of them.
-/

namespace HostedLisp

open Program

/-- The kinds of sequences. -/
inductive Sequence.Kind where
  | list
  | vector
deriving DecidableEq, Repr

/-- The elements of a list or a vector. -/
structure Sequence where
  kind : Sequence.Kind
  items : List Value

namespace Sequence

/-- How a primitive of some name sees an argument as a sequence. -/
abbrev View := String → Value → Program Sequence

def vectorItems (name : String) (value : Value) : Program (List Value) :=
  match value with
  | .vector id => view fun h => (h.vector id).toList
  | _ => wrongType s!"{name} needs a vector, but got " value

def ofVector : View := fun name value =>
  (vectorItems name value).bind fun items => done ⟨.vector, items⟩

def ofAny : View := fun name value =>
  match value with
  | .vector id => view fun h => ⟨.vector, (h.vector id).toList⟩
  | _ =>
    look fun h =>
      match h.listItems? value with
      | some items => done ⟨.list, items⟩
      | none => wrongType s!"{name} needs a list or vector, but got " value

def build (kind : Kind) (items : List Value) : Program Value :=
  match kind with
  | .list => list items
  | .vector => vector items

def viewAll (view : View) (name : String) : List Value → Program (List Sequence)
  | [] => done []
  | value :: rest =>
    (view name value).bind fun s => (viewAll view name rest).bind fun ss => done (s :: ss)

/-- Insists on a callable. -/
def expectFunction (name : String) (value : Value) : Program Unit :=
  if value.isFunction then done ()
  else wrongType s!"{name} needs a function, but got " value

/-- The element at a position, counted from zero. -/
def elementAt (name : String) (items : List Value) (index : Int64) : Program Value :=
  match if index.toInt < 0 then none else items[index.toInt.toNat]? with
  | some value => done value
  | none =>
    fail (.index s!"{name}: index {index.toInt} out of range for length {items.length}")

/-! ### Calling back -/

/-- The rows of several columns, as many as the shortest column has. -/
def rows : List (List Value) → List (List Value)
  | [] => []
  | [column] => column.map fun value => [value]
  | column :: rest => column.zipWith List.cons (rows rest)

/-- The results of a function for several argument lists, after those in `before`, which are in
reverse. -/
def applyEach (func : Value) (frame : FrameId) (before : List Value) :
    List (List Value) → Program (List Value)
  | [] => done before.reverse
  | args :: rest =>
    (apply func args frame).bind fun result => applyEach func frame (result :: before) rest

/-- The items for which a predicate answers `keep`, after those in `before`, which are in
reverse. -/
def select (pred : Value) (keep : Bool) (frame : FrameId) (before : List Value) :
    List Value → Program (List Value)
  | [] => done before.reverse
  | item :: rest =>
    (apply pred [item] frame).bind fun verdict =>
      select pred keep frame (if verdict.isTruthy == keep then item :: before else before) rest

/-- Combines a value with items one after the other. -/
def foldFrom (func : Value) (frame : FrameId) (acc : Value) : List Value → Program Value
  | [] => done acc
  | item :: rest => (apply func [acc, item] frame).bind fun acc => foldFrom func frame acc rest

/-- Combines the items, starting from the first one; there is an initial value for no items. -/
def reduce (func initial : Value) (frame : FrameId) : List Value → Program Value
  | [] => done initial
  | first :: rest => foldFrom func frame first rest

/-- The first item for which a predicate holds. -/
def find (pred : Value) (frame : FrameId) : List Value → Program Value
  | [] => done (.bool false)
  | item :: rest =>
    (apply pred [item] frame).bind fun verdict =>
      if verdict.isTruthy then done item else find pred frame rest

/-- Merges two sorted lists after the items in `before`, which are in reverse. An item of the right
list comes first only if it is less. -/
def merge (less : Value) (frame : FrameId) (before : List Value) :
    List Value → List Value → Program (List Value)
  | [], right => done (before.reverse ++ right)
  | left, [] => done (before.reverse ++ left)
  | l :: left, r :: right =>
    (apply less [r, l] frame).bind fun verdict =>
      if verdict.isTruthy then merge less frame (r :: before) (l :: left) right
      else merge less frame (l :: before) left (r :: right)
termination_by left right => left.length + right.length

/-- Sorts both halves, the left one first, and merges them. -/
def mergeSort (less : Value) (frame : FrameId) (items : List Value) : Program (List Value) :=
  if items.length ≤ 1 then done items
  else
    (mergeSort less frame (items.take (items.length / 2))).bind fun left =>
      (mergeSort less frame (items.drop (items.length / 2))).bind fun right =>
        merge less frame [] left right
termination_by items.length
decreasing_by all_goals simp only [List.length_take, List.length_drop]; omega

/-! ### Primitives -/

/-- Applies a function to the elements of sequences in step, and builds a sequence of the kind of
the first one. -/
def mapping (name : String) (view : View) : Native :=
  .function name (.atLeast 2) fun args frame =>
    match args with
    | func :: value :: values => do
      expectFunction name func
      let first ← view name value
      let others ← viewAll view name values
      let results ← applyEach func frame [] (rows (first.items :: others.map items))
      build first.kind results
    | _ => fault

/-- Applies a function to the elements of sequences in step. -/
def iteration (name : String) (view : View) : Native :=
  .function name (.atLeast 2) fun args frame =>
    match args with
    | func :: values => do
      expectFunction name func
      let sequences ← viewAll view name values
      let _ ← applyEach func frame [] (rows (sequences.map items))
      pure .nil
    | [] => fault

/-- Keeps the elements for which a predicate answers `keep`. -/
def selection (name : String) (keep : Bool) (view : View) : Native :=
  .function name (.exactly 2) fun args frame =>
    match args with
    | [pred, value] => do
      expectFunction name pred
      let sequence ← view name value
      let kept ← select pred keep frame [] sequence.items
      build sequence.kind kept
    | _ => fault

/-- Combines the elements from the left. -/
def reduction (name : String) (view : View) : Native :=
  .function name (.exactly 3) fun args frame =>
    match args with
    | [func, initial, value] => do
      expectFunction name func
      let sequence ← view name value
      reduce func initial frame sequence.items
    | _ => fault

/-- Finds the first element for which a predicate holds. -/
def search (name : String) (view : View) : Native :=
  .function name (.exactly 2) fun args frame =>
    match args with
    | [pred, value] => do
      expectFunction name pred
      let sequence ← view name value
      find pred frame sequence.items
    | _ => fault

/-- Sorts the elements into a new sequence. -/
def sorting (name : String) (view : View) : Native :=
  .function name (.exactly 2) fun args frame =>
    match args with
    | [value, less] => do
      let sequence ← view name value
      expectFunction name less
      let sorted ← mergeSort less frame sequence.items
      build sequence.kind sorted
    | _ => fault

end Sequence

end HostedLisp
