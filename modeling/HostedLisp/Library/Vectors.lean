import HostedLisp.Library.Sequence

/-!
# Vectors

The length of a vector never changes. The primitives whose names end in an exclamation mark write
into its slots, which is seen through every handle; the others make a new vector. A position outside
a vector is an error.
-/

namespace HostedLisp.Vectors

open Program Sequence

/-- The handle and the number of slots of a vector. -/
def expectVector (name : String) (value : Value) : Program (VectorId × Nat) :=
  match value with
  | .vector id => view fun h => (id, (h.vector id).size)
  | _ => wrongType s!"{name} needs a vector, but got " value

/-- A size that is not negative. -/
def expectSize (name : String) (size : Int64) : Program Nat :=
  if size.toInt < 0 then
    fail (.domain s!"{name} needs a non-negative size, but got {size.toInt}")
  else done size.toInt.toNat

/-- A position of a slot. -/
def slotIndex (name : String) (index : Int64) (length : Nat) : Program Nat :=
  if 0 ≤ index.toInt ∧ index.toInt < length then done index.toInt.toNat
  else fail (.index s!"{name}: index {index.toInt} out of range for length {length}")

/-- A position between slots, from `low` to `high`. -/
def boundary (name : String) (index : Int64) (low high : Nat) : Program Nat :=
  if low ≤ index.toInt ∧ index.toInt ≤ high then done index.toInt.toNat
  else fail (.index s!"{name}: index {index.toInt} out of bounds ({low}-{high})")

def giveCount (n : Nat) : Program Value :=
  match Numeral.word? n with
  | some word => done (.int word)
  | none => fail (.domain "vector too long")

/-- A vector of equal slots. -/
def make (size : Int64) (fill : List Value) : Program Value := do
  let size ← expectSize "make-vector" size
  vector (List.replicate size (fill.headD .nil))

def ofList (value : Value) : Program Value :=
  look fun h =>
    match h.listItems? value with
    | some items => vector items
    | none => wrongType "list->vector needs a list, but got " value

/-- A vector whose slots hold what a function answers for their positions. -/
def makeInitialized : Body := fun args frame =>
  match args with
  | [size, func] => do
    let size ← Param.int.convert size
    let size ← expectSize "make-initialized-vector" size
    expectFunction "make-initialized-vector" func
    let items ← applyEach func frame []
      ((List.range size).map fun index => [.int (Int64.ofNat index)])
    vector items
  | _ => fault

/-- A longer copy, with empty lists in the new slots. -/
def grow (value : Value) (size : Int64) : Program Value := do
  let items ← vectorItems "vector-grow" value
  let size ← expectSize "vector-grow" size
  if size ≤ items.length then
    fail (.domain
      s!"vector-grow needs a size larger than {items.length}, but got {size}")
  else vector (items ++ List.replicate (size - items.length) .nil)

/-- The slot at a position. -/
def ref (name : String) (value : Value) (index : Int64) : Program Value := do
  let items ← vectorItems name value
  elementAt name items index

/-- Writes a slot and answers what it holds now. -/
def set (value : Value) (index : Int64) (new : Value) : Program Value := do
  let (id, length) ← expectVector "vector-set!" value
  let slot ← slotIndex "vector-set!" index length
  perform (.setSlots id slot [new])
  pure new

/-- The slot at a fixed position. -/
def position (name : String) (index : Nat) : Native :=
  .fixed name [.any] fun value => ref name value (Int64.ofNat index)

/-- A vector of the slots between two positions. -/
def slice (name : String) (value : Value) (start finish : Option Int64) : Program Value := do
  let items ← vectorItems name value
  let start ← match start with
    | some index => boundary name index 0 items.length
    | none => pure 0
  let finish ← match finish with
    | some index => boundary name index start items.length
    | none => pure items.length
  vector ((items.take finish).drop start)

/-- Writes one value into all slots. -/
def fill (value new : Value) : Program Value := do
  let (id, length) ← expectVector "vector-fill!" value
  perform (.setSlots id 0 (List.replicate length new))
  pure value

/-- Writes one value into the slots between two positions. -/
def fillSlice (value : Value) (start finish : Int64) (new : Value) : Program Value := do
  let (id, length) ← expectVector "subvector-fill!" value
  let start ← boundary "subvector-fill!" start 0 length
  let finish ← boundary "subvector-fill!" finish start length
  perform (.setSlots id start (List.replicate (finish - start) new))
  pure value

/-- Copies the slots between two positions of a vector to a position of the same or another
vector, one after the other in the given direction. -/
def move (name : String) (descending : Bool) : Native :=
  .fixed name [.any, .int, .int, .any, .int] fun source start finish target position => do
    let (sourceId, sourceLength) ← expectVector name source
    let (targetId, targetLength) ← expectVector name target
    let start ← boundary name start 0 sourceLength
    let finish ← boundary name finish start sourceLength
    let position ← boundary name position 0 targetLength
    let count := finish - start
    if count > targetLength - position then
      fail (.index (s!"{name}: {count} elements do not fit at index {position} " ++
        s!"of a vector of length {targetLength}"))
    else
      perform (.copySlots sourceId start count targetId position descending)
      pure target

/-- Sorts the slots of a vector in place. They receive the elements that were there at first,
whatever the comparisons did to the vector. -/
def sortInPlace : Body := fun args frame =>
  match args with
  | [value, less] => do
    let items ← vectorItems "vector-sort!" value
    expectFunction "vector-sort!" less
    let sorted ← mergeSort less frame items
    match value with
    | .vector id => perform (.setSlots id 0 sorted)
    | _ => fault
    pure value
  | _ => fault

def library : List Native := [
  .variadic "make-vector" (.oneOf [1, 2]) [.int] .any make,
  .variadic "vector" .any [] .any fun values => vector values,
  .fixed "vector-copy" [.any] fun value => (vectorItems "vector-copy" value).bind vector,
  .fixed "list->vector" [.any] ofList,
  .fixed "vector->list" [.any] fun value => (vectorItems "vector->list" value).bind list,
  .function "make-initialized-vector" (.exactly 2) makeInitialized,
  .fixed "vector-grow" [.any, .int] grow,
  .fixed "vector?" [.any] fun value => done (.bool (value matches .vector _)),
  .fixed "vector-length" [.any] fun value =>
    (expectVector "vector-length" value).bind fun (_, length) => giveCount length,
  .fixed "vector-ref" [.any, .int] (ref "vector-ref"),
  .fixed "vector-set!" [.any, .int, .any] set,
  position "vector-first" 0,
  position "vector-second" 1,
  position "vector-third" 2,
  position "vector-fourth" 3,
  position "vector-fifth" 4,
  position "vector-sixth" 5,
  position "vector-seventh" 6,
  position "vector-eighth" 7,
  position "vector-ninth" 8,
  position "vector-tenth" 9,
  .fixed "subvector" [.any, .int, .int] fun value start finish =>
    slice "subvector" value (some start) (some finish),
  .fixed "vector-head" [.any, .int] fun value finish =>
    slice "vector-head" value none (some finish),
  .fixed "vector-tail" [.any, .int] fun value start =>
    slice "vector-tail" value (some start) none,
  .fixed "vector-fill!" [.any, .any] fill,
  .fixed "subvector-fill!" [.any, .int, .int, .any] fillSlice,
  move "subvector-move-left!" false,
  move "subvector-move-right!" true,
  mapping "vector-map" ofVector,
  iteration "vector-for-each" ofVector,
  reduction "vector-reduce" ofVector,
  selection "vector-filter" true ofVector,
  selection "vector-remove" false ofVector,
  search "vector-find" ofVector,
  sorting "vector-sort" ofVector,
  .function "vector-sort!" (.exactly 2) sortInPlace
]

end HostedLisp.Vectors
