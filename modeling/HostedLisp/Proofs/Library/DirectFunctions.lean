import HostedLisp.Library.Arithmetic
import HostedLisp.Library.Lists
import HostedLisp.Library.Vectors
import HostedLisp.Proofs.Heap.Tables
import HostedLisp.Proofs.Library.DirectSequences

/-!
# Functions in direct steps

The primitives on numbers, lists and vectors that index, cut, add or look at values through a facet
once they have made sure of it. A position that was converted is in range, so is every slot that is
copied or filled, and the remaining arguments are numbers once each was found to be one.
-/

namespace HostedLisp

open Program Native

namespace Direct

variable {name : String} {arity : Arity} {ps : List Param}

/-! ### Typed arguments -/

/-- Two functions of parameters do the same for all arguments. -/
def Alike : (ps : List Param) → Function (Program Value) ps → Function (Program Value) ps → Prop
  | [], f, g => f.run = g.run
  | p :: ps, f, g => ∀ x : p.Carrier, Alike ps (f x) (g x)

lemma run_feed {f g : Function (Program Value) ps} (h : Alike ps f g) (args : List Value) :
    (feed (fun result _ => result) ps f args).run =
      (feed (fun result _ => result) ps g args).run := by
  induction ps generalizing args with
  | nil => exact h
  | cons p ps ih =>
    cases args with
    | nil => rfl
    | cons v rest => exact run_bind_congr rfl fun x => ih (h x) rest

/-- What is done with the remaining arguments can be exchanged. -/
lemma run_feed_next {result : Type} {next next' : result → List Value → Program Value}
    (h : ∀ r rest, (next r rest).run = (next' r rest).run) (f : Function result ps)
    (args : List Value) : (feed next ps f args).run = (feed next' ps f args).run := by
  induction ps generalizing args with
  | nil => exact h f args
  | cons p ps ih =>
    cases args with
    | nil => rfl
    | cons v rest => exact run_bind_congr rfl fun x => ih (f x) rest

lemma fixed_follows {f g : Function (Program Value) ps} (h : Alike ps f g) :
    Follows (fixedBody ps f) (.fixed name ps g) := by
  intro args frame haccepts
  have hlen : args.length = ps.length := by simpa [fixed, function, Arity.accepts] using haccepts
  simp only [fixed, function, fixedBody, if_pos hlen]
  exact run_feed h args

/-! ### Numbers -/

/-- A value as a number. What is not an integer shows a floating point number. -/
def number (value : Value) : Program Number :=
  match value with
  | .int n => done (.int n)
  | _ => (through .float value).bind fun x => done (.float x)

/-- Values as numbers, one after the other. -/
def numbersOf : List Value → Program (List Number)
  | [] => done []
  | value :: rest =>
    (number value).bind fun n => (numbersOf rest).bind fun ns => done (n :: ns)

/-- Values as numbers, after a search for one that is none. -/
def numbers (values : List Value) : Program (List Number) :=
  match values.find? fun v => (Number.ofValue? v).isNone with
  | some other => wrongType s!"expected {Param.number.noun}, got " other
  | none => numbersOf values

/-- What a function does with arguments if it takes the remaining ones as numbers. -/
def numericBody (ps : List Param) (f : Function (List Number → Program Value) ps) : Body :=
  fun args _ =>
    if ps.length ≤ args.length then
      feed (fun f remaining => (numbers remaining).bind f) ps f args
    else fail (.arity (.atLeast ps.length) args.length none)

lemma run_number {value : Value} {n : Number} (h : Number.ofValue? value = some n) :
    (number value).run = (done n).run := by
  cases value <;> cases h <;> rfl

lemma convert_number (value : Value) : Param.number.convert value =
    match Number.ofValue? value with
    | some n => done n
    | none => wrongType s!"expected {Param.number.noun}, got " value := by
  cases value <;> rfl

/-- Whatever is not a number is found before any value is taken for one. -/
lemma run_numbers (values : List Value) :
    (numbers values).run = (Param.number.convertAll values).run := by
  induction values with
  | nil => rfl
  | cons v rest ih =>
    rw [Param.convertAll, convert_number]
    cases hv : Number.ofValue? v with
    | none =>
      have hfind : (v :: rest).find? (fun v => (Number.ofValue? v).isNone) = some v := by simp [hv]
      rw [numbers, hfind]
      rfl
    | some n =>
      have hskip : (v :: rest).find? (fun v => (Number.ofValue? v).isNone) =
          rest.find? fun v => (Number.ofValue? v).isNone := by simp [hv]
      rw [numbers, hskip, done_bind, run_bind, ← ih, numbers]
      cases rest.find? fun v => (Number.ofValue? v).isNone with
      | none =>
        dsimp only
        rw [← run_bind]
        exact run_bind_congr (run_number hv) fun _ => rfl
      | some other => rfl

lemma numericBody_follows {f : Function (List Number → Program Value) ps} :
    Follows (numericBody ps f) (.variadic name arity ps .number f) := by
  intro args frame _
  simp only [numericBody, variadic, function, variadicBody]
  split
  · exact run_feed_next (fun f remaining => run_bind_congr (run_numbers remaining) fun _ => rfl) f args
  · rfl

/-- The remainder of integers, which has the sign of the divisor. -/
def modulo (a b : Int64) : Program Value :=
  match Arithmetic.remainder a b with
  | .error e => fail e
  | .ok r =>
    if r ≠ 0 ∧ decide (r < 0) ≠ decide (b < 0) then
      (addWords r b).bind fun m => done (.int m)
    else done (.int r)

lemma modulo_eq (a b : Int64) : modulo a b = Arithmetic.modulo a b := by
  rw [modulo, Arithmetic.modulo]
  cases Arithmetic.remainder a b with
  | error e => rfl
  | ok r =>
    dsimp only
    split
    · rw [addWords]
      cases Numeral.word? (r.toInt + b.toInt) <;> rfl
    · rfl

/-- A property of the remainder of an integer that is divided by two. -/
def parity (holds : Int64 → Bool) (n : Int64) : Program Value :=
  (remWords n 2).bind fun r => done (.bool (holds r))

lemma ofInt_tmod_two (n : Int64) :
    (Int64.ofInt (n.toInt.tmod 2) == 0) = (n.toInt % 2 == 0) := by
  have habs : (n.toInt.tmod 2).natAbs = n.toInt.natAbs % 2 := Int.natAbs_tmod ..
  have hcases : (n.toInt.tmod 2 = 0 ∧ n.toInt % 2 = 0) ∨ (n.toInt.tmod 2 = 1 ∧ n.toInt % 2 = 1) ∨
      (n.toInt.tmod 2 = -1 ∧ n.toInt % 2 = 1) := by omega
  obtain ⟨h, h'⟩ | ⟨h, h'⟩ | ⟨h, h'⟩ := hcases
  · rw [h, h']
    decide
  · rw [h, h']
    decide
  · rw [h, h']
    decide

/-! ### Elements of sequences -/

open Sequence Vectors

/-- The element of a sequence at a position. -/
def nth (seq : Value) (index : Int64) : Program Value :=
  (ofAny "nth" seq).bind fun s =>
    (slotIndex "nth" index s.items.length).bind fun i => item s.items i

/-- The element at a fixed position, which may be missing. -/
def position (name : String) (index : Nat) (seq : Value) : Program Value :=
  (ofAny "nth" seq).bind fun s =>
    if index < s.items.length then item s.items index
    else fail (.index s!"{name} needs at least {index + 1} elements")

/-- The slot of a vector at a position. -/
def ref (name : String) (value : Value) (index : Int64) : Program Value := do
  let items ← vectorItems name value
  let i ← slotIndex name index items.length
  item items i

/-- A converted position is that of an element. -/
lemma slotIndex_item (name : String) (items : List Value) (index : Int64) :
    ((slotIndex name index items.length).bind fun i => item items i) =
      elementAt name items index := by
  rw [slotIndex, elementAt]
  split
  · next h =>
    have hlt : index.toInt.toNat < items.length := by omega
    rw [done_bind, item_of_lt hlt, if_neg (by omega), List.getElem?_eq_getElem hlt]
  · next h =>
    have hnone : (if index.toInt < 0 then none else items[index.toInt.toNat]?) = none := by
      split
      · rfl
      · exact List.getElem?_eq_none (by omega)
    rw [hnone]
    rfl

lemma nth_eq (seq : Value) (index : Int64) : nth seq index = Lists.nth seq index := by
  simp only [nth, Lists.nth, slotIndex_item]

lemma ref_eq (value : Value) (index : Int64) : ref name value index = Vectors.ref name value index := by
  simp only [ref, Vectors.ref, bind_eq_bind, slotIndex_item]

lemma position_follows {index : Nat} :
    Follows (fixedBody [.any] (position name index)) (Lists.position name index) := by
  refine fixed_follows fun seq => run_bind_congr rfl fun s => ?_
  split
  · next h => rw [item_of_lt h, List.getElem?_eq_getElem h]
  · next h => rw [List.getElem?_eq_none (by omega)]

/-! ### Slices -/

def subvector (value : Value) (start finish : Int64) : Program Value := do
  let items ← vectorItems "subvector" value
  let start ← boundary "subvector" start 0 items.length
  let finish ← boundary "subvector" finish start items.length
  let slice ← itemsBetween items start finish
  vector slice

def head (value : Value) (finish : Int64) : Program Value := do
  let items ← vectorItems "vector-head" value
  let finish ← boundary "vector-head" finish 0 items.length
  let slice ← itemsTo items finish
  vector slice

def tail (value : Value) (start : Int64) : Program Value := do
  let items ← vectorItems "vector-tail" value
  let start ← boundary "vector-tail" start 0 items.length
  let slice ← itemsFrom items start
  vector slice

/-- A converted boundary lies within the bounds. -/
lemma boundary_returns (name : String) (index : Int64) (low high : Nat) :
    (boundary name index low high).Returns fun i => low ≤ i ∧ i ≤ high := by
  rw [boundary]
  split
  · rw [returns_done]
    omega
  · trivial

lemma subvector_eq (value : Value) (start finish : Int64) :
    subvector value start finish = slice "subvector" value (some start) (some finish) := by
  simp only [subvector, slice, bind_eq_bind]
  refine congrArg _ (funext fun items => ?_)
  refine (boundary_returns ..).bind_congr fun start _ => ?_
  refine (boundary_returns ..).bind_congr fun finish hfinish => ?_
  rw [itemsBetween_of_le hfinish.1 hfinish.2, done_bind]

lemma head_eq (value : Value) (finish : Int64) :
    head value finish = slice "vector-head" value none (some finish) := by
  simp only [head, slice, bind_eq_bind, pure_eq_done, done_bind]
  refine congrArg _ (funext fun items => ?_)
  refine (boundary_returns ..).bind_congr fun finish hfinish => ?_
  rw [itemsTo_of_le hfinish.2, done_bind, List.drop_zero]

lemma tail_eq (value : Value) (start : Int64) :
    tail value start = slice "vector-tail" value (some start) none := by
  simp only [tail, slice, bind_eq_bind, pure_eq_done, done_bind]
  refine congrArg _ (funext fun items => ?_)
  refine (boundary_returns ..).bind_congr fun start hstart => ?_
  rw [itemsFrom_of_le hstart.2, done_bind, List.take_length]

/-! ### Writing into slots -/

def set (value : Value) (index : Int64) (new : Value) : Program Value := do
  let (id, length) ← expectVector "vector-set!" value
  let slot ← slotIndex "vector-set!" index length
  writeSlot id slot new
  pure new

def fillSlice (value : Value) (start finish : Int64) (new : Value) : Program Value := do
  let (id, length) ← expectVector "subvector-fill!" value
  let start ← boundary "subvector-fill!" start 0 length
  let finish ← boundary "subvector-fill!" finish start length
  fillSlots id start finish new
  pure value

section Writing

variable {α : Type} {f g : VectorId × Nat → Program α} {f' g' : Nat → Program α} {s : State}

/-- The length of a vector is known as long as nothing is changed. -/
lemma run_expectVector {value : Value}
    (h : ∀ id, (f (id, (s.heap.vector id).size)).run s = (g (id, (s.heap.vector id).size)).run s) :
    ((expectVector name value).bind f).run s = ((expectVector name value).bind g).run s := by
  cases value with
  | vector id => exact h id
  | _ => rfl

lemma run_slotIndex {index : Int64} {length : Nat}
    (h : ∀ i < length, (f' i).run s = (g' i).run s) :
    ((slotIndex name index length).bind f').run s =
      ((slotIndex name index length).bind g').run s := by
  rw [slotIndex]
  split
  · exact h _ (by omega)
  · rfl

lemma run_boundary {index : Int64} {low high : Nat}
    (h : ∀ i, low ≤ i → i ≤ high → (f' i).run s = (g' i).run s) :
    ((boundary name index low high).bind f').run s =
      ((boundary name index low high).bind g').run s := by
  rw [boundary]
  split
  · exact h _ (by omega) (by omega)
  · rfl

lemma run_set (value new : Value) (index : Int64) :
    (set value index new).run = (Vectors.set value index new).run := by
  refine funext fun s => run_expectVector fun id => run_slotIndex fun slot hslot => ?_
  exact run_bind_left (writeSlot_run hslot)

lemma run_fillSlice (value new : Value) (start finish : Int64) :
    (fillSlice value start finish new).run = (Vectors.fillSlice value start finish new).run := by
  refine funext fun s => run_expectVector fun id => run_boundary fun i _ hi => ?_
  refine run_boundary fun j hj hj' => ?_
  exact run_bind_left (fillSlots_run hj hj')

end Writing

/-! ### Copying slots -/

/-- A range of slots in a vector of a known length, from which or to which slots are copied. -/
structure Window where
  id : VectorId
  length : Nat
  start : Nat

/-- Copies one slot, counted from the starts. -/
def copySlot (source target : Window) (k : Nat) : Program Unit := do
  let read ← sumUpTo source.length source.start k
  let value ← readSlot source.id read
  let written ← sumUpTo target.length target.start k
  writeSlot target.id written value

/-- Copies slots one after the other. -/
def copySlots (source target : Window) : List Nat → Program Unit
  | [] => done ()
  | k :: rest => (copySlot source target k).bind fun _ => copySlots source target rest

def move (name : String) (descending : Bool) (source : Value) (start finish : Int64)
    (target : Value) (position : Int64) : Program Value := do
  let (sourceId, sourceLength) ← expectVector name source
  let (targetId, targetLength) ← expectVector name target
  let start ← boundary name start 0 sourceLength
  let finish ← boundary name finish start sourceLength
  let position ← boundary name position 0 targetLength
  let count ← difference finish start
  let room ← difference targetLength position
  if count > room then
    fail (.index (s!"{name}: {count} elements do not fit at index {position} " ++
      s!"of a vector of length {targetLength}"))
  else
    copySlots ⟨sourceId, sourceLength, start⟩ ⟨targetId, targetLength, position⟩
      (if descending then (List.range count).reverse else List.range count)
    pure target

/-- The length is that of the vector, and there is a slot so many slots behind the start. -/
def Window.Holds (w : Window) (s : State) (k : Nat) : Prop :=
  w.length = (s.heap.vector w.id).size ∧ w.start + k < w.length

variable {source target : Window} {s : State}

lemma copySlot_run {k : Nat} (hs : source.Holds s k) (ht : target.Holds s k) :
    (copySlot source target k).run s = .stop (.ok ())
      { s with heap := s.heap.copySlot source.id source.start target.id target.start k } := by
  have hread : source.start + k < (s.heap.vector source.id).size := hs.1 ▸ hs.2
  have hwrite : target.start + k < (s.heap.vector target.id).size := ht.1 ▸ ht.2
  rw [copySlot, bind_eq_bind, sumUpTo_of_le (Nat.le_of_lt hs.2), done_bind, bind_eq_bind,
    readSlot_bind_run hread, bind_eq_bind, sumUpTo_of_le (Nat.le_of_lt ht.2), done_bind,
    writeSlot_run hwrite]
  have hvalue : (s.heap.vector source.id).getD (source.start + k) .nil =
      (s.heap.vector source.id)[source.start + k] := by simp [hread]
  rw [Heap.copySlot, hvalue]
  rfl

/-- Copying does not change the length of any vector, so what was in range stays so. -/
lemma copySlots_run {offsets : List Nat}
    (h : ∀ k ∈ offsets, source.Holds s k ∧ target.Holds s k) :
    (copySlots source target offsets).run s = .stop (.ok ()) { s with
      heap := offsets.foldl
        (fun h k => h.copySlot source.id source.start target.id target.start k) s.heap } := by
  induction offsets generalizing s with
  | nil => rfl
  | cons k rest ih =>
    rw [List.forall_mem_cons] at h
    rw [copySlots, run_bind, Run.bind_apply, copySlot_run h.1.1 h.1.2, Plan.bind_stop_ok, ih]
    · rfl
    · intro j hj
      obtain ⟨⟨hs, hs'⟩, ht, ht'⟩ := h.2 j hj
      refine ⟨⟨?_, hs'⟩, ?_, ht'⟩
      · exact hs.trans (Heap.size_vector_setSlot ..).symm
      · exact ht.trans (Heap.size_vector_setSlot ..).symm

/-- The slots that are copied lie in both vectors, since they are as many as fit. -/
lemma move_follows {descending : Bool} :
    Follows (fixedBody [.any, .int, .int, .any, .int] (move name descending))
      (Vectors.move name descending) := by
  refine fixed_follows fun source start finish target position => funext fun s => ?_
  refine run_expectVector fun sourceId => run_expectVector fun targetId => ?_
  refine run_boundary fun i hi hi' => run_boundary fun j hj hj' => run_boundary fun k hk hk' => ?_
  simp only [bind_eq_bind, difference_of_le hj, difference_of_le hk', done_bind]
  split
  · rfl
  · next hfits =>
    refine run_bind_left ?_
    rw [copySlots_run]
    · rfl
    · intro offset hoffset
      have hlt : offset < j - i := by
        split at hoffset
        · simpa using hoffset
        · simpa using hoffset
      exact ⟨⟨rfl, by dsimp only; omega⟩, rfl, by dsimp only; omega⟩

/-! ### Vectors and callbacks -/

def makeInitialized : Body := fun args frame => do
  let size ← item args 0
  let size ← Param.int.convert size
  let size ← expectSize "make-initialized-vector" size
  let func ← item args 1
  expectFunction "make-initialized-vector" func
  let items ← applyEach func frame []
    ((List.range size).map fun index => [.int (Int64.ofNat index)])
  vector items

def sortInPlace : Body := fun args frame => do
  let value ← item args 0
  let items ← vectorItems "vector-sort!" value
  let less ← item args 1
  expectFunction "vector-sort!" less
  let sorted ← mergeSort less frame items
  let (id, _) ← expectVector "vector-sort!" value
  perform (.setSlots id 0 sorted)
  pure value

lemma makeInitialized_follows :
    Follows makeInitialized (.function name (.exactly 2) Vectors.makeInitialized) := by
  intro args frame haccepts
  match args, haccepts with
  | [size, func], _ => simp [makeInitialized, Vectors.makeInitialized, function]

lemma sortInPlace_follows :
    Follows sortInPlace (.function name (.exactly 2) Vectors.sortInPlace) := by
  intro args frame haccepts
  match args, haccepts with
  | [value, less], _ =>
    simp only [sortInPlace, Vectors.sortInPlace, function, bind_eq_bind, item_zero_cons,
      item_one_cons, done_bind, mergeSort_eq]
    cases value with
    | vector id =>
      refine run_bind_congr rfl fun items => run_bind_congr rfl fun _ => ?_
      exact run_bind_congr rfl fun sorted => rfl
    | _ => rfl

end Direct

end HostedLisp
