import HostedLisp.Library.Sequence
import HostedLisp.Proofs.Program.Direct

/-!
# Operations on sequences in direct steps

The operations that call back take their arguments by position, and the rows of several columns
item by item. Where the number of arguments is one that the primitive takes, they do the same as
the operations that look at the whole list of arguments.
-/

namespace HostedLisp.Direct

open Program Sequence

variable {func less : Value} {frame : FrameId} {name : String} {view : View}

/-! ### Rows of columns -/

/-- The number of items of the shortest column. -/
def rowCount (columns : List (List Value)) : Nat := (columns.map List.length).min?.getD 0

/-- The items of all columns at a position. -/
def rowAt (position : Nat) : List (List Value) → Program (List Value)
  | [] => done []
  | column :: rest =>
    (item column position).bind fun value =>
      (rowAt position rest).bind fun values => done (value :: values)

/-- The results of a function for the rows at some positions, after those in `before`, which are in
reverse. -/
def applyAt (func : Value) (frame : FrameId) (columns : List (List Value))
    (before : List Value) : List Nat → Program (List Value)
  | [] => done before.reverse
  | position :: rest =>
    (rowAt position columns).bind fun args =>
      (apply func args frame).bind fun result =>
        applyAt func frame columns (result :: before) rest

/-- The results of a function for all rows. -/
def mapColumns (func : Value) (frame : FrameId) (columns : List (List Value)) :
    Program (List Value) :=
  applyAt func frame columns [] (List.range (rowCount columns))

lemma length_rows (columns : List (List Value)) : (rows columns).length = rowCount columns := by
  induction columns with
  | nil => rfl
  | cons column rest ih =>
    cases rest with
    | nil => simp [rows, rowCount]
    | cons second rest =>
      rw [rows, List.length_zipWith, ih]
      · simp [rowCount, List.min?_cons]
      · simp

lemma rowAt_of_lt {columns : List (List Value)} {position : Nat}
    (h : position < (rows columns).length) :
    rowAt position columns = done (rows columns)[position] := by
  induction columns with
  | nil => simp [rows] at h
  | cons column rest ih =>
    cases rest with
    | nil =>
      have hcolumn : position < column.length := by simpa [rows] using h
      simp [rowAt, rows, item_of_lt hcolumn]
    | cons second rest =>
      have hrows : rows (column :: second :: rest) =
          column.zipWith List.cons (rows (second :: rest)) := by
        rw [rows]
        simp
      simp only [hrows, List.length_zipWith, Nat.lt_min] at h
      rw [rowAt, item_of_lt h.1, done_bind, ih h.2, done_bind]
      simp only [hrows, List.getElem_zipWith]

lemma applyAt_eq {columns : List (List Value)} {positions : List Nat} {before : List Value}
    (h : ∀ position ∈ positions, position < (rows columns).length) :
    applyAt func frame columns before positions =
      applyEach func frame before (positions.map fun i => (rows columns).getD i []) := by
  induction positions generalizing before with
  | nil => rfl
  | cons position rest ih =>
    rw [List.forall_mem_cons] at h
    rw [applyAt, rowAt_of_lt h.1, done_bind, List.map_cons, applyEach,
      List.getD_eq_getElem?_getD, List.getElem?_eq_getElem h.1, Option.getD_some]
    simp only [ih h.2]

lemma mapColumns_eq (columns : List (List Value)) :
    mapColumns func frame columns = applyEach func frame [] (rows columns) := by
  have hrows : (List.range (rows columns).length).map (fun i => (rows columns).getD i []) =
      rows columns := by
    refine List.ext_getElem (by simp) fun i hi hi' => ?_
    simp [hi']
  rw [mapColumns, ← length_rows, applyAt_eq (by simp), hrows]

/-! ### Sorting -/

/-- Sorts both halves, the left one first, and merges them into as many items as there were. -/
def mergeSort (less : Value) (frame : FrameId) (items : List Value) : Program (List Value) :=
  if items.length ≤ 1 then done items
  else
    (rely (items.length / 2 ≤ items.length)).bind fun _ =>
      (mergeSort less frame (items.take (items.length / 2))).bind fun left =>
        (mergeSort less frame (items.drop (items.length / 2))).bind fun right =>
          (sumUpTo items.length left.length right.length).bind fun _ =>
            merge less frame [] left right
termination_by items.length
decreasing_by all_goals simp only [List.length_take, List.length_drop]; omega

lemma merge_returns (before left right : List Value) :
    (merge less frame before left right).Returns
      fun items => items.length = before.length + left.length + right.length := by
  fun_induction merge less frame before left right with
  | case1 before right => simp [Returns]
  | case2 before left => simp [Returns]
  | case3 before l left r right ih1 ih2 =>
    refine Returns.bind fun verdict => ?_
    rw [returns_done]
    split
    · refine ih1.imp fun items hitems => ?_
      simp only [hitems, List.length_cons]
      omega
    · refine ih2.imp fun items hitems => ?_
      simp only [hitems, List.length_cons]
      omega

/-- Whatever the comparisons say, there are as many items after sorting as before. -/
lemma mergeSort_returns (items : List Value) :
    (Sequence.mergeSort less frame items).Returns fun sorted => sorted.length = items.length := by
  fun_induction Sequence.mergeSort less frame items with
  | case1 items hlen => exact rfl
  | case2 items hlen ih1 ih2 =>
    refine Returns.bind (ih1.imp fun left hleft => ?_)
    refine Returns.bind (ih2.imp fun right hright => ?_)
    refine (merge_returns [] left right).imp fun sorted hsorted => ?_
    simp only [hsorted, hleft, hright, List.length_nil, List.length_take, List.length_drop]
    omega

lemma mergeSort_eq (items : List Value) :
    mergeSort less frame items = Sequence.mergeSort less frame items := by
  fun_induction Sequence.mergeSort less frame items with
  | case1 items hlen => rw [mergeSort, if_pos hlen]
  | case2 items hlen ih1 ih2 =>
    rw [mergeSort, if_neg hlen, rely_of (Nat.div_le_self _ _), done_bind, ih1, ih2]
    refine (mergeSort_returns _).bind_congr fun left hleft => ?_
    refine (mergeSort_returns _).bind_congr fun right hright => ?_
    have hsum : left.length + right.length ≤ items.length := by
      rw [hleft, hright, List.length_take, List.length_drop]
      omega
    rw [sumUpTo_of_le hsum, done_bind]

/-! ### Primitives -/

def mapping (name : String) (view : View) : Body := fun args frame => do
  let func ← item args 0
  expectFunction name func
  let values ← itemsFrom args 1
  let sequences ← viewAll view name values
  let results ← mapColumns func frame (sequences.map items)
  let first ← item sequences 0
  build first.kind results

def iteration (name : String) (view : View) : Body := fun args frame => do
  let func ← item args 0
  expectFunction name func
  let values ← itemsFrom args 1
  let sequences ← viewAll view name values
  let _ ← mapColumns func frame (sequences.map items)
  pure .nil

def selection (name : String) (keep : Bool) (view : View) : Body := fun args frame => do
  let pred ← item args 0
  expectFunction name pred
  let value ← item args 1
  let sequence ← view name value
  let kept ← select pred keep frame [] sequence.items
  build sequence.kind kept

def reduction (name : String) (view : View) : Body := fun args frame => do
  let func ← item args 0
  expectFunction name func
  let value ← item args 2
  let sequence ← view name value
  let initial ← item args 1
  reduce func initial frame sequence.items

def search (name : String) (view : View) : Body := fun args frame => do
  let pred ← item args 0
  expectFunction name pred
  let value ← item args 1
  let sequence ← view name value
  find pred frame sequence.items

def sorting (name : String) (view : View) : Body := fun args frame => do
  let value ← item args 0
  let sequence ← view name value
  let less ← item args 1
  expectFunction name less
  let sorted ← mergeSort less frame sequence.items
  build sequence.kind sorted

/-- A body does the same as that of a primitive, for as many arguments as the primitive takes. -/
def Follows (body : Body) (n : Native) : Prop :=
  ∀ args frame, n.arity.accepts args.length = true → (body args frame).run = (n.body args frame).run

lemma mapping_follows : Follows (mapping name view) (Sequence.mapping name view) := by
  intro args frame haccepts
  match args, haccepts with
  | func :: value :: values, _ =>
    simp [mapping, Sequence.mapping, Native.function, mapColumns_eq, viewAll, Program.bind_assoc]

lemma iteration_follows : Follows (iteration name view) (Sequence.iteration name view) := by
  intro args frame haccepts
  match args, haccepts with
  | func :: values, _ => simp [iteration, Sequence.iteration, Native.function, mapColumns_eq]

lemma selection_follows {keep : Bool} :
    Follows (selection name keep view) (Sequence.selection name keep view) := by
  intro args frame haccepts
  match args, haccepts with
  | [pred, value], _ => simp [selection, Sequence.selection, Native.function]

lemma reduction_follows : Follows (reduction name view) (Sequence.reduction name view) := by
  intro args frame haccepts
  match args, haccepts with
  | [func, initial, value], _ => simp [reduction, Sequence.reduction, Native.function]

lemma search_follows : Follows (search name view) (Sequence.search name view) := by
  intro args frame haccepts
  match args, haccepts with
  | [pred, value], _ => simp [search, Sequence.search, Native.function]

lemma sorting_follows : Follows (sorting name view) (Sequence.sorting name view) := by
  intro args frame haccepts
  match args, haccepts with
  | [value, less], _ => simp [sorting, Sequence.sorting, Native.function, mergeSort_eq]

end HostedLisp.Direct
