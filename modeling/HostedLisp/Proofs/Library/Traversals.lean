import HostedLisp.Proofs.Library.Answers
import HostedLisp.Proofs.Library.Sorting
import HostedLisp.Proofs.Program.Acts

/-!
# Operations on the elements of sequences

Six primitives call a function for the elements of lists and vectors, and six others do so for
vectors alone. Each looks at its sequences once, before it calls anything, and from then on it is a
loop over the elements that were there, whatever the calls do to the sequences. So both versions do
the same with vectors, and a pure predicate divides the elements between the operation that keeps
them and the one that removes them. Main definitions: `Traversal`, `Traversal.meaning`,
`Machine.Traverses`. Main statement: `Machine.traverses`.
-/

namespace HostedLisp

namespace Sequence

open Program

variable {pred : Value} {keep : Bool} {verdict : Value → Bool} {items : List Value}
  {frame : FrameId}

/-- A call of a predicate for one of the items. -/
def Tests (pred : Value) (frame : FrameId) (items : List Value) (q : Request) : Prop :=
  ∃ x ∈ items, q = .apply pred [x] frame

/-- What the answers of a predicate are if they depend on the item alone. -/
def Judges (verdict : Value → Bool) (pred : Value) (frame : FrameId) (q : Request) (v : Value) :
    Prop :=
  ∀ x, q = .apply pred [x] frame → v.isTruthy = verdict x

/-- With the answers of a pure predicate, selecting yields the items with the right verdict. -/
lemma select_queries {all before : List Value} (hall : items ⊆ all) :
    (select pred keep frame before items).Queries (Tests pred frame all)
      (Judges verdict pred frame)
      fun kept => kept = before.reverse ++ items.filter (verdict · == keep) := by
  induction items generalizing before with
  | nil => exact (List.append_nil _).symm
  | cons item rest ih =>
    obtain ⟨hitem, hrest⟩ := List.cons_subset.1 hall
    refine Queries.bind ⟨⟨item, hitem, rfl⟩, fun v hv => ?_⟩
    refine (ih hrest).mono (fun _ h => h) fun kept hkept => hkept.trans ?_
    rw [List.filter_cons, ← hv item rfl]
    cases v.isTruthy == keep <;> simp

end Sequence

/-- The operations that call a function for the elements of sequences. -/
inductive Traversal where
  | map
  | forEach
  | filter
  | remove
  | reduce
  | find
deriving DecidableEq, Repr

namespace Traversal

open Program Sequence

def name : Traversal → String
  | map => "map"
  | forEach => "for-each"
  | filter => "filter"
  | remove => "remove"
  | reduce => "reduce"
  | find => "find"

/-- The name under which an operation takes vectors only. -/
def vectorName (op : Traversal) : String := "vector-" ++ op.name

def arity : Traversal → Arity
  | map | forEach => .atLeast 2
  | filter | remove | find => .exactly 2
  | reduce => .exactly 3

/-- The number of arguments before the sequences. -/
def leading : Traversal → Nat
  | reduce => 2
  | _ => 1

/-- The arguments of a call. Only a reduction has an initial value. -/
def arguments (op : Traversal) (func initial : Value) (values : List Value) : List Value :=
  match op with
  | reduce => func :: initial :: values
  | _ => func :: values

/-- The elements at the positions that all columns have, position by position. -/
def steps (columns : List (List Value)) : List (List Value) :=
  (List.range ((columns.map List.length).min?.getD 0)).map fun i =>
    columns.filterMap fun column => column[i]?

/-- Makes a sequence of some items. -/
def fresh (kind : Kind) (items : List Value) : Act Value := fun s =>
  let (value, heap) :=
    match kind with
    | .list => s.heap.newChain items .nil
    | .vector => s.heap.newVector items
  (.ok value, { s with heap := heap })

/-- What an operation does with the elements of sequences, if `call` is how its function is
called. -/
def meaning (op : Traversal) (call : List Value → Act Value) (initial : Value) (first : Sequence)
    (others : List Sequence) : Act Value :=
  match op with
  | map => do
    let results ← (steps (first.items :: others.map items)).mapM call
    fresh first.kind results
  | forEach => do
    let _ ← (steps (first.items :: others.map items)).mapM call
    return .nil
  | filter => do
    let kept ← first.items.filterM fun item => return (← call [item]).isTruthy
    fresh first.kind kept
  | remove => do
    let kept ← first.items.filterM fun item => return !(← call [item]).isTruthy
    fresh first.kind kept
  | reduce =>
    match first.items with
    | [] => return initial
    | item :: rest => rest.foldlM (fun acc item => call [acc, item]) item
  | find => do
    let found ← first.items.findM? fun item => return (← call [item]).isTruthy
    return found.getD (.bool false)

/-- The error of a call that calls nothing: there are too few or too many arguments, or the first
one is not a function. -/
def refusal? (op : Traversal) (name : String) (h : Heap) (args : List Value) : Option Error :=
  if op.arity.accepts args.length then
    match args with
    | func :: _ =>
      if func.isFunction then none
      else some (.type (s!"{name} needs a function, but got " ++ h.render func))
    | [] => none
  else some (.arity op.arity args.length (some name))

/-- What comes of a call, unless it is refused. -/
def unlessRefused (op : Traversal) (name : String) (args : List Value) (t : State)
    (outcome : Outcome Value) : Outcome Value :=
  match op.refusal? name t.heap args with
  | some e => .answered (.error e) t
  | none => outcome

/-- The primitive of some name that sees its arguments in some way. -/
def native (op : Traversal) (name : String) (view : View) : Native :=
  match op with
  | map => mapping name view
  | forEach => iteration name view
  | filter => selection name true view
  | remove => selection name false view
  | reduce => reduction name view
  | find => search name view

/-- What an operation does after it has looked at its sequences. -/
def work (op : Traversal) (func initial : Value) (frame : FrameId) :
    List Sequence → Program Value
  | [] => fault
  | first :: others =>
    match op with
    | map =>
      (applyEach func frame [] (rows (first.items :: others.map items))).bind (build first.kind)
    | forEach =>
      (applyEach func frame [] (rows (first.items :: others.map items))).bind fun _ => done .nil
    | filter => (select func true frame [] first.items).bind (build first.kind)
    | remove => (select func false frame [] first.items).bind (build first.kind)
    | reduce => Sequence.reduce func initial frame first.items
    | find => Sequence.find func frame first.items

variable {op : Traversal} {name : String} {view : View} {func initial : Value} {frame : FrameId}
  {values : List Value} {answer : Answer} {t : State}

/-! ### Programs of the operations -/

lemma native_kind : (op.native name view).kind = .function := by cases op <;> rfl

lemma native_name : (op.native name view).name = name := by cases op <;> rfl

lemma native_arity : (op.native name view).arity = op.arity := by cases op <;> rfl

/-- An operation insists on a function, looks at its sequences and begins to work. -/
lemma native_body (h : op.arity.accepts (op.arguments func initial values).length = true) :
    (op.native name view).body (op.arguments func initial values) frame =
      (expectFunction name func).bind fun _ =>
        (viewAll view name values).bind (op.work func initial frame) := by
  cases op with
  | map =>
    match values, h with
    | value :: values, _ =>
      rw [viewAll_cons_bind]
      rfl
  | forEach =>
    match values, h with
    | value :: values, _ =>
      change ((expectFunction name func).bind fun _ =>
        (viewAll view name (value :: values)).bind fun ss =>
          (applyEach func frame [] (rows (ss.map items))).bind fun _ =>
            done Value.nil) = _
      rw [viewAll_cons_bind, viewAll_cons_bind]
      rfl
  | filter | remove | find =>
    match values, h with
    | [value], _ =>
      rw [viewAll_cons_bind]
      rfl
  | reduce =>
    match values, h with
    | [value], _ =>
      rw [viewAll_cons_bind]
      rfl

/-! ### What the programs do -/

lemma steps_cons (column : List Value) {columns : List (List Value)} (h : columns ≠ []) :
    steps (column :: columns) = column.zipWith List.cons (steps columns) := by
  obtain ⟨k, hk⟩ : ∃ k, (columns.map List.length).min? = some k := by
    cases columns with
    | nil => exact absurd rfl h
    | cons c cs => exact ⟨_, rfl⟩
  have hlength : ((column :: columns).map List.length).min? = some (min column.length k) := by
    rw [List.map_cons, List.min?_cons, hk]
    rfl
  rw [steps, steps, hlength, hk]
  refine List.ext_getElem (by simp) fun i hi _ => ?_
  have hlt : i < column.length := by
    simp only [Option.getD_some, List.length_map, List.length_range] at hi
    omega
  simp [List.getElem?_eq_getElem hlt]

lemma rows_eq_steps (columns : List (List Value)) : rows columns = steps columns := by
  induction columns with
  | nil => rfl
  | cons column rest ih =>
    cases rest with
    | nil =>
      refine List.ext_getElem (by simp [rows, steps]) fun i hi _ => ?_
      have hlt : i < column.length := by simpa [rows] using hi
      simp [rows, steps, List.getElem?_eq_getElem hlt]
    | cons second rest => rw [rows, ih, steps_cons column (by simp)]; simp

lemma act_build (kind : Kind) (items : List Value) :
    (build kind items).act answer = fresh kind items := by
  cases kind <;> rfl

/-- Once the sequences are seen, an operation does what it means. -/
lemma act_work (first : Sequence) (others : List Sequence) :
    (op.work func initial frame (first :: others)).act answer =
      op.meaning (fun args => answer (.apply func args frame)) initial first others := by
  cases op with
  | map => simp [work, meaning, act_applyEach, rows_eq_steps, act_build]
  | forEach => simp [work, meaning, act_applyEach, rows_eq_steps]
  | filter => simp [work, meaning, act_select, act_build, List.filterM]
  | remove => simp [work, meaning, act_select, act_build, List.filterM]
  | reduce =>
    cases h : first.items with
    | nil => simp [work, meaning, h, Sequence.reduce]
    | cons item rest => simp [work, meaning, h, Sequence.reduce, act_foldFrom]
  | find => simp [work, meaning, act_find]

/-! ### Calls -/

lemma exists_arguments {args : List Value} (h : op.arity.accepts args.length = true) :
    ∃ func initial values, args = op.arguments func initial values := by
  cases op with
  | reduce =>
    match args, h with
    | [func, initial, value], _ => exact ⟨func, initial, [value], rfl⟩
  | map | forEach | filter | remove | find =>
    match args, h with
    | func :: values, _ => exact ⟨func, .nil, values, rfl⟩

lemma drop_arguments : (op.arguments func initial values).drop op.leading = values := by
  cases op <;> rfl

lemma refusal?_arguments {h : Heap}
    (haccepts : op.arity.accepts (op.arguments func initial values).length = true) :
    op.refusal? name h (op.arguments func initial values) =
      if func.isFunction then none
      else some (.type (s!"{name} needs a function, but got " ++ h.render func)) := by
  unfold refusal?
  rw [if_pos haccepts]
  cases op <;> rfl

lemma unlessRefused_of_not_accepts {args : List Value} {outcome : Outcome Value}
    (h : ¬op.arity.accepts args.length = true) : op.unlessRefused name args t outcome =
      .answered (.error (.arity op.arity args.length (some name))) t := by
  unfold unlessRefused refusal?
  rw [if_neg h]

end Traversal

namespace Machine

open Program Sequence Traversal

variable {m : Machine} {p : Primitive} {op : Traversal} {name : String} {view : View}

lemma carries_native (hp : m.IsStandard p op.name) : m.Carries p (op.native op.name ofAny) := by
  cases op <;> exact hp.carries rfl

lemma carries_vector_native (hp : m.IsStandard p op.vectorName) :
    m.Carries p (op.native op.vectorName ofVector) := by
  cases op <;> exact hp.carries rfl

variable {r : Request} {frame : FrameId} {answer : Answer} {s t : State} {func initial : Value}
  {args values : List Value}

/-- A call is refused, or the sequences are looked at and the work begins. -/
lemma execute_traversal (hp : m.Carries p (op.native name view)) (hr : r.IsCall p frame)
    (henters : r.Enters answer s args t)
    (hargs : op.arity.accepts args.length = true → args = op.arguments func initial values) :
    (m.serve r s).execute answer = op.unlessRefused name args t
      (((viewAll view name values).bind (op.work func initial frame)).act answer t) := by
  rw [serve_call hp hr, execute_called native_kind hr henters, Native.invoked, native_arity,
    native_name, unlessRefused]
  by_cases haccepts : op.arity.accepts args.length = true
  · obtain rfl := hargs haccepts
    rw [if_pos haccepts, native_body haccepts, refusal?_arguments haccepts, expectFunction]
    by_cases hfunc : func.isFunction
    · rw [if_pos hfunc, if_pos hfunc]
      rfl
    · rw [if_neg hfunc, if_neg hfunc]
      rfl
  · unfold refusal?
    rw [if_neg haccepts, if_neg haccepts]
    rfl

variable {pred : Value} {verdict : Value → Bool} {items : List Value}

/-- A predicate whose calls return selects the items with the right verdict. -/
lemma exists_selected {value : Value} {kind : Kind} {keep : Bool}
    (hp : m.Carries p (selection name keep ofAny)) (hpred : pred.isFunction)
    (hvalue : s.heap.sequence? value = some ⟨kind, items⟩)
    (hverdict : ∀ x ∈ items, ∀ u,
      m.Asks (.apply (.primitive p) [pred, value] frame, s) (.apply pred [x] frame, u) →
        ∃ fuel v w, m.perform fuel (.apply pred [x] frame) u = (.ok v, w) ∧
          v.isTruthy = verdict x) :
    ∃ fuel w t, m.perform fuel (.apply (.primitive p) [pred, value] frame) s = (.ok w, t) ∧
      t.heap.sequence? w = some ⟨kind, items.filter (verdict · == keep)⟩ := by
  have hserve : m.serve (.apply (.primitive p) [pred, value] frame) s =
      ((select pred keep frame [] items).run s).bind fun kept => (build kind kept).run := by
    rw [serve_call hp (.apply _)]
    change ((expectFunction name pred).bind fun _ => (ofAny name value).bind fun sequence =>
      (select pred keep frame [] sequence.items).bind (build sequence.kind)).run s = _
    rw [expectFunction, if_pos hpred, done_bind, run_bind, Run.bind_apply,
      ofAny_of_sequence? hvalue, Plan.bind_stop_ok, run_bind]
    rfl
  have hqueries : (select pred keep frame [] items).Queries (Tests pred frame items)
      (Judges verdict pred frame) fun kept => kept = items.filter (verdict · == keep) :=
    (select_queries (List.Subset.refl items)).mono (fun _ h => h) fun _ h => h
  obtain ⟨fuel, kept, t, hkept, rfl⟩ := hqueries.exists_result (m := m) (s := s) <| by
    rintro q u ⟨x, hx, rfl⟩ ⟨fuel, hq⟩
    have hasks : m.Asks (.apply (.primitive p) [pred, value] frame, s)
        (.apply pred [x] frame, u) := by
      refine ⟨fuel, ?_⟩
      dsimp only
      rw [hserve]
      exact hq.bind_left
    obtain ⟨fuel, v, w, hv, hjudged⟩ := hverdict x hx u hasks
    refine ⟨fuel, v, w, hv, fun y hy => ?_⟩
    cases hy
    exact hjudged
  obtain ⟨w, u, hw, helements, hkind⟩ := build_run kind (items.filter (verdict · == keep)) t
  refine ⟨fuel + 1, w, u, ?_, Heap.sequence?_of_elements? helements hkind⟩
  rw [perform_succ, hserve, Plan.execute_bind hkept]
  exact congrArg (Plan.execute _) hw

end Machine

/-! ### The laws of the operations -/

/-- Two lists that are parts of a third one, in its order, and together hold each element once. -/
structure Splits (items kept removed : List Value) : Prop where
  kept_sublist : kept.Sublist items
  removed_sublist : removed.Sublist items
  perm : (kept ++ removed).Perm items

lemma splits_filter (items : List Value) (verdict : Value → Bool) :
    Splits items (items.filter verdict) (items.filter fun x => !verdict x) :=
  ⟨List.filter_sublist, List.filter_sublist, List.filter_append_perm verdict items⟩

/-- What the operations on the elements of sequences do on a machine. In the first two laws requests
are answered in any way at all; the machine itself answers them by `m.perform fuel`, which makes the
outcomes those of `m.perform (fuel + 1)`. -/
structure Machine.Traverses (m : Machine) : Prop where
  /-- A call does what the operation means for the elements that its sequences hold once the
  arguments are evaluated. It asks for nothing but the calls of its function. -/
  snapshot : ∀ {op : Traversal} {p : Primitive} {r : Request} {frame : FrameId} {answer : Answer}
    {s t : State} {func initial : Value} {values : List Value} {first : Sequence}
    {others : List Sequence}, m.IsStandard p op.name → r.IsCall p frame →
    op.arity.accepts (op.arguments func initial values).length = true → func.isFunction →
    r.Enters answer s (op.arguments func initial values) t →
    values.mapM t.heap.sequence? = some (first :: others) →
    (m.serve r s).execute answer =
      op.meaning (fun args => answer (.apply func args frame)) initial first others t
  /-- If all sequences are vectors, the two versions of an operation differ in nothing but the name
  in the error of a call that is refused. -/
  counterpart : ∀ {op : Traversal} {p q : Primitive} {r r' : Request} {frame : FrameId}
    {answer : Answer} {s t : State} {args : List Value}, m.IsStandard p op.name →
    m.IsStandard q op.vectorName → r.IsCall p frame → r'.IsCall q frame →
    r.Enters answer s args t → r'.Enters answer s args t →
    (∀ v ∈ args.drop op.leading, ∃ id, v = .vector id) →
    ∃ outcome, (m.serve r s).execute answer = op.unlessRefused op.name args t outcome ∧
      (m.serve r' s).execute answer = op.unlessRefused op.vectorName args t outcome
  /-- If the calls of a predicate return, and whether their answers count as true depends on the
  element alone, both operations return, and each element is in the result of one of them. -/
  complement : ∀ {p q : Primitive} {pred value value' : Value} {frame : FrameId} {s s' : State}
    {kind kind' : Sequence.Kind} {items : List Value} {verdict : Value → Bool},
    m.IsStandard p Traversal.filter.name → m.IsStandard q Traversal.remove.name →
    pred.isFunction → s.heap.sequence? value = some ⟨kind, items⟩ →
    s'.heap.sequence? value' = some ⟨kind', items⟩ →
    (∀ x ∈ items, ∀ u,
      m.Asks (.apply (.primitive p) [pred, value] frame, s) (.apply pred [x] frame, u) ∨
        m.Asks (.apply (.primitive q) [pred, value'] frame, s') (.apply pred [x] frame, u) →
      ∃ fuel v w, m.perform fuel (.apply pred [x] frame) u = (.ok v, w) ∧
        v.isTruthy = verdict x) →
    ∃ fuel v t w t',
      m.perform fuel (.apply (.primitive p) [pred, value] frame) s = (.ok v, t) ∧
      m.perform fuel (.apply (.primitive q) [pred, value'] frame) s' = (.ok w, t') ∧
      t.heap.sequence? v = some ⟨kind, items.filter verdict⟩ ∧
      t'.heap.sequence? w = some ⟨kind', items.filter fun x => !verdict x⟩ ∧
      Splits items (items.filter verdict) (items.filter fun x => !verdict x)

namespace Machine

open Program Sequence Traversal

theorem traverses (m : Machine) : m.Traverses where
  snapshot := by
    intro op p r frame answer s t func initial values first others hp hr haccepts hfunc henters
      hvalues
    rw [execute_traversal (carries_native hp) hr henters fun _ => rfl, unlessRefused,
      refusal?_arguments haccepts, if_pos hfunc, act_bind, Act.bind_apply, Program.act,
      viewAll_of_sequences hvalues]
    exact congrFun (act_work first others) t
  counterpart := by
    intro op p q r r' frame answer s t args hp hq hr hr' henters henters' hvectors
    by_cases haccepts : op.arity.accepts args.length = true
    · obtain ⟨func, initial, values, rfl⟩ := exists_arguments haccepts
      rw [drop_arguments] at hvectors
      refine ⟨_, execute_traversal (carries_native hp) hr henters fun _ => rfl, ?_⟩
      rw [viewAll_vectors hvectors op.name op.vectorName]
      exact execute_traversal (carries_vector_native hq) hr' henters' fun _ => rfl
    · -- there is nothing to look at, since the call is refused
      have hargs (h : op.arity.accepts args.length = true) : args = op.arguments .nil .nil [] :=
        absurd h haccepts
      refine ⟨(.error .fault, t), ?_, ?_⟩
      · rw [execute_traversal (carries_native hp) hr henters hargs,
          unlessRefused_of_not_accepts haccepts, unlessRefused_of_not_accepts haccepts]
      · rw [execute_traversal (carries_vector_native hq) hr' henters' hargs,
          unlessRefused_of_not_accepts haccepts, unlessRefused_of_not_accepts haccepts]
  complement := by
    intro p q pred value value' frame s s' kind kind' items verdict hp hq hpred hvalue hvalue'
      hverdict
    have hfilter : m.Carries p (selection filter.name true ofAny) := carries_native hp
    have hremove : m.Carries q (selection remove.name false ofAny) := carries_native hq
    obtain ⟨n, v, t, hv, hkept⟩ := exists_selected hfilter hpred hvalue fun x hx u hu =>
      hverdict x hx u (.inl hu)
    obtain ⟨k, w, t', hw, hremoved⟩ := exists_selected hremove hpred hvalue' fun x hx u hu =>
      hverdict x hx u (.inr hu)
    refine ⟨max n k, v, t, w, t', ?_, ?_, by simpa using hkept, by simpa using hremoved,
      splits_filter items verdict⟩
    · exact (perform_mono (Nat.le_max_left n k) _ s (by rw [hv]; nofun)).trans hv
    · exact (perform_mono (Nat.le_max_right n k) _ s' (by rw [hw]; nofun)).trans hw

end Machine

namespace Interpreter

open Sequence

/-- The primitive that tells whether an integer is even. -/
def evenPrimitive : Primitive := ⟨34, "even?", .exactly 1, .function⟩

def filterPrimitive : Primitive := ⟨63, "filter", .exactly 2, .function⟩

def removePrimitive : Primitive := ⟨64, "remove", .exactly 2, .function⟩

def findPrimitive : Primitive := ⟨66, "find", .exactly 2, .function⟩

def vectorFindPrimitive : Primitive := ⟨101, "vector-find", .exactly 2, .function⟩

/-- The predicate answers and does nothing else. -/
lemma perform_even (n : Int64) (frame : FrameId) (fuel : Nat) (s : State) :
    (full .standard).machine.perform (fuel + 1)
      (.apply (.primitive evenPrimitive) [.int n] frame) s =
        (.ok (.bool (n.toInt % 2 == 0)), s) := by
  have hcarries : (full .standard).machine.Carries evenPrimitive
      (.fixed "even?" [.int] fun n => Arithmetic.giveBool (n.toInt % 2 == 0)) := ⟨rfl, rfl⟩
  rw [Machine.perform_succ, Machine.serve_call hcarries (.apply _)]
  rfl

/-- The verdict of the predicate. -/
def evenInt : Value → Bool
  | .int n => n.toInt % 2 == 0
  | _ => false

/-- A call of a primitive with the predicate and a vector. -/
def callWithEven (p : Primitive) : Request :=
  .apply (.primitive p) [.primitive evenPrimitive, .vector ⟨0⟩] .global

/-- Of `3`, `1` and `2` the first even one is found, by both versions, and the even ones are kept
while the others are removed. -/
theorem traverses_even :
    (full .standard).machine.perform 2 (callWithEven findPrimitive) unsorted =
        (.ok (.int 2), unsorted) ∧
      (full .standard).machine.perform 2 (callWithEven vectorFindPrimitive) unsorted =
        (.ok (.int 2), unsorted) ∧
      ∃ fuel v t w t',
        (full .standard).machine.perform fuel (callWithEven filterPrimitive) unsorted = (.ok v, t) ∧
        (full .standard).machine.perform fuel (callWithEven removePrimitive) unsorted =
          (.ok w, t') ∧
        t.heap.sequence? v = some ⟨.vector, [.int 2]⟩ ∧
        t'.heap.sequence? w = some ⟨.vector, [.int 3, .int 1]⟩ := by
  have hfind : (full .standard).machine.IsStandard findPrimitive Traversal.find.name :=
    ⟨_, List.mem_of_getElem? (i := 66) rfl, rfl, rfl, rfl⟩
  have hvectorFind :
      (full .standard).machine.IsStandard vectorFindPrimitive Traversal.find.vectorName :=
    ⟨_, List.mem_of_getElem? (i := 101) rfl, rfl, rfl, rfl⟩
  have hfilter : (full .standard).machine.IsStandard filterPrimitive Traversal.filter.name :=
    ⟨_, List.mem_of_getElem? (i := 63) rfl, rfl, rfl, rfl⟩
  have hremove : (full .standard).machine.IsStandard removePrimitive Traversal.remove.name :=
    ⟨_, List.mem_of_getElem? (i := 64) rfl, rfl, rfl, rfl⟩
  have hcall (n : Int64) : (full .standard).machine.perform 1
      (.apply (.primitive evenPrimitive) [.int n] .global) =
        (pure (.bool (n.toInt % 2 == 0)) : Act Value) :=
    funext (perform_even n .global 0)
  have hmeaning : Traversal.find.meaning (fun args => (full .standard).machine.perform 1
      (.apply (.primitive evenPrimitive) args .global)) .nil
        ⟨.vector, [.int 3, .int 1, .int 2]⟩ [] unsorted = (.ok (.int 2), unsorted) := by
    simp only [Traversal.meaning, List.findM?, hcall, pure_bind]
    rfl
  have hfound : (full .standard).machine.perform 2 (callWithEven findPrimitive) unsorted =
      Traversal.find.meaning (fun args => (full .standard).machine.perform 1
        (.apply (.primitive evenPrimitive) args .global)) .nil
          ⟨.vector, [.int 3, .int 1, .int 2]⟩ [] unsorted :=
    (Machine.traverses (full .standard).machine).snapshot hfind (.apply _) rfl rfl ⟨rfl, rfl⟩ rfl
  refine ⟨hfound.trans hmeaning, ?_, ?_⟩
  · have hvectors : ∀ v ∈ [Value.vector ⟨0⟩], ∃ id, v = .vector id := by simp
    obtain ⟨outcome, hany, hvector⟩ : ∃ outcome,
        (full .standard).machine.perform 2 (callWithEven findPrimitive) unsorted = outcome ∧
        (full .standard).machine.perform 2 (callWithEven vectorFindPrimitive) unsorted = outcome :=
      (Machine.traverses (full .standard).machine).counterpart hfind hvectorFind (.apply _)
        (.apply _) ⟨rfl, rfl⟩ ⟨rfl, rfl⟩ hvectors
    exact hvector.trans (hany.symm.trans (hfound.trans hmeaning))
  · have hvalue : unsorted.heap.sequence? (.vector ⟨0⟩) =
        some ⟨.vector, [.int 3, .int 1, .int 2]⟩ := rfl
    have hverdict (x : Value) (hx : x ∈ [Value.int 3, .int 1, .int 2]) (u : State) :
        ∃ fuel v w, (full .standard).machine.perform fuel
          (.apply (.primitive evenPrimitive) [x] .global) u = (.ok v, w) ∧
            v.isTruthy = evenInt x := by
      simp only [List.mem_cons, List.not_mem_nil, or_false] at hx
      obtain rfl | rfl | rfl := hx
      · exact ⟨1, _, u, perform_even 3 .global 0 u, rfl⟩
      · exact ⟨1, _, u, perform_even 1 .global 0 u, rfl⟩
      · exact ⟨1, _, u, perform_even 2 .global 0 u, rfl⟩
    obtain ⟨fuel, v, t, w, t', hv, hw, hkept, hremoved, -⟩ :=
      (Machine.traverses (full .standard).machine).complement hfilter hremove rfl hvalue hvalue
        fun x hx u _ => hverdict x hx u
    exact ⟨fuel, v, t, w, t', hv, hw, hkept, hremoved⟩

end Interpreter

end HostedLisp
