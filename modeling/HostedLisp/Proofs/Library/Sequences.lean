import HostedLisp.Library.Lists
import HostedLisp.Library.Vectors
import HostedLisp.Proofs.Library.Natives

/-!
# Operations on sequences within a vocabulary

The operations that call back see a sequence as its elements and call with a row of them. Which
calls they may make is a hypothesis of each lemma, so the lemmas serve lists and vectors alike.
-/

namespace HostedLisp.Sequence

open Program Vocabulary

variable {V : Vocabulary} {may : Request → Prop} {frame : FrameId}

/-! ### Views -/

/-- Seeing a value as a sequence asks for nothing and speaks the vocabulary. -/
def View.Speaks (V : Vocabulary) (view : View) : Prop :=
  ∀ (may : Request → Prop) (name : String) (value : Value), V.text name → value.In V →
    (view name value).Speaks V may fun s => AllIn V s.items

lemma speaks_vectorItems [V.Coherent] {name : String} {value : Value} {post : List Value → Prop}
    (hname : V.text name) (hv : value.In V) (h : ∀ items, AllIn V items → post items) :
    (vectorItems name value).Speaks V may post := by
  cases value with
  | vector id => exact fun heap hheap => h _ (hheap.slots id)
  | _ => exact speaks_wrongType (Coherent.append hname (Coherent.line (by decide))) hv

lemma ofVector_speaks [V.Coherent] : View.Speaks V ofVector := by
  intro may name value hname hv
  rw [ofVector, speaks_bind]
  exact speaks_vectorItems hname hv fun items hi => hi

lemma ofAny_speaks [V.Coherent] : View.Speaks V ofAny := by
  intro may name value hname hv
  cases value with
  | vector id => exact fun heap hheap => hheap.slots id
  | _ =>
    simp only [ofAny, speaks_look]
    intro heap hheap
    split
    · next items heq => exact hheap.listItems? heq
    · exact speaks_wrongType (Coherent.append hname (Coherent.line (by decide))) hv

lemma speaks_viewAll {view : View} (hview : view.Speaks V) {name : String} {values : List Value}
    {post : List Sequence → Prop} (hname : V.text name) (hv : AllIn V values)
    (h : ∀ ss, (∀ s ∈ ss, AllIn V s.items) → ss.length = values.length → post ss) :
    (viewAll view name values).Speaks V may post := by
  induction values generalizing post with
  | nil => exact h [] nofun rfl
  | cons v rest ih =>
    rw [AllIn.cons_iff] at hv
    simp only [viewAll, speaks_bind]
    refine (hview may name v hname hv.1).imp fun s hs => ih hv.2 fun ss hss hlen => ?_
    exact h (s :: ss) (List.forall_mem_cons.2 ⟨hs, hss⟩) (congrArg (· + 1) hlen)

lemma speaks_expectFunction [V.Coherent] {name : String} {value : Value} {post : Unit → Prop}
    (hname : V.text name) (hv : value.In V) (h : post ()) :
    (expectFunction name value).Speaks V may post := by
  rw [expectFunction]
  split
  · exact h
  · exact speaks_wrongType (Coherent.append hname (Coherent.line (by decide))) hv


lemma speaks_elementAt {name : String} {items : List Value} {index : Int64}
    (hi : AllIn V items) : (elementAt name items index).Speaks V may (Value.In V) := by
  rw [elementAt]
  split
  · next value heq =>
    split at heq
    · cases heq
    · exact hi value (List.mem_of_getElem? heq)
  · exact trivial

lemma speaks_build {kind : Kind} {items : List Value} (hi : AllIn V items) :
    (build kind items).Speaks V may (Value.In V) := by
  cases kind with
  | list => exact speaks_list hi fun _ hv => hv
  | vector => exact speaks_vector hi fun _ hv => hv

/-! ### Calls -/

/-- Functions may be called with so many arguments. -/
def Calls (may : Request → Prop) (count : Nat) : Prop :=
  ∀ func args frame, args.length = count → may (.apply func args frame)

lemma speaks_apply {count : Nat} (hcall : Calls may count) {func : Value} {args : List Value}
    {post : Value → Prop} (hf : func.In V) (ha : AllIn V args) (hlen : args.length = count)
    (h : ∀ v, v.In V → post v) : (apply func args frame).Speaks V may post :=
  ⟨⟨hcall func args frame hlen, hf, ha⟩, h⟩

/-- Each row has an element of every column. -/
lemma mem_rows {columns : List (List Value)} {row : List Value} (hmem : row ∈ rows columns) :
    row.length = columns.length ∧ ∀ v ∈ row, ∃ column ∈ columns, v ∈ column := by
  induction columns generalizing row with
  | nil => simp [rows] at hmem
  | cons column rest ih =>
    cases rest with
    | nil =>
      obtain ⟨v, hv, rfl⟩ := List.mem_map.1 hmem
      exact ⟨rfl, by simpa using hv⟩
    | cons second rest =>
      rw [rows] at hmem
      · rw [← List.map_uncurry_zip_eq_zipWith, List.mem_map] at hmem
        obtain ⟨⟨v, tail⟩, hzip, rfl⟩ := hmem
        obtain ⟨hv, htail⟩ := List.of_mem_zip hzip
        obtain ⟨hlen, hin⟩ := ih htail
        refine ⟨congrArg (· + 1) hlen, List.forall_mem_cons.2 ⟨?_, fun w hw => ?_⟩⟩
        · exact ⟨column, List.mem_cons_self, hv⟩
        · obtain ⟨c, hc, hwc⟩ := hin w hw
          exact ⟨c, List.mem_cons_of_mem _ hc, hwc⟩
      · simp

lemma speaks_applyEach {count : Nat} (hcall : Calls may count) {func : Value}
    {before : List Value} {argLists : List (List Value)} {post : List Value → Prop}
    (hf : func.In V) (hb : AllIn V before)
    (ha : ∀ args ∈ argLists, AllIn V args ∧ args.length = count)
    (h : ∀ vs, AllIn V vs → post vs) :
    (applyEach func frame before argLists).Speaks V may post := by
  induction argLists generalizing before with
  | nil => exact h _ (AllIn.reverse_iff.2 hb)
  | cons args rest ih =>
    rw [List.forall_mem_cons] at ha
    rw [applyEach, speaks_bind]
    refine speaks_apply hcall hf ha.1.1 ha.1.2 fun v hv => ?_
    exact ih (AllIn.cons_iff.2 ⟨hv, hb⟩) ha.2

/-- Calls with the rows of some columns have as many arguments as there are columns. -/
lemma speaks_applyRows {columns : List (List Value)} (hcall : Calls may columns.length)
    {func : Value} {post : List Value → Prop} (hf : func.In V)
    (hc : ∀ column ∈ columns, AllIn V column) (h : ∀ vs, AllIn V vs → post vs) :
    (applyEach func frame [] (rows columns)).Speaks V may post := by
  refine speaks_applyEach hcall hf AllIn.nil (fun row hrow => ?_) h
  obtain ⟨hlen, hin⟩ := mem_rows hrow
  refine ⟨fun v hv => ?_, hlen⟩
  obtain ⟨column, hcol, hmem⟩ := hin v hv
  exact hc column hcol v hmem

lemma speaks_select (hcall : Calls may 1) {pred : Value} {keep : Bool} {before items : List Value}
    {post : List Value → Prop} (hp : pred.In V) (hb : AllIn V before) (hi : AllIn V items)
    (h : ∀ vs, AllIn V vs → post vs) :
    (select pred keep frame before items).Speaks V may post := by
  induction items generalizing before with
  | nil => exact h _ (AllIn.reverse_iff.2 hb)
  | cons item rest ih =>
    rw [AllIn.cons_iff] at hi
    rw [select, speaks_bind]
    refine speaks_apply hcall hp (AllIn.cons_iff.2 ⟨hi.1, AllIn.nil⟩) rfl fun v hv => ?_
    split
    · exact ih (AllIn.cons_iff.2 ⟨hi.1, hb⟩) hi.2
    · exact ih hb hi.2

lemma speaks_foldFrom (hcall : Calls may 2) {func acc : Value} {items : List Value}
    (hf : func.In V) (ha : acc.In V) (hi : AllIn V items) :
    (foldFrom func frame acc items).Speaks V may (Value.In V) := by
  induction items generalizing acc with
  | nil => exact ha
  | cons item rest ih =>
    rw [AllIn.cons_iff] at hi
    rw [foldFrom, speaks_bind]
    have hargs : AllIn V [acc, item] := by simp [ha, hi.1]
    exact speaks_apply hcall hf hargs rfl fun v hv => ih hv hi.2

lemma speaks_reduce (hcall : Calls may 2) {func initial : Value} {items : List Value}
    (hf : func.In V) (h0 : initial.In V) (hi : AllIn V items) :
    (reduce func initial frame items).Speaks V may (Value.In V) := by
  cases items with
  | nil => exact h0
  | cons first rest =>
    rw [AllIn.cons_iff] at hi
    exact speaks_foldFrom hcall hf hi.1 hi.2

lemma speaks_find (hcall : Calls may 1) {pred : Value} {items : List Value} (hp : pred.In V)
    (hi : AllIn V items) : (find pred frame items).Speaks V may (Value.In V) := by
  induction items with
  | nil => exact Value.in_bool false
  | cons item rest ih =>
    rw [AllIn.cons_iff] at hi
    rw [find, speaks_bind]
    refine speaks_apply hcall hp (AllIn.cons_iff.2 ⟨hi.1, AllIn.nil⟩) rfl fun v hv => ?_
    split
    · exact hi.1
    · exact ih hi.2

lemma speaks_merge (hcall : Calls may 2) {less : Value} (hl : less.In V)
    {before left right : List Value} (hb : AllIn V before) (h1 : AllIn V left)
    (h2 : AllIn V right) : (merge less frame before left right).Speaks V may (AllIn V) := by
  fun_induction merge less frame before left right with
  | case1 before right => exact AllIn.append_iff.2 ⟨AllIn.reverse_iff.2 hb, h2⟩
  | case2 before left => exact AllIn.append_iff.2 ⟨AllIn.reverse_iff.2 hb, h1⟩
  | case3 before l left r right ih1 ih2 =>
    have hl' := AllIn.cons_iff.1 h1
    have hr' := AllIn.cons_iff.1 h2
    have hargs : AllIn V [r, l] := by simp [hl'.1, hr'.1]
    rw [speaks_bind]
    refine speaks_apply hcall hl hargs rfl fun v hv => ?_
    split
    · exact ih1 (AllIn.cons_iff.2 ⟨hr'.1, hb⟩) h1 hr'.2
    · exact ih2 (AllIn.cons_iff.2 ⟨hl'.1, hb⟩) hl'.2 h2

/-- Sorting compares two elements at a time. -/
lemma speaks_mergeSort (hcall : Calls may 2) {less : Value} (hl : less.In V)
    {items : List Value} (hi : AllIn V items) :
    (mergeSort less frame items).Speaks V may (AllIn V) := by
  fun_induction mergeSort less frame items with
  | case1 items hlen => exact hi
  | case2 items hlen ih1 ih2 =>
    simp only [speaks_bind]
    refine (ih1 (hi.sublist (List.take_sublist _ _))).imp fun left hleft => ?_
    refine (ih2 (hi.sublist (List.drop_sublist _ _))).imp fun right hright => ?_
    exact speaks_merge hcall hl AllIn.nil hleft hright

/-! ### Primitives -/

variable {name : String} {view : View}

lemma calls_reach (name : String) {count arguments : Nat} (h : arguments < count) :
    Calls (fun r => r.weight ≤ reach name count) arguments := by
  intro func args frame hlen
  have := lt_reach name count
  simp only [Request.weight]
  omega

/-- A primitive that sorts may call with as many arguments as it has itself. -/
lemma calls_of_sorts {count : Nat} (hsort : name ∈ sortNames) :
    Calls (fun r => r.weight ≤ reach name count) count := by
  intro func args frame hlen
  simp [Request.weight, reach, hsort, hlen]

variable [V.Coherent]

lemma mapping_speaks (hview : view.Speaks V) (hname : V.text name) :
    (mapping name view).Speaks V := by
  intro args frame haccepts ha
  match args, haccepts, ha with
  | func :: value :: values, _, ha =>
    simp only [AllIn.cons_iff] at ha
    simp only [mapping, Native.function, bind_eq_bind, speaks_bind]
    refine speaks_expectFunction hname ha.1 ?_
    refine (hview _ name value hname ha.2.1).imp fun first hfirst => ?_
    refine speaks_viewAll hview hname ha.2.2 fun others hothers hlen => ?_
    refine speaks_applyRows (calls_reach name ?_) ha.1 ?_ fun results hr => speaks_build hr
    · simp [hlen]
    · simpa using ⟨hfirst, hothers⟩

lemma iteration_speaks (hview : view.Speaks V) (hname : V.text name) :
    (iteration name view).Speaks V := by
  intro args frame haccepts ha
  match args, haccepts, ha with
  | func :: values, _, ha =>
    rw [AllIn.cons_iff] at ha
    simp only [iteration, Native.function, bind_eq_bind, speaks_bind]
    refine speaks_expectFunction hname ha.1 (speaks_viewAll hview hname ha.2 fun ss hss hlen => ?_)
    refine speaks_applyRows (calls_reach name ?_) ha.1 ?_ fun _ _ => Value.in_nil
    · simp [hlen]
    · simpa using hss

lemma selection_speaks {keep : Bool} (hview : view.Speaks V) (hname : V.text name) :
    (selection name keep view).Speaks V := by
  intro args frame haccepts ha
  match args, haccepts, ha with
  | [pred, value], _, ha =>
    simp only [AllIn.cons_iff] at ha
    simp only [selection, Native.function, bind_eq_bind, speaks_bind]
    refine speaks_expectFunction hname ha.1 ((hview _ name value hname ha.2.1).imp fun s hs => ?_)
    have hcall := calls_reach name (show 1 < [pred, value].length by simp)
    exact speaks_select hcall ha.1 AllIn.nil hs fun kept hk => speaks_build hk

lemma reduction_speaks (hview : view.Speaks V) (hname : V.text name) :
    (reduction name view).Speaks V := by
  intro args frame haccepts ha
  match args, haccepts, ha with
  | [func, initial, value], _, ha =>
    simp only [AllIn.cons_iff] at ha
    simp only [reduction, Native.function, bind_eq_bind, speaks_bind]
    refine speaks_expectFunction hname ha.1 ?_
    refine (hview _ name value hname ha.2.2.1).imp fun s hs => ?_
    exact speaks_reduce (calls_reach name (by simp)) ha.1 ha.2.1 hs

lemma search_speaks (hview : view.Speaks V) (hname : V.text name) :
    (search name view).Speaks V := by
  intro args frame haccepts ha
  match args, haccepts, ha with
  | [pred, value], _, ha =>
    simp only [AllIn.cons_iff] at ha
    simp only [search, Native.function, bind_eq_bind, speaks_bind]
    refine speaks_expectFunction hname ha.1 ((hview _ name value hname ha.2.1).imp fun s hs => ?_)
    exact speaks_find (calls_reach name (by simp)) ha.1 hs

lemma sorting_speaks (hview : view.Speaks V) (hname : V.text name) (hsort : name ∈ sortNames) :
    (sorting name view).Speaks V := by
  intro args frame haccepts ha
  match args, haccepts, ha with
  | [value, less], _, ha =>
    simp only [AllIn.cons_iff] at ha
    simp only [sorting, Native.function, bind_eq_bind, speaks_bind]
    refine (hview _ name value hname ha.1).imp fun s hs => speaks_expectFunction hname ha.2.1 ?_
    exact (speaks_mergeSort (calls_of_sorts hsort) ha.2.1 hs).imp fun sorted hr => speaks_build hr

end HostedLisp.Sequence
