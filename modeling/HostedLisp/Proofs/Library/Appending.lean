import HostedLisp.Proofs.Heap.Chains
import HostedLisp.Proofs.Library.TypedCalls

/-!
# Appending

A chain of the elements of several lists is made of new pairs, and ends in the very value that was
given last, whatever that is. The lists stay as they are, and no later change of them reaches the
new pairs. Main definitions: `Change.Writes`, `Heap.Appended`. Main statement:
`Machine.append_copies`.
-/

namespace HostedLisp

/-- A change writes into a pair. -/
def Change.Writes (c : Change) (id : CellId) : Prop :=
  match c with
  | .setHead target _ | .setTail target _ => target = id
  | _ => False

namespace Heap

variable {h h' : Heap} {ids : List CellId} {id : CellId} {value last : Value} {c : Change}
  {changes : List Change}

/-! ### Pairs that no change writes into -/

lemma cells_setSlots (h : Heap) (target : VectorId) (start : Nat) (values : List Value) :
    (h.setSlots target start values).cells = h.cells := by
  induction values generalizing h start with
  | nil => rfl
  | cons value rest ih => exact ih _ _

lemma cells_copySlots (h : Heap) (source : VectorId) (start count : Nat) (target : VectorId)
    (position : Nat) (descending : Bool) :
    (h.copySlots source start count target position descending).cells = h.cells := by
  unfold copySlots
  generalize (if descending then (List.range count).reverse else List.range count) = offsets
  induction offsets generalizing h with
  | nil => rfl
  | cons k rest ih => exact ih _

/-- A pair was given out, and another heap has it as it is. -/
def Keeps (h h' : Heap) (id : CellId) : Prop :=
  id.index < h'.cells.size ∧ h'.cell id = h.cell id

lemma keeps_of_extends (hext : h.Extends h') (hid : id.index < h.cells.size) : h.Keeps h' id :=
  ⟨hid.trans_le hext.cells, hext.cell id hid⟩

lemma keeps_of_cells (hcells : h'.cells = h.cells) (hid : id.index < h.cells.size) :
    h.Keeps h' id := by
  rw [Keeps, cell, cell, hcells]
  exact ⟨hid, rfl⟩

lemma keeps_apply (hid : id.index < h.cells.size) (hc : ¬c.Writes id) :
    h.Keeps (h.apply c).2 id := by
  cases c with
  | chain items tail => exact keeps_of_extends (newChain_spine h items tail).1 hid
  | place d => exact keeps_of_extends (place_unfolds h d).1 hid
  | placeAll ds => exact keeps_of_extends (placeAll_unfolds h ds).1 hid
  | setHead target value =>
    refine ⟨hid.trans_eq Array.size_modify.symm, ?_⟩
    rw [apply, cell_setHead, if_neg]
    exact fun heq => hc (congrArg CellId.mk heq.1)
  | setTail target value =>
    refine ⟨hid.trans_eq Array.size_modify.symm, ?_⟩
    rw [apply, cell_setTail, if_neg]
    exact fun heq => hc (congrArg CellId.mk heq.1)
  | setSlots target start values => exact keeps_of_cells (cells_setSlots h target start values) hid
  | copySlots source start count target position descending =>
    exact keeps_of_cells (cells_copySlots h source start count target position descending) hid
  | vector | closure | object | frame | define | nameClosure => exact keeps_of_cells rfl hid

/-- The heap after changes, one after the other. -/
def applyAll (h : Heap) (changes : List Change) : Heap :=
  changes.foldl (fun h c => (h.apply c).2) h

lemma cell_applyAll (hid : id.index < h.cells.size) (hchanges : ∀ c ∈ changes, ¬c.Writes id) :
    (h.applyAll changes).cell id = h.cell id := by
  induction changes generalizing h with
  | nil => rfl
  | cons c changes ih =>
    rw [List.forall_mem_cons] at hchanges
    obtain ⟨hsize, hcell⟩ := keeps_apply hid hchanges.1
    exact (ih hsize hchanges.2).trans hcell

/-! ### Chains that lead on to a value -/

/-- All pairs of the chain from a value were given out. -/
def GivenOut (h : Heap) (value : Value) : Prop :=
  ∀ ids last, h.Spine ids value last → ∀ id ∈ ids, id.index < h.cells.size

/-- What is new in a heap does not make a list of what was none. -/
lemma GivenOut.proper_iff (hgiven : h.GivenOut value) (hext : h.Extends h') :
    h'.Proper value ↔ h.Proper value := by
  constructor
  · rintro ⟨ids, hs⟩
    induction ids generalizing value with
    | nil => exact ⟨[], hs⟩
    | cons id ids ih =>
      obtain ⟨rfl, hs⟩ := hs
      have hid : id.index < h.cells.size := hgiven [id] _ ⟨rfl, rfl⟩ id (List.mem_singleton_self id)
      rw [hext.cell id hid] at hs
      have htail : h.GivenOut (h.cell id).tail := fun more last hmore other hother =>
        hgiven (id :: more) last ⟨rfl, hmore⟩ other (List.mem_cons_of_mem _ hother)
      exact proper_pair_iff.2 (ih htail hs)
  · rintro ⟨ids, hs⟩
    exact ⟨ids, (hs.extend (hgiven ids _ hs) hext).1⟩

/-- A value is a chain of the elements of lists, in new pairs, that ends in the last value. Nothing
that was there has changed. What the new pairs hold and where they lead stays as it is whatever else
changes later, so the value is a list exactly as long as the last value is one. -/
structure Appended (h : Heap) (lists : List Value) (last : Value) (parts : List (List Value))
    (ids : List CellId) (h' : Heap) (value : Value) : Prop where
  held : List.Forall₂ h.Holds lists parts
  spine : h'.Spine ids value last
  heads : h'.heads ids = parts.flatten
  distinct : ids.Nodup
  fresh : h.MadeSince h' ids
  before : h.Extends h'
  rest : { h' with cells := h.cells } = h
  apart : ∀ changes : List Change, (∀ c ∈ changes, ∀ id ∈ ids, ¬c.Writes id) →
    (h'.applyAll changes).Spine ids value last ∧
    (h'.applyAll changes).heads ids = parts.flatten ∧
    ((h'.applyAll changes).Proper value ↔ (h'.applyAll changes).Proper last)
  proper : h.GivenOut last → (h'.Proper value ↔ h.Proper last)

lemma rest_newChain (h : Heap) (items : List Value) (tail : Value) :
    { (h.newChain items tail).2 with cells := h.cells } = h := by
  induction items with
  | nil => rfl
  | cons item rest ih => exact ih

theorem appended_newChain {lists : List Value} {parts : List (List Value)}
    (hparts : List.Forall₂ h.Holds lists parts) (last : Value) :
    ∃ ids, h.Appended lists last parts ids (h.newChain parts.flatten last).2
      (h.newChain parts.flatten last).1 := by
  obtain ⟨hext, ids, hspine, hheads, hnodup, hfresh⟩ := newChain_spine h parts.flatten last
  exact ⟨ids, {
    held := hparts
    spine := hspine
    heads := hheads
    distinct := hnodup
    fresh := hfresh
    before := hext
    rest := rest_newChain h parts.flatten last
    apart changes hchanges := by
      obtain ⟨hspine', hheads'⟩ := hspine.of_cell fun id hid =>
        cell_applyAll (hfresh id hid).2 fun c hc => hchanges c hc id hid
      exact ⟨hspine', hheads'.trans hheads, hspine'.proper_iff⟩
    proper hgiven := hspine.proper_iff.trans (hgiven.proper_iff hext) }⟩

/-- Proper lists have elements. -/
lemma exists_holds {lists : List Value} (hlists : ∀ list ∈ lists, h.Proper list) :
    ∃ parts, List.Forall₂ h.Holds lists parts := by
  induction lists with
  | nil => exact ⟨[], .nil⟩
  | cons list lists ih =>
    rw [List.forall_mem_cons] at hlists
    obtain ⟨⟨ids, hs⟩, hrest⟩ := hlists
    obtain ⟨parts, hparts⟩ := ih hrest
    exact ⟨h.heads ids :: parts, .cons ⟨ids, hs, rfl⟩ hparts⟩

/-- Of several values that are not all lists, one is the first that is none. -/
lemma exists_first_not_proper {lists : List Value} (hlists : ¬∀ list ∈ lists, h.Proper list) :
    ∃ front bad back, lists = front ++ bad :: back ∧ (∀ list ∈ front, h.Proper list) ∧
      ¬h.Proper bad := by
  induction lists with
  | nil => exact absurd nofun hlists
  | cons list lists ih =>
    by_cases hlist : h.Proper list
    · rw [List.forall_mem_cons, not_and] at hlists
      obtain ⟨front, bad, back, rfl, hfront, hbad⟩ := ih (hlists hlist)
      exact ⟨list :: front, bad, back, rfl, List.forall_mem_cons.2 ⟨hlist, hfront⟩, hbad⟩
    · exact ⟨[], list, lists, rfl, nofun, hlist⟩

end Heap

namespace Lists

open Program

variable {before items : List Value} {value last : Value} {lists rest : List Value} {s : State}

lemma collect_cons_run (hrest : rest ≠ []) : (collect before (value :: rest)).run s =
    match s.heap.listItems? value with
    | some items => (collect (before ++ items) rest).run s
    | none => (wrongType "append needs lists, but got " value).run s := by
  rw [collect, run_look]
  · cases s.heap.listItems? value <;> rfl
  · exact hrest

lemma append_run_of_collect {t : State}
    (hcollect : (collect [] lists).run s = .stop (.ok (items, last)) t) :
    (append lists).run s = (chain items last).run t := by
  rw [append, run_bind, Run.bind_apply, hcollect]
  rfl

/-- The elements of lists are collected in their order, after those from before. -/
lemma collect_run {parts : List (List Value)} (hparts : List.Forall₂ s.heap.Holds lists parts) :
    (collect before (lists ++ [last])).run s =
      .stop (.ok (before ++ parts.flatten, last)) s := by
  induction hparts generalizing before with
  | nil =>
    rw [List.flatten_nil, List.append_nil]
    rfl
  | cons hitems _ ih =>
    rw [List.cons_append, collect_cons_run (List.concat_ne_nil _ _),
      Heap.listItems?_eq_some_iff.2 hitems]
    dsimp only
    rw [ih, List.flatten_cons, List.append_assoc]

/-- Of several values that are no lists, the first is the error. -/
lemma collect_run_of_not {back : List Value} {bad : Value}
    (hfront : ∀ list ∈ lists, s.heap.Proper list) (hbad : ¬s.heap.Proper bad) (hback : back ≠ []) :
    (collect before (lists ++ bad :: back)).run s =
      .stop (.error (.error (.type ("append needs lists, but got " ++ s.heap.render bad)))) s := by
  induction lists generalizing before with
  | nil =>
    rw [List.nil_append, collect_cons_run hback, Heap.listItems?_eq_none_iff.2 hbad]
    rfl
  | cons list lists ih =>
    rw [List.forall_mem_cons] at hfront
    obtain ⟨ids, hs⟩ := hfront.1
    rw [List.cons_append, collect_cons_run (by simp), Heap.listItems?_eq_some_iff.2 ⟨ids, hs, rfl⟩]
    exact ih hfront.2

end Lists

namespace Machine

open HostedLisp.Lists

variable {m : Machine} {p : Primitive} {r : Request} {frame : FrameId} {args : List Value}
  {s t : State} {fuel : Nat}

/-- The primitive that appends answers with the empty list if it is given nothing. Otherwise it
answers with a chain of the elements of all arguments but the last that ends in that one, if they
are lists; if not, the first that is none is the error and nothing has changed. -/
theorem append_copies (hp : m.IsStandard p "append") (hr : r.IsCall p frame)
    (henters : r.Enters (m.perform fuel) s args t) :
    (args = [] → m.perform (fuel + 1) r s = .answered (.ok .nil) t) ∧
    ∀ lists last, args = lists ++ [last] →
      ((∀ list ∈ lists, t.heap.Proper list) → ∃ parts ids h' value,
        t.heap.Appended lists last parts ids h' value ∧
        m.perform (fuel + 1) r s = .answered (.ok value) { t with heap := h' }) ∧
      ((¬∀ list ∈ lists, t.heap.Proper list) → ∃ front bad back,
        lists = front ++ bad :: back ∧ (∀ list ∈ front, t.heap.Proper list) ∧
        ¬t.heap.Proper bad ∧ m.perform (fuel + 1) r s = .answered
          (.error (.type ("append needs lists, but got " ++ t.heap.render bad))) t) := by
  have hcarries : m.Carries p (.variadic "append" .any [] .any append) := hp.carries rfl
  have hperform : m.perform (fuel + 1) r s = ((append args).run t).execute (m.perform fuel) := by
    have hany : Param.any.ConvertsAll args args := List.forall₂_same.2 fun _ _ => rfl
    rw [perform_succ, serve_call hcarries hr, execute_of_enters rfl hr rfl henters]
    change (((Param.any.convertAll args).bind append).run t).execute _ = _
    rw [hany.convertAll]
    rfl
  rw [hperform]
  refine ⟨?_, fun lists last hargs => ⟨fun hlists => ?_, fun hlists => ?_⟩⟩
  · rintro rfl
    rfl
  · obtain ⟨parts, hparts⟩ := Heap.exists_holds hlists
    obtain ⟨ids, happended⟩ := Heap.appended_newChain hparts last
    refine ⟨parts, ids, _, _, happended, ?_⟩
    rw [hargs, append_run_of_collect (collect_run hparts)]
    rfl
  · obtain ⟨front, bad, back, rfl, hfront, hbad⟩ := Heap.exists_first_not_proper hlists
    refine ⟨front, bad, back, rfl, hfront, hbad, ?_⟩
    rw [hargs, List.append_assoc, List.cons_append, append, Program.run_bind, Run.bind_apply,
      collect_run_of_not hfront hbad (List.concat_ne_nil _ _)]
    rfl

end Machine

namespace Interpreter

def appendPrimitive : Primitive := ⟨43, "append", .any, .function⟩

lemma isStandard_append : (full .standard).machine.IsStandard appendPrimitive "append" :=
  ⟨_, List.mem_of_getElem? (i := 43) rfl, rfl, rfl, rfl⟩

/-- A state with a list of one element and a pair that is its own tail. -/
def listAndRing : State :=
  { (bare .standard).state with
    heap := { Heap.empty with cells := #[⟨.int 1, .nil⟩, ⟨.int 2, .pair ⟨1⟩⟩] } }

def appending (args : List Value) : Request := .apply (.primitive appendPrimitive) args .global

lemma ring_givenOut : listAndRing.heap.GivenOut (.pair ⟨1⟩) := by
  intro ids last hs
  induction ids with
  | nil => nofun
  | cons id ids ih =>
    obtain ⟨heq, hs⟩ := hs
    cases heq
    exact List.forall_mem_cons.2 ⟨by decide, ih hs⟩

/-- The list appended twice to the ring is a chain of two new pairs that goes on in the ring. The
ring is refused as a list. -/
theorem append_copies_ring :
    (∃ ids h' value, (full .standard).machine.perform 1
        (appending [.pair ⟨0⟩, .pair ⟨0⟩, .pair ⟨1⟩]) listAndRing =
          .answered (.ok value) { listAndRing with heap := h' } ∧
      h'.Spine ids value (.pair ⟨1⟩) ∧ h'.heads ids = [.int 1, .int 1] ∧ ¬h'.Proper value) ∧
    (full .standard).machine.perform 1 (appending [.pair ⟨1⟩, .nil]) listAndRing =
      .answered (.error (.type ("append needs lists, but got " ++
        listAndRing.heap.render (.pair ⟨1⟩)))) listAndRing ∧
    (full .standard).machine.perform 1 (appending []) listAndRing =
      .answered (.ok .nil) listAndRing := by
  have henters (args : List Value) : (appending args).Enters ((full .standard).machine.perform 0)
      listAndRing args listAndRing := ⟨rfl, rfl⟩
  have hcall (args : List Value) :=
    Machine.append_copies isStandard_append (.apply _) (henters args)
  have hring : ¬listAndRing.heap.Proper (.pair ⟨1⟩) := by
    rw [← Heap.isList_iff]
    decide
  refine ⟨?_, ?_, (hcall []).1 rfl⟩
  · have hlist : listAndRing.heap.Holds (.pair ⟨0⟩) [.int 1] := ⟨[⟨0⟩], ⟨rfl, rfl⟩, rfl⟩
    have hlists : ∀ list ∈ [Value.pair ⟨0⟩, .pair ⟨0⟩], listAndRing.heap.Proper list := by
      simp only [List.forall_mem_cons]
      exact ⟨⟨[⟨0⟩], rfl, rfl⟩, ⟨[⟨0⟩], rfl, rfl⟩, nofun⟩
    obtain ⟨parts, ids, h', value, happended, hperform⟩ :=
      ((hcall _).2 [.pair ⟨0⟩, .pair ⟨0⟩] (.pair ⟨1⟩) rfl).1 hlists
    have hheads : h'.heads ids = [.int 1, .int 1] := by
      obtain _ | ⟨hfirst, _ | ⟨hsecond, _ | _⟩⟩ := happended.held
      rw [happended.heads, hfirst.unique hlist, hsecond.unique hlist]
      rfl
    exact ⟨ids, h', value, hperform, happended.spine, hheads,
      fun hproper => hring ((happended.proper ring_givenOut).1 hproper)⟩
  · have hlists : ¬∀ list ∈ [Value.pair ⟨1⟩], listAndRing.heap.Proper list := fun hlists =>
      hring (hlists _ (List.mem_singleton_self _))
    obtain ⟨front, bad, back, hsplit, -, -, hperform⟩ :=
      ((hcall _).2 [.pair ⟨1⟩] .nil rfl).2 hlists
    obtain _ | ⟨other, front⟩ := front
    · cases hsplit
      exact hperform
    · cases front <;> cases hsplit

end Interpreter

end HostedLisp
