import HostedLisp.Form
import HostedLisp.Proofs.Heap.Spine
import Mathlib.Data.List.Perm.Subperm
import Mathlib.Data.List.Nodup

/-!
# Lists of parameters

A list of parameters is read pair by pair. No name may come twice, so no pair is met twice and the
reading ends, whatever the value is: `Form.reads_params`. It succeeds exactly for a chain of
distinct names that ends in the empty list or in one more name: `Form.reads_ok_iff`.
-/

namespace HostedLisp.Form

variable {h : Heap} {before : List Symbol} {value : Value} {r r' : Except ParamsFault Params}

/-- What reading parameters from a value comes to, after the names in `before`, which are in
reverse. -/
inductive Reads (h : Heap) : List Symbol → Value → Except ParamsFault Params → Prop
  | nil (before : List Symbol) : Reads h before .nil (.ok ⟨before.reverse, none⟩)
  | rest {before : List Symbol} {name : Symbol} (hnew : name ∉ before) :
      Reads h before (.sym name) (.ok ⟨before.reverse, some name⟩)
  | restRepeated {before : List Symbol} {name : Symbol} (hold : name ∈ before) :
      Reads h before (.sym name) (.error (.repeated name))
  | name {before : List Symbol} {id : CellId} {name : Symbol} {r : Except ParamsFault Params}
      (hhead : (h.cell id).head = .sym name) (hnew : name ∉ before)
      (hrest : Reads h (name :: before) (h.cell id).tail r) : Reads h before (.pair id) r
  | repeated {before : List Symbol} {id : CellId} {name : Symbol}
      (hhead : (h.cell id).head = .sym name) (hold : name ∈ before) :
      Reads h before (.pair id) (.error (.repeated name))
  | notSymbol {before : List Symbol} {id : CellId} (hhead : ∀ name, (h.cell id).head ≠ .sym name) :
      Reads h before (.pair id) (.error (.notSymbol (h.cell id).head))
  | notList {before : List Symbol} {value : Value} (hnil : value ≠ .nil)
      (hsym : ∀ name, value ≠ .sym name) (hpair : ∀ id, value ≠ .pair id) :
      Reads h before value (.error (.notList value))

/-! ### Reading ends -/

/-- The names that were read are in different pairs of the heap. -/
lemma length_before_le (hnodup : before.Nodup)
    (hbefore : ∀ name ∈ before, .sym name ∈ h.cells.toList.map Cell.head) :
    before.length ≤ h.cells.size := by
  have hinj : Function.Injective Value.sym := fun _ _ heq => Value.sym.inj heq
  have hsubset : before.map Value.sym ⊆ h.cells.toList.map Cell.head := by
    intro value hvalue
    obtain ⟨name, hname, rfl⟩ := List.mem_map.1 hvalue
    exact hbefore name hname
  have hle := (List.subperm_of_subset (hnodup.map hinj) hsubset).length_le
  rwa [List.length_map, List.length_map, Array.length_toList] at hle

lemma mem_heads {id : CellId} {name : Symbol} (hhead : (h.cell id).head = .sym name) :
    .sym name ∈ h.cells.toList.map Cell.head := by
  by_cases hid : id.index < h.cells.size
  · have hcell : h.cell id = h.cells[id.index] := dif_pos hid
    rw [← hhead, hcell]
    exact List.mem_map_of_mem (Array.getElem_mem hid).val
  · have hcell : h.cell id = default := dif_neg hid
    rw [hcell] at hhead
    cases hhead

/-- With a step for every pair that has not been read from, the reading comes to an end. -/
lemma reads_paramsFrom {steps : Nat} (hnodup : before.Nodup)
    (hbefore : ∀ name ∈ before, .sym name ∈ h.cells.toList.map Cell.head)
    (hsteps : h.cells.size < steps + before.length) :
    Reads h before value (paramsFrom h steps before value) := by
  induction steps generalizing before value with
  | zero =>
    have hle := length_before_le hnodup hbefore
    omega
  | succ steps ih =>
    cases value with
    | nil => exact .nil before
    | sym name =>
      rw [paramsFrom]
      by_cases hname : name ∈ before
      · rw [if_pos (List.contains_iff_mem.2 hname)]
        exact .restRepeated hname
      · rw [if_neg (fun hc => hname (List.contains_iff_mem.1 hc))]
        exact .rest hname
    | pair id =>
      rw [paramsFrom]
      split
      · next name hhead =>
        by_cases hname : name ∈ before
        · rw [if_pos (List.contains_iff_mem.2 hname)]
          exact .repeated hhead hname
        · rw [if_neg (fun hc => hname (List.contains_iff_mem.1 hc))]
          refine .name hhead hname (ih (List.nodup_cons.2 ⟨hname, hnodup⟩) ?_ ?_)
          · exact List.forall_mem_cons.2 ⟨mem_heads hhead, hbefore⟩
          · rw [List.length_cons]
            omega
      · next hhead => exact .notSymbol fun name heq => hhead name heq
    | _ => exact .notList nofun nofun nofun

/-- Every reading of parameters ends, in a list of parameters or in a fault. -/
theorem reads_params (h : Heap) (value : Value) : Reads h [] value (params h value) :=
  reads_paramsFrom List.nodup_nil nofun (Nat.lt_succ_self _)

/-- In a chain that comes back on itself a name comes twice. -/
example : params { Heap.empty with cells := #[⟨.sym ⟨"x"⟩, .pair ⟨0⟩⟩] } (.pair ⟨0⟩) =
    .error (.repeated ⟨"x"⟩) := rfl

lemma Reads.unique (hr : Reads h before value r) (hr' : Reads h before value r') : r = r' := by
  induction hr with
  | nil before =>
    cases hr' with
    | nil => rfl
    | notList hnil => exact absurd rfl hnil
  | rest hnew =>
    cases hr' with
    | rest => rfl
    | restRepeated hold => exact absurd hold hnew
    | notList _ hsym => exact absurd rfl (hsym _)
  | restRepeated hold =>
    cases hr' with
    | rest hnew => exact absurd hold hnew
    | restRepeated => rfl
    | notList _ hsym => exact absurd rfl (hsym _)
  | name hhead hnew _ ih =>
    cases hr' with
    | name hhead' _ hrest =>
      cases hhead.symm.trans hhead'
      exact ih hrest
    | repeated hhead' hold =>
      cases hhead.symm.trans hhead'
      exact absurd hold hnew
    | notSymbol hhead' => exact absurd hhead (hhead' _)
    | notList _ _ hpair => exact absurd rfl (hpair _)
  | repeated hhead hold =>
    cases hr' with
    | name hhead' hnew =>
      cases hhead.symm.trans hhead'
      exact absurd hold hnew
    | repeated hhead' =>
      cases hhead.symm.trans hhead'
      rfl
    | notSymbol hhead' => exact absurd hhead (hhead' _)
    | notList _ _ hpair => exact absurd rfl (hpair _)
  | notSymbol hhead =>
    cases hr' with
    | name hhead' => exact absurd hhead' (hhead _)
    | repeated hhead' => exact absurd hhead' (hhead _)
    | notSymbol => rfl
    | notList _ _ hpair => exact absurd rfl (hpair _)
  | notList hnil hsym hpair =>
    cases hr' with
    | nil => exact absurd rfl hnil
    | rest | restRepeated => exact absurd rfl (hsym _)
    | name | repeated | notSymbol => exact absurd rfl (hpair _)
    | notList => rfl

lemma reads_iff : Reads h [] value r ↔ params h value = r :=
  ⟨(reads_params h value).unique, fun heq => heq ▸ reads_params h value⟩

/-! ### Success -/

/-- All names, that for the remaining arguments behind the others. -/
def Params.all (p : Params) : List Symbol := p.names ++ p.rest.toList

/-- What a chain of the parameters ends in. -/
def Params.last (p : Params) : Value := p.rest.elim .nil .sym

/-- A value is a chain that lists the parameters. -/
def Lists (h : Heap) (p : Params) (value : Value) : Prop :=
  ∃ ids, h.Spine ids value p.last ∧ h.heads ids = p.names.map .sym

/-- Reading goes on through the pairs of a chain of names that are new. -/
lemma reads_of_spine {ids : List CellId} {names : List Symbol} {last : Value}
    (hspine : h.Spine ids value last) (hheads : h.heads ids = names.map .sym)
    (hnew : (names.reverse ++ before).Nodup) (hlast : Reads h (names.reverse ++ before) last r) :
    Reads h before value r := by
  induction ids generalizing value before names with
  | nil =>
    obtain rfl : names = [] := List.map_eq_nil_iff.1 hheads.symm
    cases hspine
    exact hlast
  | cons id ids ih =>
    cases names with
    | nil => cases hheads
    | cons name names =>
      obtain ⟨rfl, hspine⟩ := hspine
      obtain ⟨hhead, hheads⟩ := List.cons_eq_cons.1 hheads
      rw [List.reverse_cons, List.append_assoc, List.singleton_append] at hnew hlast
      refine .name hhead ?_ (ih hspine hheads hnew hlast)
      exact (List.nodup_cons.1 hnew.of_append_right).1

/-- What is read successfully is a chain of names that are new. -/
lemma lists_of_reads {p : Params} (hr : Reads h before value (.ok p)) (hnodup : before.Nodup) :
    ∃ names, p.names = before.reverse ++ names ∧ (p.names ++ p.rest.toList).Nodup ∧
      ∃ ids, h.Spine ids value p.last ∧ h.heads ids = names.map .sym := by
  generalize hok : Except.ok p = r at hr
  induction hr with
  | nil before =>
    cases hok
    refine ⟨[], (List.append_nil _).symm, ?_, [], rfl, rfl⟩
    simpa using hnodup
  | rest hnew =>
    cases hok
    refine ⟨[], (List.append_nil _).symm, ?_, [], rfl, rfl⟩
    rw [Option.toList_some, List.nodup_append_comm, List.singleton_append, List.nodup_cons]
    exact ⟨by rwa [List.mem_reverse], List.nodup_reverse.2 hnodup⟩
  | @name before id name r hhead hnew _ ih =>
    obtain ⟨names, hnames, hall, ids, hspine, hheads⟩ := ih (List.nodup_cons.2 ⟨hnew, hnodup⟩) hok
    refine ⟨name :: names, ?_, hall, id :: ids, ⟨rfl, hspine⟩, ?_⟩
    · rw [hnames, List.reverse_cons, List.append_assoc, List.singleton_append]
    · rw [Heap.heads, List.map_cons, hhead]
      exact congrArg (Value.sym name :: ·) hheads
  | restRepeated | repeated | notSymbol | notList => cases hok

/-- Reading parameters succeeds exactly for a finite chain of distinct names that ends in the empty
list or in one more name, and finds these names. -/
theorem reads_ok_iff {p : Params} : Reads h [] value (.ok p) ↔ p.all.Nodup ∧ Lists h p value := by
  constructor
  · intro hr
    obtain ⟨names, hnames, hall, hlists⟩ := lists_of_reads hr List.nodup_nil
    cases hnames
    exact ⟨hall, hlists⟩
  · rintro ⟨hall, ids, hspine, hheads⟩
    obtain ⟨names, rest⟩ := p
    refine reads_of_spine hspine hheads ?_ ?_
    · rw [List.append_nil]
      exact List.nodup_reverse.2 hall.of_append_left
    · rw [List.append_nil]
      have hread : Reads h names.reverse (Params.last ⟨names, rest⟩)
          (.ok ⟨names.reverse.reverse, rest⟩) := by
        cases rest with
        | none => exact .nil _
        | some name =>
          refine .rest fun hmem => ?_
          have hdisjoint := List.nodup_append.1 hall
          exact hdisjoint.2.2 name (List.mem_reverse.1 hmem) name (List.mem_singleton_self _) rfl
      rwa [List.reverse_reverse] at hread

end HostedLisp.Form
