import HostedLisp.Proofs.Heap.Trees
import Mathlib.Data.Finset.Card

/-!
# The printer

A host writes a value with a printer that is changed on the way: it opens every container that it
enters and closes it again, the pairs of a list only at the end of the list, and counts the levels.
Writing any value ends with the printer as it was, and the text is that of `Heap.write`. Main
definitions: `Printer`, `Heap.Writes`. Main statements: `Heap.Writes.leaves`, `Heap.Writes.unique`,
`Heap.writesAs_writeWithin`.
-/

namespace HostedLisp

/-- The containers that are being written, and the number of levels. -/
structure Printer where
  opened : Finset Container
  depth : Nat

namespace Printer

def fresh : Printer := ⟨∅, 0⟩

/-- Opens a container one level further down. -/
def enter (p : Printer) (c : Container) : Printer := ⟨insert c p.opened, p.depth + 1⟩

/-- Opens one more pair of a list. -/
def advance (p : Printer) (c : Container) : Printer := { p with opened := insert c p.opened }

/-- Closes containers and goes up one level. -/
def leave (p : Printer) (spine : List Container) : Printer :=
  ⟨p.opened \ spine.toFinset, p.depth - 1⟩

variable {p : Printer} {c : Container}

lemma depth_enter (p : Printer) (c : Container) : (p.enter c).depth = p.depth + 1 := rfl

lemma depth_advance (p : Printer) (c : Container) : (p.advance c).depth = p.depth := rfl

/-- The containers that a walk keeps are those that the printer has opened. -/
def Agrees (p : Printer) (opened : ContainerSet) : Prop :=
  ∀ c, opened.contains c = true ↔ c ∈ p.opened

lemma leave_enter (hnew : c ∉ p.opened) : (p.enter c).leave [c] = p := by
  have hopened : insert c p.opened \ [c].toFinset = p.opened := by
    ext d
    simp only [Finset.mem_sdiff, Finset.mem_insert, List.mem_toFinset, List.mem_singleton]
    grind
  rw [leave, enter, hopened, Nat.add_sub_cancel]

lemma leave_advance (hnew : c ∉ p.opened) (spine : List Container) :
    (p.advance c).leave (c :: spine) = p.leave spine := by
  have hopened : insert c p.opened \ (c :: spine).toFinset = p.opened \ spine.toFinset := by
    ext d
    simp only [Finset.mem_sdiff, Finset.mem_insert, List.mem_toFinset, List.mem_cons]
    grind
  rw [leave, advance, hopened]
  rfl

lemma agrees_fresh : fresh.Agrees .empty := by
  intro c
  rw [ContainerSet.contains_empty]
  exact iff_of_false Bool.false_ne_true (Finset.notMem_empty c)

/-- A walk can start inside any containers. -/
lemma exists_agrees (p : Printer) : ∃ opened : ContainerSet, p.Agrees opened := by
  have hall (s : Finset Container) :
      ∃ opened : ContainerSet, ∀ c, opened.contains c = true ↔ c ∈ s := by
    induction s using Finset.induction_on with
    | empty => exact ⟨.empty, agrees_fresh⟩
    | insert d s _ ih =>
      obtain ⟨opened, ho⟩ := ih
      refine ⟨opened.insert d, fun c => ?_⟩
      rw [ContainerSet.contains_insert, Bool.or_eq_true, decide_eq_true_eq, ho c,
        Finset.mem_insert, eq_comm]
  exact hall p.opened

lemma Agrees.enter {opened : ContainerSet} (ho : p.Agrees opened) (c : Container) :
    (p.enter c).Agrees (opened.insert c) := by
  intro d
  rw [ContainerSet.contains_insert, Bool.or_eq_true, decide_eq_true_eq, ho d, Printer.enter,
    Finset.mem_insert, eq_comm]

lemma Agrees.advance {opened : ContainerSet} (ho : p.Agrees opened) (c : Container) :
    (p.advance c).Agrees (opened.insert c) := ho.enter c

lemma Agrees.contains_of_mem {opened : ContainerSet} (ho : p.Agrees opened)
    (hopen : c ∈ p.opened) : opened.contains c = true := (ho c).2 hopen

lemma Agrees.contains_of_notMem {opened : ContainerSet} (ho : p.Agrees opened)
    (hnew : c ∉ p.opened) : opened.contains c = false :=
  Bool.eq_false_iff.2 fun hopen => hnew ((ho c).1 hopen)

end Printer

/-- What is written: some text, or the mark of a container inside others. -/
inductive Piece where
  | text (chars : List Char)
  | mark (path : List Container) (c : Container)

namespace Piece

def chars : Piece → List Char
  | text chars => chars
  | mark _ _ => Heap.cycleMark

/-- Not a mark. -/
def IsText : Piece → Prop
  | text _ => True
  | mark _ _ => False

/-- The text of pieces. -/
def join (pieces : List Piece) : List Char := pieces.flatMap chars

@[simp] lemma join_nil : join [] = [] := rfl

@[simp] lemma join_text (text : List Char) (rest : List Piece) :
    join (.text text :: rest) = text ++ join rest := rfl

@[simp] lemma join_mark (path : List Container) (c : Container) (rest : List Piece) :
    join (.mark path c :: rest) = Heap.cycleMark ++ join rest := rfl

@[simp] lemma join_append (pieces rest : List Piece) :
    join (pieces ++ rest) = join pieces ++ join rest := List.flatMap_append

end Piece

/-- What a printer is to write. -/
inductive Task where
  | value (v : Value)
  /-- The rest of a list, of which these pairs were opened. -/
  | rest (spine : List Container) (tail : Value)
  /-- Items of a vector, which may come after others. -/
  | items (continued : Bool) (values : List Value)

/-- The printer when a task is done. -/
def Task.leaves (p : Printer) : Task → Printer
  | .value _ | .items _ _ => p
  | .rest spine _ => p.leave spine

/-- The values that are left to be written. -/
def Task.values : Task → List Value
  | .value v => [v]
  | .rest _ tail => [tail]
  | .items _ values => values

/-- What stands for a container that is nested too deeply. -/
def Container.elided : Container → List Char
  | pair _ => Datum.elidedList
  | vector _ => Datum.elidedVector

namespace Heap

/-- A printer writes inside the containers of a path, the innermost first, and is changed. Where the
rest of a list ends, all its pairs are closed. -/
inductive Writes (h : Heap) : List Container → Printer → Task → List Piece → Printer → Prop
  | atom {path p v} (hv : v.container? = none) :
      Writes h path p (.value v) [.text (h.writeAtom v)] p
  | again {path p v c} (hv : v.container? = some c) (hopen : c ∈ p.opened) :
      Writes h path p (.value v) [.mark path c] p
  | elided {path p v c} (hv : v.container? = some c) (hnew : c ∉ p.opened)
      (hdeep : Datum.shownLevels ≤ p.depth) : Writes h path p (.value v) [.text c.elided] p
  | pair {path p id head p₁ rest p₂} (hnew : .pair id ∉ p.opened)
      (hshown : p.depth < Datum.shownLevels)
      (hhead : Writes h (.pair id :: path) (p.enter (.pair id)) (.value (h.cell id).head) head p₁)
      (hrest : Writes h (.pair id :: path) p₁ (.rest [.pair id] (h.cell id).tail) rest p₂) :
      Writes h path p (.value (.pair id)) (.text ['('] :: (head ++ rest)) p₂
  | vector {path p id items p₁} (hnew : .vector id ∉ p.opened)
      (hshown : p.depth < Datum.shownLevels)
      (hitems : Writes h (.vector id :: path) (p.enter (.vector id))
        (.items false (h.vector id).toList) items p₁) :
      Writes h path p (.value (.vector id)) (.text ['#', '('] :: (items ++ [.text [')']]))
        (p₁.leave [.vector id])
  | restNil {path p spine} : Writes h path p (.rest spine .nil) [.text [')']] (p.leave spine)
  | restAgain {path p spine id} (hopen : .pair id ∈ p.opened) :
      Writes h path p (.rest spine (.pair id))
        [.text [' ', '.', ' '], .mark path (.pair id), .text [')']] (p.leave spine)
  | restPair {path p spine id head p₁ rest p₂} (hnew : .pair id ∉ p.opened)
      (hhead : Writes h (.pair id :: path) (p.advance (.pair id)) (.value (h.cell id).head) head p₁)
      (hrest : Writes h (.pair id :: path) p₁
        (.rest (.pair id :: spine) (h.cell id).tail) rest p₂) :
      Writes h path p (.rest spine (.pair id)) (.text [' '] :: (head ++ rest)) p₂
  | restOther {path p spine v value p₁} (hnil : v ≠ .nil) (hpair : ∀ id, v ≠ .pair id)
      (hvalue : Writes h path p (.value v) value p₁) :
      Writes h path p (.rest spine v) (.text [' ', '.', ' '] :: (value ++ [.text [')']]))
        (p₁.leave spine)
  | itemsNil {path p continued} : Writes h path p (.items continued []) [] p
  | itemsCons {path p continued v values item p₁ items p₂}
      (hitem : Writes h path p (.value v) item p₁)
      (hitems : Writes h path p₁ (.items true values) items p₂) :
      Writes h path p (.items continued (v :: values))
        (.text (if continued then [' '] else []) :: (item ++ items)) p₂

variable {h : Heap} {path : List Container} {p p' q : Printer} {task : Task}
  {out out' : List Piece} {opened : ContainerSet} {v : Value} {levels : Nat}

/-! ### The printer afterwards -/

/-- What is opened is closed again. -/
theorem Writes.leaves (hw : h.Writes path p task out p') : p' = task.leaves p := by
  induction hw with
  | atom | again | elided | restNil | restAgain | itemsNil => rfl
  | pair hnew _ _ _ ihhead ihrest =>
    subst ihhead
    subst ihrest
    exact Printer.leave_enter hnew
  | vector hnew _ _ ihitems =>
    subst ihitems
    exact Printer.leave_enter hnew
  | restPair hnew _ _ ihhead ihrest =>
    subst ihhead
    subst ihrest
    exact Printer.leave_advance hnew _
  | restOther _ _ _ ihvalue =>
    subst ihvalue
    rfl
  | itemsCons _ _ ihitem ihitems =>
    subst ihitem
    subst ihitems
    rfl

/-- Writing a value leaves the printer as it was. -/
lemma Writes.restores (hw : h.Writes path p (.value v) out p') : p' = p := hw.leaves

/-- There is only one way to write. -/
theorem Writes.unique (hw : h.Writes path p task out p') (hw' : h.Writes path p task out' q) :
    out' = out ∧ q = p' := by
  -- a task, and what is opened and how deep the printer is, leave one rule to write by
  induction hw generalizing out' q with
  | atom | again | elided | restNil | restAgain | itemsNil => cases hw' <;> grind [Value.container?]
  | pair hnew hshown _ _ ihhead ihrest =>
    cases hw' with
    | pair _ _ hhead hrest =>
      obtain ⟨rfl, rfl⟩ := ihhead hhead
      obtain ⟨rfl, rfl⟩ := ihrest hrest
      exact ⟨rfl, rfl⟩
    | _ => grind [Value.container?]
  | vector hnew hshown _ ihitems =>
    cases hw' with
    | vector _ _ hitems =>
      obtain ⟨rfl, rfl⟩ := ihitems hitems
      exact ⟨rfl, rfl⟩
    | _ => grind [Value.container?]
  | restPair hnew _ _ ihhead ihrest =>
    cases hw' with
    | restPair _ hhead hrest =>
      obtain ⟨rfl, rfl⟩ := ihhead hhead
      obtain ⟨rfl, rfl⟩ := ihrest hrest
      exact ⟨rfl, rfl⟩
    | restAgain hopen => exact absurd hopen hnew
    | restOther _ hpair => exact absurd rfl (hpair _)
  | restOther hnil hpair _ ihvalue =>
    cases hw' with
    | restOther _ _ hvalue =>
      obtain ⟨rfl, rfl⟩ := ihvalue hvalue
      exact ⟨rfl, rfl⟩
    | restNil => exact absurd rfl hnil
    | restAgain | restPair => exact absurd rfl (hpair _)
  | itemsCons _ _ ihitem ihitems =>
    cases hw' with
    | itemsCons hitem hitems =>
      obtain ⟨rfl, rfl⟩ := ihitem hitem
      obtain ⟨rfl, rfl⟩ := ihitems hitems
      exact ⟨rfl, rfl⟩

/-! ### All values are written -/

/-- Values at a depth are written as a function says. -/
def WritesAs (h : Heap) (inner : ContainerSet → Value → List Char) (depth : Nat) : Prop :=
  ∀ (path : List Container) (p : Printer) (opened : ContainerSet) (v : Value), p.depth = depth →
    p.Agrees opened → ∃ out, h.Writes path p (.value v) out p ∧ Piece.join out = inner opened v

/-- The number of pairs of the heap that a printer has not opened. -/
def unopened (h : Heap) (p : Printer) : Nat :=
  ((Finset.range h.cells.size).filter fun i => .pair ⟨i⟩ ∉ p.opened).card

variable {inner : ContainerSet → Value → List Char} {depth : Nat}

lemma unopened_le (h : Heap) (p : Printer) : h.unopened p ≤ h.cells.size := by
  have hcard := Finset.card_filter_le (Finset.range h.cells.size) fun i => .pair ⟨i⟩ ∉ p.opened
  rwa [Finset.card_range] at hcard

lemma unopened_advance_lt {id : CellId} (hid : id.index < h.cells.size)
    (hnew : .pair id ∉ p.opened) : h.unopened (p.advance (.pair id)) < h.unopened p := by
  refine Finset.card_lt_card (Finset.ssubset_iff_of_subset ?_ |>.2 ⟨id.index, ?_, ?_⟩)
  · intro i hi
    rw [Finset.mem_filter] at hi ⊢
    exact ⟨hi.1, fun hopen => hi.2 (Finset.mem_insert_of_mem hopen)⟩
  · exact Finset.mem_filter.2 ⟨Finset.mem_range.2 hid, hnew⟩
  · intro hmem
    exact (Finset.mem_filter.1 hmem).2 (Finset.mem_insert_self _ _)

lemma writeSpine_of_other (hnil : v ≠ .nil) (hpair : ∀ id, v ≠ .pair id) (budget : Nat) :
    h.writeSpine inner (budget + 1) opened v = [' ', '.', ' '] ++ inner opened v ++ [')'] := by
  cases v with
  | nil => exact absurd rfl hnil
  | pair id => exact absurd rfl (hpair id)
  | _ => rfl

lemma writeSpine_nil (budget : Nat) : h.writeSpine inner budget opened .nil = [')'] := by
  cases budget <;> rfl

lemma writeSpine_pair (budget : Nat) (id : CellId) :
    h.writeSpine inner (budget + 1) opened (.pair id) = if opened.contains (.pair id)
      then [' ', '.', ' '] ++ cycleMark ++ [')']
      else ' ' :: (inner (opened.insert (.pair id)) (h.cell id).head ++
        h.writeSpine inner budget (opened.insert (.pair id)) (h.cell id).tail) := rfl

/-- The rest of a list is written, since every pair is opened at most once. -/
lemma exists_writes_rest (hinner : h.WritesAs inner depth) {budget : Nat}
    (hbudget : h.unopened p < budget) (hdepth : p.depth = depth) (ho : p.Agrees opened)
    (path spine : List Container) (v : Value) :
    ∃ out, h.Writes path p (.rest spine v) out (p.leave spine) ∧
      Piece.join out = h.writeSpine inner budget opened v := by
  induction budget generalizing path p opened spine v with
  | zero => cases hbudget
  | succ budget ih =>
    by_cases hnil : v = .nil
    · subst hnil
      exact ⟨_, .restNil, rfl⟩
    by_cases hpair : ∀ id, v ≠ .pair id
    · obtain ⟨out, hwrites, htext⟩ := hinner path p opened v hdepth ho
      refine ⟨_, .restOther hnil hpair hwrites, ?_⟩
      rw [writeSpine_of_other hnil hpair, ← htext]
      simp
    obtain ⟨id, rfl⟩ : ∃ id, v = .pair id := by simpa using hpair
    rw [writeSpine_pair]
    by_cases hopen : .pair id ∈ p.opened
    · refine ⟨_, .restAgain hopen, ?_⟩
      rw [if_pos (ho.contains_of_mem hopen)]
      simp
    · obtain ⟨head, hhead, htext⟩ := hinner (.pair id :: path) (p.advance (.pair id))
        (opened.insert (.pair id)) (h.cell id).head hdepth (ho.advance _)
      have hrest : ∃ rest, h.Writes (.pair id :: path) (p.advance (.pair id))
          (.rest (.pair id :: spine) (h.cell id).tail) rest
            ((p.advance (.pair id)).leave (.pair id :: spine)) ∧
          Piece.join rest =
            h.writeSpine inner budget (opened.insert (.pair id)) (h.cell id).tail := by
        obtain hid | hid := Nat.lt_or_ge id.index h.cells.size
        · have hlt := unopened_advance_lt hid hopen
          have hbudget' : h.unopened (p.advance (.pair id)) < budget := by omega
          exact ih hbudget' hdepth (ho.advance _) _ _ _
        · -- a pair that the heap does not have is the last one
          rw [cell_of_le hid, writeSpine_nil]
          exact ⟨_, .restNil, rfl⟩
      obtain ⟨rest, hrest, hresttext⟩ := hrest
      rw [Printer.leave_advance hopen] at hrest
      refine ⟨_, .restPair hopen hhead hrest, ?_⟩
      rw [if_neg (Bool.eq_false_iff.1 (ho.contains_of_notMem hopen)), ← htext, ← hresttext]
      simp

lemma exists_writes_items (hinner : h.WritesAs inner depth) (hdepth : p.depth = depth)
    (ho : p.Agrees opened) (path : List Container) (continued : Bool) (values : List Value) :
    ∃ out, h.Writes path p (.items continued values) out p ∧ Piece.join out =
      (if continued ∧ values ≠ [] then [' '] else []) ++ writeItems (inner opened) values := by
  induction values generalizing continued with
  | nil => exact ⟨_, .itemsNil, by simp [writeItems]⟩
  | cons v values ih =>
    obtain ⟨item, hitem, htext⟩ := hinner path p opened v hdepth ho
    obtain ⟨items, hitems, hitemstext⟩ := ih true
    refine ⟨_, .itemsCons hitem hitems, ?_⟩
    cases values with
    | nil => cases continued <;> simp_all [writeItems]
    | cons w values => cases continued <;> simp_all [writeItems]

lemma writeWithin_of_atom (hv : v.container? = none) (levels : Nat) :
    h.writeWithin levels opened v = h.writeAtom v := by
  cases v with
  | pair | vector => cases hv
  | _ => cases levels <;> rfl

lemma writeWithin_of_open {c : Container} (hv : v.container? = some c)
    (hopen : opened.contains c = true) (levels : Nat) :
    h.writeWithin levels opened v = cycleMark := by
  cases v with
  | pair | vector =>
    cases hv
    cases levels <;> exact if_pos hopen
  | _ => cases hv

lemma writeWithin_zero {c : Container} (hv : v.container? = some c)
    (hnew : opened.contains c = false) : h.writeWithin 0 opened v = c.elided := by
  cases v with
  | pair | vector =>
    cases hv
    rw [writeWithin, writeValue, hnew]
    rfl
  | _ => cases hv

lemma writeWithin_pair {id : CellId} (hnew : opened.contains (.pair id) = false) :
    h.writeWithin (levels + 1) opened (.pair id) =
      '(' :: (h.writeWithin levels (opened.insert (.pair id)) (h.cell id).head ++
        h.writeSpine (h.writeWithin levels) (h.cells.size + 1) (opened.insert (.pair id))
          (h.cell id).tail) := by
  rw [writeWithin, writeValue, hnew]
  rfl

lemma writeWithin_vector {id : VectorId} (hnew : opened.contains (.vector id) = false) :
    h.writeWithin (levels + 1) opened (.vector id) =
      '#' :: '(' :: (writeItems (h.writeWithin levels (opened.insert (.vector id)))
        (h.vector id).toList ++ [')']) := by
  rw [writeWithin, writeValue, hnew]
  rfl

/-- Values without parts, and containers that are opened already, are always written. -/
lemma exists_writes_of_new (ho : p.Agrees opened)
    (hnew : ∀ c, v.container? = some c → c ∉ p.opened → ∃ out, h.Writes path p (.value v) out p ∧
      Piece.join out = h.writeWithin levels opened v) :
    ∃ out, h.Writes path p (.value v) out p ∧ Piece.join out = h.writeWithin levels opened v := by
  cases hv : v.container? with
  | none => exact ⟨_, .atom hv, by simp [writeWithin_of_atom hv]⟩
  | some c =>
    by_cases hopen : c ∈ p.opened
    · refine ⟨_, .again hv hopen, ?_⟩
      simp [writeWithin_of_open hv (ho.contains_of_mem hopen)]
    · exact hnew c hv hopen

/-- Every value is written at every depth, as the function for the levels that are left says. -/
theorem writesAs_writeWithin (h : Heap) {levels depth : Nat}
    (hlevels : Datum.shownLevels - depth = levels) : h.WritesAs (h.writeWithin levels) depth := by
  induction levels generalizing depth with
  | zero =>
    intro path p opened v hdepth ho
    refine exists_writes_of_new ho fun c hv hnew => ⟨_, .elided hv hnew (by omega), ?_⟩
    simp [writeWithin_zero hv (ho.contains_of_notMem hnew)]
  | succ levels ih =>
    intro path p opened v hdepth ho
    refine exists_writes_of_new ho fun c hv hnew => ?_
    have hinner : h.WritesAs (h.writeWithin levels) (depth + 1) := ih (by omega)
    have hentered : (p.enter c).depth = depth + 1 := by rw [Printer.depth_enter, hdepth]
    have hagrees := ho.enter c
    cases v with
    | pair id =>
      cases hv
      have hbudget := (h.unopened_le (p.enter (.pair id))).trans_lt (Nat.lt_succ_self _)
      obtain ⟨head, hhead, htext⟩ :=
        hinner (.pair id :: path) _ _ (h.cell id).head hentered hagrees
      obtain ⟨rest, hrest, hresttext⟩ := exists_writes_rest hinner hbudget hentered hagrees
        (.pair id :: path) [.pair id] (h.cell id).tail
      rw [Printer.leave_enter hnew] at hrest
      refine ⟨_, .pair hnew (by omega) hhead hrest, ?_⟩
      rw [writeWithin_pair (ho.contains_of_notMem hnew), ← htext, ← hresttext]
      simp
    | vector id =>
      cases hv
      obtain ⟨items, hitems, htext⟩ := exists_writes_items hinner hentered hagrees
        (.vector id :: path) false (h.vector id).toList
      have hwritten := Writes.vector hnew (by omega) hitems
      rw [Printer.leave_enter hnew] at hwritten
      refine ⟨_, hwritten, ?_⟩
      rw [writeWithin_vector (ho.contains_of_notMem hnew)]
      simp [htext]
    | _ => cases hv

/-- However a printer comes to it, every value is written. -/
lemma exists_writes (h : Heap) (path : List Container) (p : Printer) (v : Value) :
    ∃ out, h.Writes path p (.value v) out p := by
  obtain ⟨opened, ho⟩ := p.exists_agrees
  obtain ⟨out, hout, -⟩ := h.writesAs_writeWithin rfl path p opened v rfl ho
  exact ⟨out, hout⟩

end Heap

end HostedLisp
