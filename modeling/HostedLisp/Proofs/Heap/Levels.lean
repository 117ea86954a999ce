import HostedLisp.Proofs.Heap.CycleMarks
import HostedLisp.Proofs.Program.Direct

/-!
# Counted levels

A printer counts the levels that it is down, one more for each container that it enters and one less
for each that it leaves, without asking whether there is one to take off. Written with such steps a
value has the same text, and none of them is out of range: `Heap.print_eq`.
-/

namespace HostedLisp

open Program

namespace Printer

/-- Opens a container and counts one level more, of those that are shown. -/
def goDown (p : Printer) (c : Container) : Program Printer :=
  (sumUpTo Datum.shownLevels p.depth 1).bind fun depth => done ⟨insert c p.opened, depth⟩

/-- Closes containers and counts one level less. -/
def goUp (p : Printer) (spine : List Container) : Program Printer :=
  (difference p.depth 1).bind fun depth => done ⟨p.opened \ spine.toFinset, depth⟩

variable {p : Printer} {α : Type}

lemma goDown_bind (h : p.depth < Datum.shownLevels) (c : Container) (f : Printer → Program α) :
    (p.goDown c).bind f = f (p.enter c) := by
  rw [goDown, sumUpTo_of_le h, done_bind, done_bind]
  rfl

lemma goUp_bind (h : 1 ≤ p.depth) (spine : List Container) (f : Printer → Program α) :
    (p.goUp spine).bind f = f (p.leave spine) := by
  rw [goUp, difference_of_le h, done_bind, done_bind]
  rfl

end Printer

/-- A list that is being written has a level of its own. -/
def Task.HasLevel (p : Printer) : Task → Prop
  | .rest _ _ => 1 ≤ p.depth
  | .value _ | .items _ _ => True

namespace Heap

/-- Does a task with a printer that counts. It is at fault if the fuel does not last for the tasks
inside each other. -/
def print (h : Heap) : Nat → Task → Printer → Program (List Char × Printer)
  | 0, _, _ => .fault
  | fuel + 1, .value v, p =>
    match v.container? with
    | none => done (h.writeAtom v, p)
    | some c =>
      if c ∈ p.opened then done (cycleMark, p)
      else if Datum.shownLevels ≤ p.depth then done (c.elided, p)
      else (p.goDown c).bind fun p =>
        match c with
        | .pair id =>
          (h.print fuel (.value (h.cell id).head) p).bind fun (head, p) =>
          (h.print fuel (.rest [.pair id] (h.cell id).tail) p).bind fun (rest, p) =>
          done ('(' :: (head ++ rest), p)
        | .vector id =>
          (h.print fuel (.items false (h.vector id).toList) p).bind fun (items, p) =>
          (p.goUp [.vector id]).bind fun p =>
          done (['#', '('] ++ (items ++ [')']), p)
  | _ + 1, .rest spine .nil, p => (p.goUp spine).bind fun p => done ([')'], p)
  | fuel + 1, .rest spine (.pair id), p =>
    if .pair id ∈ p.opened then
      (p.goUp spine).bind fun p => done ([' ', '.', ' '] ++ (cycleMark ++ [')']), p)
    else
      (h.print fuel (.value (h.cell id).head) (p.advance (.pair id))).bind fun (head, p) =>
      (h.print fuel (.rest (.pair id :: spine) (h.cell id).tail) p).bind fun (rest, p) =>
      done (' ' :: (head ++ rest), p)
  | fuel + 1, .rest spine v, p =>
    (h.print fuel (.value v) p).bind fun (value, p) =>
    (p.goUp spine).bind fun p =>
    done ([' ', '.', ' '] ++ (value ++ [')']), p)
  | _ + 1, .items _ [], p => done ([], p)
  | fuel + 1, .items continued (v :: values), p =>
    (h.print fuel (.value v) p).bind fun (item, p) =>
    (h.print fuel (.items true values) p).bind fun (items, p) =>
    done ((if continued then [' '] else []) ++ (item ++ items), p)

variable {h : Heap} {path : List Container} {p p' : Printer} {task : Task} {out : List Piece}

/-- With enough fuel the task is done as the printer does it. -/
def Prints (h : Heap) (task : Task) (p : Printer) (text : List Char) (p' : Printer) : Prop :=
  ∃ enough, ∀ fuel ≥ enough, h.print fuel task p = done (text, p')

lemma print_rest_of_other {spine : List Container} {v : Value} (hnil : v ≠ .nil)
    (hpair : ∀ id, v ≠ .pair id) (fuel : Nat) :
    h.print (fuel + 1) (.rest spine v) p =
      (h.print fuel (.value v) p).bind fun (value, p) =>
      (p.goUp spine).bind fun p => done ([' ', '.', ' '] ++ (value ++ [')']), p) := by
  cases v with
  | nil => exact absurd rfl hnil
  | pair id => exact absurd rfl (hpair id)
  | _ => rfl

lemma Prints.of_succ {text : List Char} (enough : Nat)
    (hstep : ∀ fuel ≥ enough, h.print (fuel + 1) task p = done (text, p')) :
    h.Prints task p text p' := by
  refine ⟨enough + 1, fun fuel hfuel => ?_⟩
  obtain ⟨rest, rfl⟩ := Nat.exists_eq_add_of_le' (Nat.le_of_add_left_le hfuel)
  exact hstep rest (Nat.le_of_succ_le_succ hfuel)

/-- Whatever a printer writes, it writes in counted steps too. -/
lemma Writes.prints (hw : h.Writes path p task out p') (hlevel : task.HasLevel p) :
    h.Prints task p (Piece.join out) p' := by
  induction hw with
  | atom hv =>
    refine .of_succ 0 fun fuel _ => ?_
    rw [print, hv, Piece.join_text, Piece.join_nil, List.append_nil]
  | again hv hopen =>
    refine .of_succ 0 fun fuel _ => ?_
    rw [print, hv, Piece.join_mark, Piece.join_nil, List.append_nil]
    exact if_pos hopen
  | elided hv hnew hdeep =>
    refine .of_succ 0 fun fuel _ => ?_
    rw [print, hv, Piece.join_text, Piece.join_nil, List.append_nil]
    exact (if_neg hnew).trans (if_pos hdeep)
  | @pair path p id head p₁ rest p₂ hnew hshown hhead _ ihhead ihrest =>
    -- the head is written one level further down, and the rest of the list from there on
    obtain rfl : p₁ = p.enter (.pair id) := hhead.restores
    obtain ⟨n, hn⟩ := ihhead trivial
    obtain ⟨n', hn'⟩ := ihrest (Nat.le_add_left 1 p.depth)
    refine .of_succ (max n n') fun fuel hfuel => ?_
    rw [print]
    simp only [Value.container?, if_neg hnew, if_neg hshown.not_ge, Printer.goDown_bind hshown,
      hn fuel (le_of_max_le_left hfuel), hn' fuel (le_of_max_le_right hfuel), done_bind,
      Piece.join_text, Piece.join_append, List.singleton_append]
  | @vector path p id items p₁ hnew hshown hitems ihitems =>
    obtain rfl : p₁ = p.enter (.vector id) := hitems.leaves
    obtain ⟨n, hn⟩ := ihitems trivial
    refine .of_succ n fun fuel hfuel => ?_
    rw [print]
    simp only [Value.container?, if_neg hnew, if_neg hshown.not_ge, Printer.goDown_bind hshown,
      hn fuel hfuel, done_bind, Printer.goUp_bind (p := p.enter _) (Nat.le_add_left 1 p.depth),
      Piece.join_text, Piece.join_append, Piece.join_nil, List.append_nil]
  | restNil =>
    refine .of_succ 0 fun fuel _ => ?_
    rw [print, Printer.goUp_bind hlevel, Piece.join_text, Piece.join_nil, List.append_nil]
  | restAgain hopen =>
    refine .of_succ 0 fun fuel _ => ?_
    rw [print, if_pos hopen, Printer.goUp_bind hlevel]
    simp only [Piece.join_text, Piece.join_mark, Piece.join_nil, List.append_nil]
  | @restPair path p spine id head p₁ rest p₂ hnew hhead _ ihhead ihrest =>
    obtain rfl : p₁ = p.advance (.pair id) := hhead.restores
    obtain ⟨n, hn⟩ := ihhead trivial
    obtain ⟨n', hn'⟩ := ihrest hlevel
    refine .of_succ (max n n') fun fuel hfuel => ?_
    rw [print, if_neg hnew]
    simp only [hn fuel (le_of_max_le_left hfuel), hn' fuel (le_of_max_le_right hfuel), done_bind,
      Piece.join_text, Piece.join_append, List.singleton_append]
  | @restOther path p spine v value p₁ hnil hpair hvalue ihvalue =>
    obtain rfl : p₁ = p := hvalue.restores
    obtain ⟨n, hn⟩ := ihvalue trivial
    refine .of_succ n fun fuel hfuel => ?_
    rw [print_rest_of_other hnil hpair, hn fuel hfuel, done_bind]
    simp only [Printer.goUp_bind hlevel, Piece.join_text, Piece.join_append, Piece.join_nil,
      List.append_nil]
  | itemsNil =>
    refine .of_succ 0 fun fuel _ => ?_
    rw [print, Piece.join_nil]
  | @itemsCons path p continued v values item p₁ items p₂ hitem hitems ihitem ihitems =>
    obtain rfl : p₁ = p := hitem.restores
    obtain ⟨n, hn⟩ := ihitem trivial
    obtain ⟨n', hn'⟩ := ihitems trivial
    refine .of_succ (max n n') fun fuel hfuel => ?_
    rw [print]
    simp only [hn fuel (le_of_max_le_left hfuel), hn' fuel (le_of_max_le_right hfuel), done_bind,
      Piece.join_text, Piece.join_append]

/-- Counting the levels stays in range, and a value is written as it should. -/
theorem print_eq (h : Heap) (v : Value) : h.Prints (.value v) .fresh (h.write v) .fresh := by
  obtain ⟨out, hout, htext, -⟩ := h.exists_writes_fresh v
  exact htext ▸ hout.prints trivial

end Heap

end HostedLisp
