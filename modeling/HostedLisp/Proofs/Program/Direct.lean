import HostedLisp.Heap.Facet
import HostedLisp.Machine.Run
import Mathlib.Tactic.Lemma

/-!
# Direct steps

Code of the host that has made sure of something goes on without asking again: it takes an item out
of a list by its position, cuts a list, subtracts sizes, adds words, looks at a value through a
facet, writes into a slot. Each of these steps is at fault where what it takes for granted does not
hold. Programs with such steps are compared with others by their runs, which see what the heap
really holds: `Program.run_bind_congr`.
-/

namespace HostedLisp.Program

variable {α β : Type}

/-! ### Lists -/

/-- Takes a condition for granted. -/
def rely (holds : Prop) [Decidable holds] : Program Unit := if holds then done () else fault

/-- The item at a position. -/
def item (items : List α) (position : Nat) : Program α :=
  match items[position]? with
  | some a => done a
  | none => fault

/-- The items from a position on. -/
def itemsFrom (items : List α) (start : Nat) : Program (List α) :=
  (rely (start ≤ items.length)).bind fun _ => done (items.drop start)

/-- The items up to a position. -/
def itemsTo (items : List α) (finish : Nat) : Program (List α) :=
  (rely (finish ≤ items.length)).bind fun _ => done (items.take finish)

/-- The items between two positions. -/
def itemsBetween (items : List α) (start finish : Nat) : Program (List α) :=
  (rely (start ≤ finish ∧ finish ≤ items.length)).bind fun _ =>
    done ((items.take finish).drop start)

lemma rely_of {holds : Prop} [Decidable holds] (h : holds) : rely holds = done () := if_pos h

lemma item_of_lt {items : List α} {position : Nat} (h : position < items.length) :
    item items position = done items[position] := by
  rw [item, List.getElem?_eq_getElem h]

lemma itemsFrom_of_le {items : List α} {start : Nat} (h : start ≤ items.length) :
    itemsFrom items start = done (items.drop start) := by
  rw [itemsFrom, rely_of h, done_bind]

lemma itemsTo_of_le {items : List α} {finish : Nat} (h : finish ≤ items.length) :
    itemsTo items finish = done (items.take finish) := by
  rw [itemsTo, rely_of h, done_bind]

lemma itemsBetween_of_le {items : List α} {start finish : Nat} (h : start ≤ finish)
    (h' : finish ≤ items.length) :
    itemsBetween items start finish = done ((items.take finish).drop start) := by
  rw [itemsBetween, rely_of ⟨h, h'⟩, done_bind]

@[simp] lemma item_zero_cons (a : α) (rest : List α) : item (a :: rest) 0 = done a := rfl

@[simp] lemma item_succ_cons (a : α) (rest : List α) (position : Nat) :
    item (a :: rest) (position + 1) = item rest position := rfl

@[simp] lemma item_one_cons (a b : α) (rest : List α) : item (a :: b :: rest) 1 = done b := rfl

@[simp] lemma itemsFrom_one_cons (a : α) (rest : List α) :
    itemsFrom (a :: rest) 1 = done rest :=
  itemsFrom_of_le (Nat.le_add_left _ _)

@[simp] lemma itemsFrom_two_cons (a b : α) (rest : List α) :
    itemsFrom (a :: b :: rest) 2 = done rest :=
  itemsFrom_of_le (Nat.le_add_left _ _)

/-! ### Sizes and words -/

/-- The sum of two sizes. As far as there is something of that size it is a size too; what is
greater may not be. -/
def sumUpTo (most a b : Nat) : Program Nat :=
  (rely (a + b ≤ most)).bind fun _ => done (a + b)

/-- What a size has more than another. -/
def difference (a b : Nat) : Program Nat := (rely (b ≤ a)).bind fun _ => done (a - b)

/-- The sum of two words. -/
def addWords (a b : Int64) : Program Int64 :=
  match Numeral.word? (a.toInt + b.toInt) with
  | some sum => done sum
  | none => fault

/-- The remainder of a division of words. The least word has no quotient by minus one, and so no
remainder either. -/
def remWords (a b : Int64) : Program Int64 :=
  (rely (b ≠ 0 ∧ Numeral.inWord (a.toInt.tdiv b.toInt))).bind fun _ =>
    done (Int64.ofInt (a.toInt.tmod b.toInt))

lemma sumUpTo_of_le {most a b : Nat} (h : a + b ≤ most) : sumUpTo most a b = done (a + b) := by
  rw [sumUpTo, rely_of h, done_bind]

lemma difference_of_le {a b : Nat} (h : b ≤ a) : difference a b = done (a - b) := by
  rw [difference, rely_of h, done_bind]

/-- Dividing by two is in range whatever the dividend is. -/
lemma remWords_two (n : Int64) : remWords n 2 = done (Int64.ofInt (n.toInt.tmod 2)) := by
  have htwo : (2 : Int64).toInt = 2 := by decide
  have hle := n.le_toInt
  have hlt := n.toInt_lt
  have hhalf : (n.toInt.tdiv 2).natAbs = n.toInt.natAbs / 2 := Int.natAbs_tdiv ..
  have hquotient : Numeral.inWord (n.toInt.tdiv 2) = true := by
    rw [Numeral.inWord_iff]
    omega
  rw [remWords, htwo, rely_of ⟨by decide, hquotient⟩, done_bind]

/-! ### The heap -/

/-- What a value shows through a facet. -/
def through (facet : Facet) (value : Value) : Program facet.Content :=
  look fun h =>
    match h.see? facet value with
    | some content => done content
    | none => fault

/-- What a slot of a vector holds. -/
def readSlot (id : VectorId) (slot : Nat) : Program Value :=
  look fun h => item (h.vector id).toList slot

/-- Writes a slot of a vector. -/
def writeSlot (id : VectorId) (slot : Nat) (value : Value) : Program Unit :=
  look fun h =>
    (rely (slot < (h.vector id).size)).bind fun _ => perform (.setSlots id slot [value])

/-- Writes one value into the slots between two positions of a vector. -/
def fillSlots (id : VectorId) (start finish : Nat) (value : Value) : Program Unit :=
  look fun h =>
    (rely (start ≤ finish ∧ finish ≤ (h.vector id).size)).bind fun _ =>
      perform (.setSlots id start (List.replicate (finish - start) value))

/-! ### Programs side by side -/

lemma run_bind (p : Program α) (f : α → Program β) :
    (p.bind f).run = p.run >>= fun a => (f a).run := by
  induction p with
  | done a => rfl
  | fail e => rfl
  | fault => rfl
  | look next ih => exact funext fun s => congrFun (ih s.heap) s
  | change c next ih => exact funext fun s => congrFun (ih (s.heap.apply c).1) _
  | ask r next ih =>
    have hnext : (fun v => ((next v).bind f).run) = fun v => (next v).run >>= fun a => (f a).run :=
      funext ih
    change Run.request r >>= (fun v => ((next v).bind f).run) = _
    rw [hnext]
    exact (LawfulMonad.bind_assoc (Run.request r) (fun v => (next v).run) _).symm

/-- Parts that do the same can be exchanged. -/
lemma run_bind_congr {p q : Program α} {f g : α → Program β} (hp : p.run = q.run)
    (hf : ∀ a, (f a).run = (g a).run) : (p.bind f).run = (q.bind g).run := by
  rw [run_bind, run_bind, hp, funext hf]

/-- What follows can be left aside. -/
lemma run_bind_left {p q : Program α} {f : α → Program β} {s : State} (h : p.run s = q.run s) :
    (p.bind f).run s = (q.bind f).run s := by
  rw [run_bind, run_bind, Run.bind_apply, Run.bind_apply, h]

lemma run_look (next : Heap → Program α) (s : State) :
    (look next).run s = (next s.heap).run s := rfl

/-- A slot that there is can be read. -/
lemma readSlot_bind_run {id : VectorId} {slot : Nat} {f : Value → Program β} {s : State}
    (h : slot < (s.heap.vector id).size) :
    ((readSlot id slot).bind f).run s = (f (s.heap.vector id)[slot]).run s := by
  have hlt : slot < (s.heap.vector id).toList.length := by simpa using h
  rw [readSlot, bind, run_look, item_of_lt hlt, done_bind, Array.getElem_toList]

/-- A slot that there is can be written. -/
lemma writeSlot_run {id : VectorId} {slot : Nat} {value : Value} {s : State}
    (h : slot < (s.heap.vector id).size) :
    (writeSlot id slot value).run s = (perform (.setSlots id slot [value])).run s := by
  rw [writeSlot, run_look, rely_of h, done_bind]

/-- Slots that there are can be filled. -/
lemma fillSlots_run {id : VectorId} {start finish : Nat} {value : Value} {s : State}
    (h : start ≤ finish) (h' : finish ≤ (s.heap.vector id).size) :
    (fillSlots id start finish value).run s =
      (perform (.setSlots id start (List.replicate (finish - start) value))).run s := by
  rw [fillSlots, run_look, rely_of ⟨h, h'⟩, done_bind]

/-- What is known of the result of a program, whatever the heap is and whatever the answers are. -/
def Returns (post : α → Prop) : Program α → Prop
  | done a => post a
  | fail _ | fault => True
  | look next => ∀ h, (next h).Returns post
  | change _ next => ∀ answer, (next answer).Returns post
  | ask _ next => ∀ value, (next value).Returns post

@[simp] lemma returns_done {post : α → Prop} {a : α} : (done a).Returns post ↔ post a := Iff.rfl

lemma Returns.bind {post : β → Prop} {p : Program α} {f : α → Program β}
    (h : p.Returns fun a => (f a).Returns post) : (p.bind f).Returns post := by
  induction p with
  | done a => exact h
  | fail | fault => trivial
  | look next ih => exact fun heap => ih heap (h heap)
  | change c next ih => exact fun answer => ih answer (h answer)
  | ask r next ih => exact fun value => ih value (h value)

lemma Returns.imp {post post' : α → Prop} {p : Program α} (h : p.Returns post)
    (himp : ∀ a, post a → post' a) : p.Returns post' := by
  induction p with
  | done a => exact himp a h
  | fail | fault => trivial
  | look next ih => exact fun heap => ih heap (h heap)
  | change c next ih => exact fun answer => ih answer (h answer)
  | ask r next ih => exact fun value => ih value (h value)

/-- What follows a program has to be the same for its results only. -/
lemma Returns.bind_congr {post : α → Prop} {p : Program α} {f g : α → Program β}
    (h : p.Returns post) (hf : ∀ a, post a → f a = g a) : p.bind f = p.bind g := by
  induction p with
  | done a => exact hf a h
  | fail | fault => rfl
  | look next ih => exact congrArg look (funext fun heap => ih heap (h heap))
  | change c next ih => exact congrArg (change c) (funext fun answer => ih answer (h answer))
  | ask r next ih => exact congrArg (ask r) (funext fun value => ih value (h value))

end HostedLisp.Program
