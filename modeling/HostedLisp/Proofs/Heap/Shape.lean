import HostedLisp.Heap.Change
import Mathlib.Order.Defs.Unbundled
import Mathlib.Tactic.Lemma

/-!
# The shape of the heap

What programs do to the heap leaves the shape of all that is there: vectors keep their lengths,
frames their places and the names that they bind, closures all but a name that they may still be
given, and host objects keep everything. Main definitions: `Heap.Develops`. Main statement:
`Heap.develops_apply`.
-/

namespace HostedLisp

variable {α : Type}

/-- Every entry of a table stays, and is related to what it was; new entries come behind. -/
def TableKept (R : α → α → Prop) (a b : Array α) : Prop :=
  ∀ (i : Nat) (x : α), a[i]? = some x → ∃ y, b[i]? = some y ∧ R x y

namespace TableKept

variable {R : α → α → Prop} [IsPreorder α R] {a b c : Array α}

lemma refl (a : Array α) : TableKept R a a := fun _ x hx => ⟨x, hx, refl_of R x⟩

lemma trans (h : TableKept R a b) (h' : TableKept R b c) : TableKept R a c := by
  intro i x hx
  obtain ⟨y, hy, hxy⟩ := h i x hx
  obtain ⟨z, hz, hyz⟩ := h' i y hy
  exact ⟨z, hz, trans_of R hxy hyz⟩

lemma push (a : Array α) (new : α) : TableKept R a (a.push new) := by
  intro i x hx
  obtain ⟨hi, rfl⟩ := Array.getElem?_eq_some_iff.1 hx
  refine ⟨a[i], ?_, refl_of R _⟩
  rw [Array.getElem?_push, if_neg (Nat.ne_of_lt hi), hx]

lemma modify {f : α → α} (hf : ∀ x, R x (f x)) (a : Array α) (j : Nat) :
    TableKept R a (a.modify j f) := by
  intro i x hx
  rw [Array.getElem?_modify, hx]
  split
  · exact ⟨f x, rfl, hf x⟩
  · exact ⟨x, rfl, refl_of R x⟩

end TableKept

/-- A vector keeps its length. -/
def SameSize (v w : Array Value) : Prop := w.size = v.size

instance : IsPreorder (Array Value) SameSize where
  refl _ := rfl
  trans _ _ _ h h' := Eq.trans h' h

/-- A frame keeps its place, its label and the names that it binds. -/
structure Frame.Keeps (f g : Frame) : Prop where
  parent : g.parent = f.parent
  root : g.root = f.root
  label : g.label = f.label
  bound : ∀ name, f.bindings.contains name = true → g.bindings.contains name = true

instance : IsPreorder Frame Frame.Keeps where
  refl _ := ⟨rfl, rfl, rfl, fun _ h => h⟩
  trans _ _ _ h h' := ⟨h'.parent.trans h.parent, h'.root.trans h.root, h'.label.trans h.label,
    fun name hname => h'.bound name (h.bound name hname)⟩

/-- A closure keeps all that calling it depends on, and its name if it has one. -/
structure Closure.Keeps (c d : Closure) : Prop where
  params : d.params = c.params
  rest : d.rest = c.rest
  body : d.body = c.body
  frame : d.frame = c.frame
  name : ∀ name, c.name = some name → d.name = some name

instance : IsPreorder Closure Closure.Keeps where
  refl _ := ⟨rfl, rfl, rfl, rfl, fun _ h => h⟩
  trans _ _ _ h h' := ⟨h'.params.trans h.params, h'.rest.trans h.rest, h'.body.trans h.body,
    h'.frame.trans h.frame, fun name hname => h'.name name (h.name name hname)⟩

namespace Heap

/-- The heap can have become the other one while programs ran. -/
structure Develops (h h' : Heap) : Prop where
  vectors : TableKept SameSize h.vectors h'.vectors
  frames : TableKept Frame.Keeps h.frames h'.frames
  closures : TableKept Closure.Keeps h.closures h'.closures
  objects : TableKept Eq h.objects h'.objects

namespace Develops

variable {h h' h'' : Heap}

lemma refl (h : Heap) : Develops h h := ⟨.refl _, .refl _, .refl _, .refl _⟩

lemma trans (first : Develops h h') (second : Develops h' h'') : Develops h h'' where
  vectors := first.vectors.trans second.vectors
  frames := first.frames.trans second.frames
  closures := first.closures.trans second.closures
  objects := first.objects.trans second.objects

end Develops

variable (h : Heap)

/-! ### Making -/

lemma develops_newCell (head tail : Value) : Develops h (h.newCell head tail).2 :=
  { Develops.refl h with }

lemma develops_newVector (items : List Value) : Develops h (h.newVector items).2 :=
  { Develops.refl h with vectors := .push _ _ }

lemma develops_newClosure (c : Closure) : Develops h (h.newClosure c).2 :=
  { Develops.refl h with closures := .push _ _ }

lemma develops_newObject (o : HostObject) : Develops h (h.newObject o).2 :=
  { Develops.refl h with objects := .push _ _ }

lemma develops_newFrame (parent : FrameId) (label : String) :
    Develops h (h.newFrame parent label).2 :=
  { Develops.refl h with frames := .push _ _ }

lemma develops_newChain (items : List Value) (tail : Value) :
    Develops h (h.newChain items tail).2 := by
  induction items with
  | nil => exact .refl h
  | cons item rest ih => exact ih.trans (develops_newCell _ item _)

mutual

lemma develops_place (h : Heap) (d : Datum) : Develops h (h.place d).2 := by
  cases d with
  | nil | bool | int | float | str | sym => exact .refl h
  | pair a b =>
    have hparts := (develops_place h a).trans (develops_place _ b)
    exact hparts.trans (develops_newCell _ _ _)
  | vector items => exact (develops_placeAll h items).trans (develops_newVector _ _)

lemma develops_placeAll (h : Heap) (ds : List Datum) : Develops h (h.placeAll ds).2 := by
  cases ds with
  | nil => exact .refl h
  | cons d rest => exact (develops_place h d).trans (develops_placeAll _ rest)

end

/-! ### Changing -/

lemma develops_setHead (id : CellId) (value : Value) : Develops h (h.setHead id value) :=
  { Develops.refl h with }

lemma develops_setTail (id : CellId) (value : Value) : Develops h (h.setTail id value) :=
  { Develops.refl h with }

lemma develops_setSlot (id : VectorId) (slot : Nat) (value : Value) :
    Develops h (h.setSlot id slot value) := by
  have hsize (v : Array Value) : SameSize v (v.setIfInBounds slot value) :=
    Array.size_setIfInBounds
  exact { Develops.refl h with vectors := .modify hsize _ _ }

lemma develops_setSlots (id : VectorId) (start : Nat) (values : List Value) :
    Develops h (h.setSlots id start values) := by
  induction values generalizing h start with
  | nil => exact .refl h
  | cons value rest ih => exact (develops_setSlot h id start value).trans (ih _ (start + 1))

lemma develops_copySlots (source : VectorId) (start count : Nat) (target : VectorId)
    (position : Nat) (descending : Bool) :
    Develops h (h.copySlots source start count target position descending) := by
  unfold copySlots
  generalize (if descending then (List.range count).reverse else List.range count) = offsets
  induction offsets generalizing h with
  | nil => exact .refl h
  | cons k rest ih => exact (develops_setSlot h target _ _).trans (ih _)

lemma develops_modifyFrame {change : Frame → Frame} (hchange : ∀ f : Frame, f.Keeps (change f))
    (id : FrameId) : Develops h (h.modifyFrame id change) :=
  { Develops.refl h with frames := .modify hchange _ _ }

lemma develops_define (id : FrameId) (name : Symbol) (value : Value) :
    Develops h (h.define id name value) := by
  have hkeeps (f : Frame) : f.Keeps { f with bindings := f.bindings.insert name value } := by
    refine ⟨rfl, rfl, rfl, fun other hbound => ?_⟩
    rw [Bindings.contains, Bindings.find?_insert]
    split
    · rfl
    · exact hbound
  exact develops_modifyFrame h hkeeps id

lemma develops_nameClosure (id : ClosureId) (name : Symbol) :
    Develops h (h.nameClosure id name) := by
  have hkeeps (c : Closure) : c.Keeps { c with name := some (c.name.getD name) } :=
    ⟨rfl, rfl, rfl, rfl, fun given hgiven => by rw [hgiven]; rfl⟩
  exact { Develops.refl h with closures := .modify hkeeps _ _ }

lemma develops_setCode (id : FrameId) (code : Value) : Develops h (h.setCode id code) := by
  have hkeeps (f : Frame) : f.Keeps { f with code := some code } :=
    ⟨rfl, rfl, rfl, fun _ hbound => hbound⟩
  exact develops_modifyFrame h hkeeps id

/-- No change that a program can make takes the shape from what is there. -/
theorem develops_apply (c : Change) : Develops h (h.apply c).2 := by
  cases c with
  | chain items tail => exact develops_newChain h items tail
  | vector items => exact develops_newVector h items
  | closure c => exact develops_newClosure h c
  | object o => exact develops_newObject h o
  | place d => exact develops_place h d
  | placeAll ds => exact develops_placeAll h ds
  | frame parent label => exact develops_newFrame h parent label
  | setHead id value => exact develops_setHead h id value
  | setTail id value => exact develops_setTail h id value
  | setSlots id start values => exact develops_setSlots h id start values
  | copySlots source start count target position descending =>
    exact develops_copySlots h source start count target position descending
  | define frame name value => exact develops_define h frame name value
  | nameClosure id name => exact develops_nameClosure h id name

end Heap

end HostedLisp
