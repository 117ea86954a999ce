import HostedLisp.Datum.Reader
import HostedLisp.Error
import HostedLisp.Heap.Printer
import HostedLisp.Proofs.Heap.Tables
import Mathlib.Tactic.Common

/-!
# The words in a heap

A vocabulary says which symbols, primitives and tags of host objects there may be, and which texts
messages may consist of. `Heap.In V` says that all words that can be taken out of a heap are in the
vocabulary, the names of closures among the symbols. No change brings in words that were not handed
to it: `Heap.In.apply`.
-/

namespace HostedLisp

/-- Which symbols, which primitives and which tags of host objects there may be, and which texts
messages may consist of. -/
structure Vocabulary where
  symbol : Symbol → Prop
  primitive : Primitive → Prop
  tag : String → Prop
  text : String → Prop

open Vocabulary

variable {V : Vocabulary}

/-- A value that is a symbol or a primitive is in the vocabulary. -/
def Value.In (V : Vocabulary) : Value → Prop
  | .sym name => V.symbol name
  | .primitive p => V.primitive p
  | _ => True

namespace Value

@[simp] lemma in_nil : Value.nil.In V := trivial
@[simp] lemma in_bool (b : Bool) : (Value.bool b).In V := trivial
@[simp] lemma in_int (n : Int64) : (Value.int n).In V := trivial
@[simp] lemma in_float (x : Float) : (Value.float x).In V := trivial
@[simp] lemma in_str (text : String) : (Value.str text).In V := trivial
@[simp] lemma in_sym {name : Symbol} : (Value.sym name).In V ↔ V.symbol name := Iff.rfl
@[simp] lemma in_pair (id : CellId) : (Value.pair id).In V := trivial
@[simp] lemma in_vector (id : VectorId) : (Value.vector id).In V := trivial
@[simp] lemma in_closure (id : ClosureId) : (Value.closure id).In V := trivial
@[simp] lemma in_primitive {p : Primitive} : (Value.primitive p).In V ↔ V.primitive p := Iff.rfl
@[simp] lemma in_object (id : ObjectId) : (Value.object id).In V := trivial

end Value

/-- All values in a list are in the vocabulary. -/
def AllIn (V : Vocabulary) (values : List Value) : Prop := ∀ v ∈ values, v.In V

namespace AllIn

@[simp] lemma nil : AllIn V [] := nofun

@[simp] lemma cons_iff {v : Value} {values : List Value} :
    AllIn V (v :: values) ↔ v.In V ∧ AllIn V values := List.forall_mem_cons

@[simp] lemma append_iff {l r : List Value} :
    AllIn V (l ++ r) ↔ AllIn V l ∧ AllIn V r := List.forall_mem_append

@[simp] lemma reverse_iff {values : List Value} : AllIn V values.reverse ↔ AllIn V values := by
  simp [AllIn]

lemma sublist {l r : List Value} (hr : AllIn V r) (h : l.Sublist r) : AllIn V l :=
  fun v hv => hr v (h.subset hv)

lemma replicate {v : Value} (hv : v.In V) (n : Nat) : AllIn V (List.replicate n v) :=
  fun _ hmem => (List.eq_of_mem_replicate hmem) ▸ hv

end AllIn

mutual

/-- All symbols of a datum are in the vocabulary. -/
def Datum.In (V : Vocabulary) : Datum → Prop
  | .sym name => V.symbol name
  | .pair head tail => head.In V ∧ tail.In V
  | .vector items => Datum.AllIn V items
  | _ => True

/-- All symbols of several data are in the vocabulary. -/
def Datum.AllIn (V : Vocabulary) : List Datum → Prop
  | [] => True
  | d :: rest => d.In V ∧ Datum.AllIn V rest

end

/-- All words that can be taken out of the heap are in the vocabulary. -/
structure Heap.In (V : Vocabulary) (h : Heap) : Prop where
  head : ∀ id, (h.cell id).head.In V
  tail : ∀ id, (h.cell id).tail.In V
  slots : ∀ id, AllIn V (h.vector id).toList
  body : ∀ id, AllIn V (h.closure id).body
  name : ∀ id name, (h.closure id).name = some name → V.symbol name
  binding : ∀ id name v, (h.frame id).bindings.find? name = some v → v.In V
  tag : ∀ id, V.tag (h.object id).tag
  deferred : ∀ id f, (h.object id).payload = .field f → AllIn V f.deferred

/-- All words that a change is given are in the vocabulary. -/
def Change.In (V : Vocabulary) : Change → Prop
  | .chain items tail => AllIn V items ∧ tail.In V
  | .vector items => AllIn V items
  | .closure c => AllIn V c.body ∧ ∀ name, c.name = some name → V.symbol name
  | .object o => V.tag o.tag ∧ ∀ f, o.payload = .field f → AllIn V f.deferred
  | .place d => d.In V
  | .placeAll ds => Datum.AllIn V ds
  | .setHead _ value | .setTail _ value | .define _ _ value => value.In V
  | .setSlots _ _ values => AllIn V values
  | .nameClosure _ name => V.symbol name
  | .frame .. | .copySlots .. => True

/-- All words that a change answers are in the vocabulary. -/
def Change.AnswerIn (V : Vocabulary) : (c : Change) → c.Answer → Prop
  | .chain .., v | .vector _, v | .closure _, v | .object _, v | .place _, v => Value.In V v
  | .placeAll _, values => HostedLisp.AllIn V values
  | _, _ => True

/-- Messages may consist of anything on a single line and of what words and values look like,
device fields may be made, and any text may be read. -/
class Vocabulary.Coherent (V : Vocabulary) : Prop where
  field : V.tag DeviceField.tag
  read {t : String} {d : Datum} (h : Datum.read t = .ok d) : d.In V
  line {t : String} (h : '\n' ∉ t.toList) : V.text t
  append {a b : String} (ha : V.text a) (hb : V.text b) : V.text (a ++ b)
  symbol {name : Symbol} (h : V.symbol name) : V.text name.name
  primitive {p : Primitive} (h : V.primitive p) : V.text p.name
  value {h : Heap} {v : Value} (hh : h.In V) (hv : v.In V) : V.text (h.render v)

/-- An error that is shown with an expression is worded as messages may be. -/
def Error.In (V : Vocabulary) : Error → Prop
  | .eval t | .type t => V.text t
  | _ => True

namespace Heap.In

variable {h : Heap}

lemma newCell (hh : h.In V) {a b : Value} (ha : a.In V) (hb : b.In V) :
    (h.newCell a b).2.In V :=
  { hh with
    head := fun id => by rw [cell_newCell]; split; exacts [ha, hh.head id]
    tail := fun id => by rw [cell_newCell]; split; exacts [hb, hh.tail id] }

lemma newVector (hh : h.In V) {items : List Value} (hi : AllIn V items) :
    (h.newVector items).2.In V :=
  { hh with slots := fun id => by rw [vector_newVector]; split; exacts [hi, hh.slots id] }

lemma newClosure (hh : h.In V) {c : Closure} (hc : (Change.closure c).In V) :
    (h.newClosure c).2.In V :=
  { hh with
    body := fun id => by rw [closure_newClosure]; split; exacts [hc.1, hh.body id]
    name := fun id => by rw [closure_newClosure]; split; exacts [hc.2, hh.name id] }

lemma newObject (hh : h.In V) {o : HostObject} (ho : (Change.object o).In V) :
    (h.newObject o).2.In V :=
  { hh with
    tag := fun id => by rw [object_newObject]; split; exacts [ho.1, hh.tag id]
    deferred := fun id => by rw [object_newObject]; split; exacts [ho.2, hh.deferred id] }

lemma newFrame (hh : h.In V) (parent : FrameId) (label : String) :
    (h.newFrame parent label).2.In V :=
  { hh with
    binding := fun id name => by
      rw [frame_newFrame]
      split
      · exact nofun
      · exact hh.binding id name }

lemma newChain (hh : h.In V) {items : List Value} {tail : Value} (hi : AllIn V items)
    (ht : tail.In V) : (h.newChain items tail).1.In V ∧ (h.newChain items tail).2.In V := by
  induction items with
  | nil => exact ⟨ht, hh⟩
  | cons v items ih =>
    rw [AllIn.cons_iff] at hi
    obtain ⟨hv, hrest⟩ := ih hi.2
    exact ⟨Value.in_pair _, hrest.newCell hi.1 hv⟩

mutual

lemma place {h : Heap} (hh : h.In V) {d : Datum} (hd : d.In V) :
    (h.place d).1.In V ∧ (h.place d).2.In V := by
  cases d with
  | nil | bool | int | float | str => exact ⟨trivial, hh⟩
  | sym name => exact ⟨hd, hh⟩
  | pair a b =>
    have ha := place hh hd.1
    have hb := place ha.2 hd.2
    exact ⟨Value.in_pair _, hb.2.newCell ha.1 hb.1⟩
  | vector items =>
    have hi := placeAll hh hd
    exact ⟨Value.in_vector _, hi.2.newVector hi.1⟩

lemma placeAll {h : Heap} (hh : h.In V) {ds : List Datum} (hds : Datum.AllIn V ds) :
    AllIn V (h.placeAll ds).1 ∧ (h.placeAll ds).2.In V := by
  cases ds with
  | nil => exact ⟨AllIn.nil, hh⟩
  | cons d rest =>
    have hd := place hh hds.1
    have hrest := placeAll hd.2 hds.2
    exact ⟨AllIn.cons_iff.2 ⟨hd.1, hrest.1⟩, hrest.2⟩

end

lemma setHead (hh : h.In V) (id : CellId) {v : Value} (hv : v.In V) : (h.setHead id v).In V :=
  { hh with
    head := fun other => by rw [cell_setHead]; split; exacts [hv, hh.head other]
    tail := fun other => by rw [cell_setHead]; split <;> exact hh.tail other }

lemma setTail (hh : h.In V) (id : CellId) {v : Value} (hv : v.In V) : (h.setTail id v).In V :=
  { hh with
    head := fun other => by rw [cell_setTail]; split <;> exact hh.head other
    tail := fun other => by rw [cell_setTail]; split; exacts [hv, hh.tail other] }

lemma setSlot (hh : h.In V) (id : VectorId) (slot : Nat) {v : Value} (hv : v.In V) :
    (h.setSlot id slot v).In V :=
  { hh with
    slots := fun other => by
      rw [vector_setSlot]
      split
      · intro w hw
        rw [Array.toList_setIfInBounds] at hw
        obtain hw | rfl := List.mem_or_eq_of_mem_set hw
        · exact hh.slots other w hw
        · exact hv
      · exact hh.slots other }

lemma setSlots (hh : h.In V) (id : VectorId) (start : Nat) {values : List Value}
    (hv : AllIn V values) : (h.setSlots id start values).In V := by
  induction values generalizing h start with
  | nil => exact hh
  | cons v rest ih =>
    rw [AllIn.cons_iff] at hv
    exact ih (hh.setSlot id start hv.1) (start + 1) hv.2

lemma getD_slot (hh : h.In V) (id : VectorId) (i : Nat) : ((h.vector id).getD i .nil).In V := by
  rw [Array.getD_eq_getD_getElem?]
  cases hi : (h.vector id)[i]? with
  | none => exact Value.in_nil
  | some v => exact hh.slots id v (Array.mem_toList_iff.2 (Array.mem_of_getElem? hi))

lemma copySlots (hh : h.In V) (source : VectorId) (start count : Nat) (target : VectorId)
    (position : Nat) (descending : Bool) :
    (h.copySlots source start count target position descending).In V := by
  unfold Heap.copySlots
  generalize (if descending then (List.range count).reverse else List.range count) = offsets
  induction offsets generalizing h with
  | nil => exact hh
  | cons k rest ih => exact ih (hh.setSlot target _ (hh.getD_slot source _))

lemma define (hh : h.In V) (id : FrameId) (name : Symbol) {v : Value} (hv : v.In V) :
    (h.define id name v).In V :=
  { hh with
    binding := fun other key w hw => by
      rw [Heap.define, frame_modifyFrame] at hw
      split at hw
      · rw [Bindings.find?_insert] at hw
        split at hw
        · exact Option.some.inj hw ▸ hv
        · exact hh.binding other key w hw
      · exact hh.binding other key w hw }

/-- A closure that has a name keeps it. -/
lemma nameClosure (hh : h.In V) (id : ClosureId) {name : Symbol} (hname : V.symbol name) :
    (h.nameClosure id name).In V :=
  { hh with
    body := fun other => by rw [closure_nameClosure]; split <;> exact hh.body other
    name := fun other key hkey => by
      rw [closure_nameClosure] at hkey
      split at hkey
      · cases hold : (h.closure other).name with
        | none =>
          rw [hold] at hkey
          exact Option.some.inj hkey ▸ hname
        | some old =>
          rw [hold] at hkey
          exact Option.some.inj hkey ▸ hh.name other old hold
      · exact hh.name other key hkey }

/-- A change with words of the vocabulary keeps the heap in it and answers with words of it. -/
theorem apply (hh : h.In V) {c : Change} (hc : c.In V) :
    c.AnswerIn V (h.apply c).1 ∧ (h.apply c).2.In V := by
  cases c with
  | chain items tail => exact hh.newChain hc.1 hc.2
  | vector items => exact ⟨trivial, hh.newVector hc⟩
  | closure c => exact ⟨trivial, hh.newClosure hc⟩
  | object o => exact ⟨trivial, hh.newObject hc⟩
  | place d => exact hh.place hc
  | placeAll ds => exact hh.placeAll hc
  | frame parent label => exact ⟨trivial, hh.newFrame parent label⟩
  | setHead id value => exact ⟨trivial, hh.setHead id hc⟩
  | setTail id value => exact ⟨trivial, hh.setTail id hc⟩
  | setSlots id start values => exact ⟨trivial, hh.setSlots id start hc⟩
  | copySlots source start count target position descending =>
    exact ⟨trivial, hh.copySlots source start count target position descending⟩
  | define frame name value => exact ⟨trivial, hh.define frame name hc⟩
  | nameClosure id name => exact ⟨trivial, hh.nameClosure id hc⟩

lemma setCode (hh : h.In V) (id : FrameId) (code : Value) : (h.setCode id code).In V :=
  { hh with
    binding := fun other key => by
      rw [Heap.setCode, frame_modifyFrame]
      split <;> exact hh.binding other key }

/-! ### Reading -/

lemma walkFrom (hh : h.In V) (steps : Nat) (value : Value) :
    AllIn V (h.walkFrom steps value).1 := by
  induction steps generalizing value with
  | zero => cases value <;> simp [Heap.walkFrom]
  | succ steps ih =>
    cases value with
    | pair id => exact AllIn.cons_iff.2 ⟨hh.head id, ih _⟩
    | _ => simp [Heap.walkFrom]

lemma listItems? (hh : h.In V) {value : Value} {items : List Value}
    (eq : h.listItems? value = some items) : AllIn V items := by
  rw [Heap.listItems?] at eq
  have hw := hh.walkFrom (h.cells.size + 1) value
  rw [← Heap.walk] at hw
  split at eq
  · next heq =>
    rw [heq] at hw
    exact Option.some.inj eq ▸ hw
  · cases eq

lemma lookup? (hh : h.In V) {id : FrameId} {name : Symbol} {v : Value}
    (eq : h.lookup? id name = some v) : v.In V := by
  obtain ⟨frame, -, hfound⟩ := List.exists_of_findSome?_eq_some eq
  exact hh.binding frame name v hfound

end Heap.In

/-! ### Other vocabularies -/

/-- The words of the first vocabulary are words of the second. -/
structure Vocabulary.Within (V W : Vocabulary) : Prop where
  symbol : ∀ name, V.symbol name → W.symbol name
  primitive : ∀ p, V.primitive p → W.primitive p
  tag : ∀ tag, V.tag tag → W.tag tag

section Within

variable {W : Vocabulary} (hVW : V.Within W)

include hVW

lemma Value.In.mono {v : Value} (hv : v.In V) : v.In W := by
  cases v with
  | sym name => exact hVW.symbol name hv
  | primitive p => exact hVW.primitive p hv
  | _ => exact trivial

lemma AllIn.mono {values : List Value} (hv : AllIn V values) : AllIn W values :=
  fun v hmem => (hv v hmem).mono hVW

lemma Heap.In.mono {h : Heap} (hh : h.In V) : h.In W where
  head id := (hh.head id).mono hVW
  tail id := (hh.tail id).mono hVW
  slots id := (hh.slots id).mono hVW
  body id := (hh.body id).mono hVW
  name id name hname := hVW.symbol name (hh.name id name hname)
  binding id name v hv := (hh.binding id name v hv).mono hVW
  tag id := hVW.tag _ (hh.tag id)
  deferred id f hf := (hh.deferred id f hf).mono hVW

end Within

mutual

lemma Datum.In.mono {W : Vocabulary} (h : ∀ name, V.symbol name → W.symbol name) {d : Datum}
    (hd : d.In V) : d.In W := by
  cases d with
  | sym name => exact h name hd
  | pair head tail => exact ⟨Datum.In.mono h hd.1, Datum.In.mono h hd.2⟩
  | vector items => exact Datum.AllIn.mono h hd
  | _ => exact trivial

lemma Datum.AllIn.mono {W : Vocabulary} (h : ∀ name, V.symbol name → W.symbol name)
    {ds : List Datum} (hds : Datum.AllIn V ds) : Datum.AllIn W ds := by
  cases ds with
  | nil => exact trivial
  | cons d rest => exact ⟨Datum.In.mono h hds.1, Datum.AllIn.mono h hds.2⟩

end

/-- The same words, and messages of any kind. -/
def Vocabulary.free (V : Vocabulary) : Vocabulary := { V with text := fun _ => True }

lemma Vocabulary.within_free : V.Within V.free := ⟨fun _ h => h, fun _ h => h, fun _ h => h⟩

lemma Vocabulary.free_within : V.free.Within V := ⟨fun _ h => h, fun _ h => h, fun _ h => h⟩

instance [V.Coherent] : V.free.Coherent where
  field := Coherent.field (V := V)
  read h := (Coherent.read (V := V) h).mono within_free.symbol
  line _ := trivial
  append _ _ := trivial
  symbol _ := trivial
  primitive _ := trivial
  value _ _ := trivial

/-- Every error is worded as messages of any kind are. -/
lemma Error.in_free (e : Error) : e.In V.free := by
  cases e <;> exact trivial

end HostedLisp
