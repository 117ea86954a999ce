import HostedLisp.Proofs.Heap.Vocabulary

/-!
# The primitives in a heap

`Heap.Over G` says that every primitive that can be taken out of a heap satisfies `G`, whatever the
symbols and the tags are. So it is about the words of a vocabulary that leaves these open, and what
is known of all primitives at first stays known: `Heap.Over.apply`.
-/

namespace HostedLisp

open Vocabulary

variable {G : Primitive → Prop}

/-- A value that is a primitive satisfies `G`. -/
def Value.Over (G : Primitive → Prop) (v : Value) : Prop := ∀ p, v = .primitive p → G p

namespace Value

@[simp] lemma over_nil : Value.nil.Over G := nofun
@[simp] lemma over_bool (b : Bool) : (Value.bool b).Over G := nofun
@[simp] lemma over_int (n : Int64) : (Value.int n).Over G := nofun
@[simp] lemma over_float (x : Float) : (Value.float x).Over G := nofun
@[simp] lemma over_str (text : String) : (Value.str text).Over G := nofun
@[simp] lemma over_sym (name : Symbol) : (Value.sym name).Over G := nofun
@[simp] lemma over_pair (id : CellId) : (Value.pair id).Over G := nofun
@[simp] lemma over_vector (id : VectorId) : (Value.vector id).Over G := nofun
@[simp] lemma over_closure (id : ClosureId) : (Value.closure id).Over G := nofun
@[simp] lemma over_object (id : ObjectId) : (Value.object id).Over G := nofun

@[simp] lemma over_primitive {p : Primitive} : (Value.primitive p).Over G ↔ G p :=
  ⟨fun h => h p rfl, fun h _ eq => Value.primitive.inj eq ▸ h⟩

lemma Over.mono {H : Primitive → Prop} {v : Value} (hv : v.Over G) (h : ∀ p, G p → H p) :
    v.Over H :=
  fun p hp => h p (hv p hp)

end Value

/-- All values in a list are over `G`. -/
def AllOver (G : Primitive → Prop) (values : List Value) : Prop := ∀ v ∈ values, v.Over G

namespace AllOver

@[simp] lemma nil : AllOver G [] := nofun

@[simp] lemma cons_iff {v : Value} {values : List Value} :
    AllOver G (v :: values) ↔ v.Over G ∧ AllOver G values := List.forall_mem_cons

@[simp] lemma append_iff {l r : List Value} :
    AllOver G (l ++ r) ↔ AllOver G l ∧ AllOver G r := List.forall_mem_append

@[simp] lemma reverse_iff {values : List Value} :
    AllOver G values.reverse ↔ AllOver G values := by
  simp [AllOver]

lemma mono {H : Primitive → Prop} {values : List Value} (hv : AllOver G values)
    (h : ∀ p, G p → H p) : AllOver H values :=
  fun v hmem => (hv v hmem).mono h

end AllOver

/-- Every primitive that can be taken out of the heap satisfies `G`. -/
structure Heap.Over (G : Primitive → Prop) (h : Heap) : Prop where
  head : ∀ id, (h.cell id).head.Over G
  tail : ∀ id, (h.cell id).tail.Over G
  slots : ∀ id, AllOver G (h.vector id).toList
  body : ∀ id, AllOver G (h.closure id).body
  binding : ∀ id name v, (h.frame id).bindings.find? name = some v → v.Over G
  deferred : ∀ id f, (h.object id).payload = .field f → AllOver G f.deferred

/-- Every primitive that a change is given satisfies `G`. -/
def Change.Over (G : Primitive → Prop) : Change → Prop
  | .chain items tail => AllOver G items ∧ tail.Over G
  | .vector items => AllOver G items
  | .closure c => AllOver G c.body
  | .object o => ∀ f, o.payload = .field f → AllOver G f.deferred
  | .setHead _ value | .setTail _ value | .define _ _ value => value.Over G
  | .setSlots _ _ values => AllOver G values
  | .place _ | .placeAll _ | .frame .. | .copySlots .. | .nameClosure .. => True

/-- Every primitive that a change answers satisfies `G`. -/
def Change.AnswerOver (G : Primitive → Prop) : (c : Change) → c.Answer → Prop
  | .chain .., v | .vector _, v | .closure _, v | .object _, v | .place _, v => Value.Over G v
  | .placeAll _, values => AllOver G values
  | _, _ => True

/-! ### The vocabulary of the primitives -/

/-- Any symbols, tags and texts, and the primitives that satisfy `G`. -/
def Vocabulary.ofPrimitives (G : Primitive → Prop) : Vocabulary where
  symbol _ := True
  primitive := G
  tag _ := True
  text _ := True

lemma Value.over_iff {v : Value} : v.Over G ↔ v.In (.ofPrimitives G) := by
  cases v with
  | primitive p => exact over_primitive
  | sym name => exact iff_of_true (over_sym name) trivial
  | _ => exact iff_of_true nofun trivial

lemma allOver_iff {values : List Value} : AllOver G values ↔ AllIn (.ofPrimitives G) values :=
  forall₂_congr fun _ _ => Value.over_iff

mutual

lemma Datum.in_ofPrimitives (d : Datum) : d.In (.ofPrimitives G) := by
  cases d with
  | pair head tail => exact ⟨head.in_ofPrimitives, tail.in_ofPrimitives⟩
  | vector items => exact Datum.allIn_ofPrimitives items
  | _ => exact trivial

lemma Datum.allIn_ofPrimitives (ds : List Datum) : Datum.AllIn (.ofPrimitives G) ds := by
  cases ds with
  | nil => exact trivial
  | cons d rest => exact ⟨d.in_ofPrimitives, Datum.allIn_ofPrimitives rest⟩

end

instance : (Vocabulary.ofPrimitives G).Coherent where
  field := trivial
  read _ := Datum.in_ofPrimitives _
  line _ := trivial
  append _ _ := trivial
  symbol _ := trivial
  primitive _ := trivial
  value _ _ := trivial

lemma Change.over_iff {c : Change} : c.Over G ↔ c.In (.ofPrimitives G) := by
  cases c with
  | chain => exact and_congr allOver_iff Value.over_iff
  | vector | setSlots => exact allOver_iff
  | closure => exact allOver_iff.trans (and_iff_left fun _ _ => trivial).symm
  | object =>
    exact (forall₂_congr fun _ _ => allOver_iff).trans (and_iff_right trivial).symm
  | setHead | setTail | define => exact Value.over_iff
  | place d => exact iff_of_true trivial d.in_ofPrimitives
  | placeAll ds => exact iff_of_true trivial (Datum.allIn_ofPrimitives ds)
  | frame | copySlots | nameClosure => exact iff_of_true trivial trivial

lemma Change.answerOver_iff {c : Change} {answer : c.Answer} :
    c.AnswerOver G answer ↔ c.AnswerIn (.ofPrimitives G) answer := by
  cases c with
  | chain | vector | closure | object | place => exact Value.over_iff
  | placeAll => exact allOver_iff
  | _ => exact Iff.rfl

namespace Heap

variable {h : Heap}

lemma over_iff : h.Over G ↔ h.In (.ofPrimitives G) where
  mp hh :=
    { head := fun id => Value.over_iff.1 (hh.head id)
      tail := fun id => Value.over_iff.1 (hh.tail id)
      slots := fun id => allOver_iff.1 (hh.slots id)
      body := fun id => allOver_iff.1 (hh.body id)
      name := fun _ _ _ => trivial
      binding := fun id name v hv => Value.over_iff.1 (hh.binding id name v hv)
      tag := fun _ => trivial
      deferred := fun id f hf => allOver_iff.1 (hh.deferred id f hf) }
  mpr hh :=
    { head := fun id => Value.over_iff.2 (hh.head id)
      tail := fun id => Value.over_iff.2 (hh.tail id)
      slots := fun id => allOver_iff.2 (hh.slots id)
      body := fun id => allOver_iff.2 (hh.body id)
      binding := fun id name v hv => Value.over_iff.2 (hh.binding id name v hv)
      deferred := fun id f hf => allOver_iff.2 (hh.deferred id f hf) }

namespace Over

lemma mono {H : Primitive → Prop} (hh : h.Over G) (hG : ∀ p, G p → H p) : h.Over H where
  head id := (hh.head id).mono hG
  tail id := (hh.tail id).mono hG
  slots id := (hh.slots id).mono hG
  body id := (hh.body id).mono hG
  binding id name v hv := (hh.binding id name v hv).mono hG
  deferred id f hf := (hh.deferred id f hf).mono hG

lemma newVector (hh : h.Over G) {items : List Value} (hi : AllOver G items) :
    (h.newVector items).2.Over G :=
  over_iff.2 ((over_iff.1 hh).newVector (allOver_iff.1 hi))

lemma newChain (hh : h.Over G) {items : List Value} {tail : Value} (hi : AllOver G items)
    (ht : tail.Over G) : (h.newChain items tail).1.Over G ∧ (h.newChain items tail).2.Over G :=
  (and_congr Value.over_iff over_iff).2
    ((over_iff.1 hh).newChain (allOver_iff.1 hi) (Value.over_iff.1 ht))

lemma define (hh : h.Over G) (id : FrameId) (name : Symbol) {v : Value} (hv : v.Over G) :
    (h.define id name v).Over G :=
  over_iff.2 ((over_iff.1 hh).define id name (Value.over_iff.1 hv))

/-- A change of values over `G` keeps the heap over `G` and answers a value over `G`. -/
theorem apply (hh : h.Over G) {c : Change} (hc : c.Over G) :
    c.AnswerOver G (h.apply c).1 ∧ (h.apply c).2.Over G :=
  (and_congr Change.answerOver_iff over_iff).2 ((over_iff.1 hh).apply (Change.over_iff.1 hc))

lemma setCode (hh : h.Over G) (id : FrameId) (code : Value) : (h.setCode id code).Over G :=
  over_iff.2 ((over_iff.1 hh).setCode id code)

end Over

end Heap

/-! ### Some of the primitives of a vocabulary -/

/-- The vocabulary with those of its primitives that satisfy `G`. -/
def Vocabulary.restrict (V : Vocabulary) (G : Primitive → Prop) : Vocabulary :=
  { V with primitive := fun p => V.primitive p ∧ G p }

section Restrict

variable {V : Vocabulary}

lemma Vocabulary.restrict_within : (V.restrict G).Within V :=
  ⟨fun _ h => h, fun _ h => h.1, fun _ h => h⟩

lemma Value.in_restrict {v : Value} : v.In (V.restrict G) ↔ v.In V ∧ v.Over G := by
  cases v with
  | primitive p => exact and_congr_right fun _ => over_primitive.symm
  | sym name => exact (and_iff_left (over_sym name)).symm
  | _ => exact iff_of_true trivial ⟨trivial, nofun⟩

lemma AllIn.restrict {values : List Value} (hV : AllIn V values) (hG : AllOver G values) :
    AllIn (V.restrict G) values :=
  fun v hv => Value.in_restrict.2 ⟨hV v hv, hG v hv⟩

lemma Heap.In.restrict {h : Heap} (hV : h.In V) (hG : h.Over G) : h.In (V.restrict G) where
  head id := Value.in_restrict.2 ⟨hV.head id, hG.head id⟩
  tail id := Value.in_restrict.2 ⟨hV.tail id, hG.tail id⟩
  slots id := (hV.slots id).restrict (hG.slots id)
  body id := (hV.body id).restrict (hG.body id)
  name := hV.name
  binding id name v hv := Value.in_restrict.2 ⟨hV.binding id name v hv, hG.binding id name v hv⟩
  tag := hV.tag
  deferred id f hf := (hV.deferred id f hf).restrict (hG.deferred id f hf)

instance [V.Coherent] : (V.restrict G).Coherent where
  field := Coherent.field (V := V)
  read h := Datum.In.mono (V := V) (W := V.restrict G) (fun _ hname => hname) (Coherent.read h)
  line := Coherent.line (V := V)
  append := Coherent.append (V := V)
  symbol := Coherent.symbol (V := V)
  primitive hp := Coherent.primitive (V := V) hp.1
  value hh hv := Coherent.value (V := V) (hh.mono restrict_within) (hv.mono restrict_within)

end Restrict

end HostedLisp
