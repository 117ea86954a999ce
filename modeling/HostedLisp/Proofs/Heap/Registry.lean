import HostedLisp.Proofs.Heap.Teardown
import Mathlib.Data.List.Find
import Mathlib.Logic.Function.Basic

/-!
# Frames listed weakly

A root keeps the list of its frames, in which a frame that nobody holds any more counts for
nothing. From time to time such entries are struck off. This says the same about every live frame
as the mark that the heap keeps in the frame, so a teardown by list clears the same live frames.
Main statement: `Registered.Run.agrees`.
-/

namespace HostedLisp

/-- Frames, the live ones among them, and the list of every root. The marks in the frames are not
read. -/
structure Registered where
  heap : Heap
  alive : FrameId → Bool
  listed : FrameId → List FrameId

namespace Registered

def start : Registered := ⟨.empty, fun _ => false, fun _ => []⟩

/-- Makes a new frame live and lists it after those that its root still lists. -/
def enter (r : Registered) (made : FrameId × Heap) (root : FrameId) (kept : List FrameId) :
    Registered where
  heap := made.2
  alive := Function.update r.alive made.1 true
  listed := Function.update r.listed root (kept ++ [made.1])

/-- Clears the live frames that a root lists, and empties the list. -/
def teardown (r : Registered) (root : FrameId) : Registered where
  heap :=
    let cleared (i : Nat) (f : Frame) : Frame :=
      if r.alive ⟨i⟩ && (r.listed root).contains ⟨i⟩ then f.clear else f
    { r.heap with frames := r.heap.frames.mapIdx cleared }
  alive := r.alive
  listed := Function.update r.listed root []

/-- One step through live handles. A new frame may strike the freed frames off the list of its
root, and no live frame loses its parent. -/
inductive Step (r : Registered) : FrameStep → Registered → Prop
  | newRoot : Step r .newRoot (r.enter r.heap.newRoot r.heap.newRoot.1 [])
  | newFrame {parent : FrameId} (label : String) {kept : List FrameId}
      (hparent : r.alive parent = true)
      (hkept : kept = r.listed (r.heap.frame parent).root ∨
        kept = (r.listed (r.heap.frame parent).root).filter r.alive) :
      Step r (.newFrame parent label)
        (r.enter (r.heap.newFrame parent label) (r.heap.frame parent).root kept)
  | define {id : FrameId} (name : Symbol) (value : Value) (hid : r.alive id = true) :
      Step r (.define id name value) { r with heap := r.heap.define id name value }
  | assign {id : FrameId} (name : Symbol) (value : Value) (hid : r.alive id = true) :
      Step r (.assign id name value)
        { r with heap := (r.heap.assign? id name value).getD r.heap }
  | setCode {id : FrameId} (code : Value) (hid : r.alive id = true) :
      Step r (.setCode id code) { r with heap := r.heap.setCode id code }
  | drop {freed : List FrameId}
      (hfreed : ∀ f parent, r.alive f = true → f ∉ freed → r.heap.parent? f = some parent →
        parent ∉ freed) :
      Step r (.drop freed) { r with alive := fun f => r.alive f && !freed.contains f }
  | teardown {id : FrameId} (hid : r.alive id = true) :
      Step r (.teardown id) (r.teardown (r.heap.frame id).root)

inductive Run : List FrameStep → Registered → Prop
  | start : Run [] start
  | step {steps : List FrameStep} {s : FrameStep} {r r' : Registered} (hr : Run steps r)
      (hs : Step r s r') : Run (steps ++ [s]) r'

/-- The live frames are the same as in a heap, and the lists say which of them it tracks. -/
structure Agrees (r : Registered) (h : Heap) : Prop where
  size : r.heap.frames.size = h.frames.size
  made : ∀ f, r.alive f = true → f.index < h.frames.size
  rootMade : ∀ f, r.alive f = true → (h.frame f).root.index < h.frames.size
  parent : ∀ f parent, r.alive f = true → h.parent? f = some parent → r.alive parent = true
  same : ∀ f, r.alive f = true → r.heap.frame f = h.frame f
  listedMade : ∀ root f, f ∈ r.listed root → f.index < h.frames.size
  listedRoot : ∀ root f, r.alive f = true → f ∈ r.listed root → (h.frame f).root = root
  tracked : ∀ f, r.alive f = true →
    (f ∈ r.listed (h.frame f).root ↔ (h.frame f).tracked = true)

variable {r r' : Registered} {h : Heap}

lemma Agrees.start : Agrees start .empty where
  size := rfl
  made _ := nofun
  rootMade _ := nofun
  parent _ _ := nofun
  same _ := nofun
  listedMade _ _ := nofun
  listedRoot _ _ := nofun
  tracked _ := nofun

/-! ### New frames -/

lemma Agrees.enter (ha : Agrees r h) (new : Frame) (kept : List FrameId)
    (htracked : new.tracked = true)
    (hparent : ∀ parent, new.parent = some parent → r.alive parent = true)
    (hroot : new.root.index < h.frames.size + 1)
    (hkept : ∀ f ∈ kept, f ∈ r.listed new.root)
    (hlive : ∀ f, r.alive f = true → f ∈ r.listed new.root → f ∈ kept) :
    Agrees (r.enter (⟨h.frames.size⟩, { r.heap with frames := r.heap.frames.push new }) new.root
      kept) { h with frames := h.frames.push new } := by
  have hold (f : FrameId) (hf : f.index < h.frames.size) :
      ({ h with frames := h.frames.push new } : Heap).frame f = h.frame f := by
    rw [Heap.frame_push, if_neg hf.ne]
  have hlast : ({ h with frames := h.frames.push new } : Heap).frame ⟨h.frames.size⟩ = new := by
    rw [Heap.frame_push, if_pos rfl]
  have hne (f : FrameId) (hf : f.index < h.frames.size) : f ≠ ⟨h.frames.size⟩ := by
    rintro rfl
    exact hf.ne rfl
  -- a frame is either the new one or lived before
  have halive (f : FrameId) :
      Function.update r.alive ⟨h.frames.size⟩ true f = true ↔
        f = ⟨h.frames.size⟩ ∨ r.alive f = true := by
    by_cases hf : f = ⟨h.frames.size⟩
    · simp [hf]
    · simp [hf]
  constructor
  case size => simp [Registered.enter, ha.size]
  case made =>
    intro f hf
    obtain rfl | hf := (halive f).1 hf
    · simp
    · simpa using (ha.made f hf).trans (Nat.lt_succ_self _)
  case rootMade =>
    intro f hf
    rw [Array.size_push]
    obtain rfl | hf := (halive f).1 hf
    · rw [hlast]
      exact hroot
    · rw [hold f (ha.made f hf)]
      exact (ha.rootMade f hf).trans (Nat.lt_succ_self _)
  case parent =>
    intro f parent hf hp
    refine (halive parent).2 (.inr ?_)
    rw [Heap.parent?] at hp
    obtain rfl | hf := (halive f).1 hf
    · rw [hlast] at hp
      exact hparent parent (Option.filter_eq_some_iff.1 hp).1
    · rw [hold f (ha.made f hf)] at hp
      exact ha.parent f parent hf hp
  case same =>
    intro f hf
    obtain rfl | hf := (halive f).1 hf
    · rw [hlast]
      simp [Registered.enter, Heap.frame_push, ha.size]
    · have hlt := ha.made f hf
      have hneq : f.index ≠ r.heap.frames.size := by
        rw [ha.size]
        exact hlt.ne
      rw [hold f hlt, ← ha.same f hf]
      simp only [Registered.enter, Heap.frame_push, if_neg hneq]
  case listedMade =>
    intro root f hf
    rw [Array.size_push]
    simp only [Registered.enter, Function.update_apply] at hf
    split at hf
    · rcases List.mem_append.1 hf with hf | hf
      · exact (ha.listedMade _ f (hkept f hf)).trans (Nat.lt_succ_self _)
      · rw [List.mem_singleton.1 hf]
        exact Nat.lt_succ_self _
    · exact (ha.listedMade root f hf).trans (Nat.lt_succ_self _)
  case listedRoot =>
    intro root f hf hl
    simp only [Registered.enter, Function.update_apply] at hl
    obtain rfl | hf := (halive f).1 hf
    · rw [hlast]
      split at hl
      case isTrue heq => exact heq.symm
      case isFalse => exact absurd (ha.listedMade root _ hl) (Nat.lt_irrefl _)
    · have hlt := ha.made f hf
      rw [hold f hlt]
      split at hl
      case isTrue heq =>
        rcases List.mem_append.1 hl with hl | hl
        · rw [heq]
          exact ha.listedRoot _ f hf (hkept f hl)
        · exact absurd (List.mem_singleton.1 hl) (hne f hlt)
      case isFalse => exact ha.listedRoot root f hf hl
  case tracked =>
    intro f hf
    simp only [Registered.enter, Function.update_apply]
    obtain rfl | hf := (halive f).1 hf
    · simp [hlast, htracked]
    · have hlt := ha.made f hf
      rw [hold f hlt, ← ha.tracked f hf]
      split
      case isTrue heq =>
        rw [heq, List.mem_append, List.mem_singleton]
        constructor
        · rintro (hl | hl)
          · exact hkept f hl
          · exact absurd hl (hne f hlt)
        · intro hl
          exact .inl (hlive f hf hl)
      case isFalse => exact Iff.rfl

/-! ### Changes in a frame -/

lemma Agrees.modifyFrame (ha : Agrees r h) (id : FrameId) {change : Frame → Frame}
    (hroot : ∀ f, (change f).root = f.root) (htracked : ∀ f, (change f).tracked = f.tracked)
    (hparent : ∀ f, (change f).parent = f.parent) :
    Agrees { r with heap := r.heap.modifyFrame id change } (h.modifyFrame id change) := by
  have hkeep {β : Type} (part : Frame → β) (hpart : ∀ f, part (change f) = part f) (f : FrameId) :
      part ((h.modifyFrame id change).frame f) = part (h.frame f) := by
    rw [Heap.frame_modifyFrame]
    split
    · exact hpart _
    · rfl
  have hsize (h : Heap) : (h.modifyFrame id change).frames.size = h.frames.size := by
    simp [Heap.modifyFrame]
  constructor
  case size => rw [hsize, hsize, ha.size]
  case made =>
    intro f hf
    rw [hsize]
    exact ha.made f hf
  case rootMade =>
    intro f hf
    rw [hsize, hkeep Frame.root hroot]
    exact ha.rootMade f hf
  case parent =>
    intro f parent hf hp
    rw [Heap.parent?, hkeep Frame.parent hparent] at hp
    exact ha.parent f parent hf hp
  case same =>
    intro f hf
    rw [Heap.frame_modifyFrame, Heap.frame_modifyFrame, ha.size, ha.same f hf]
  case listedMade =>
    intro root f hl
    rw [hsize]
    exact ha.listedMade root f hl
  case listedRoot =>
    intro root f hf hl
    rw [hkeep Frame.root hroot]
    exact ha.listedRoot root f hf hl
  case tracked =>
    intro f hf
    rw [hkeep Frame.root hroot, hkeep Frame.tracked htracked]
    exact ha.tracked f hf

lemma Agrees.define (ha : Agrees r h) (id : FrameId) (name : Symbol) (value : Value) :
    Agrees { r with heap := r.heap.define id name value } (h.define id name value) :=
  ha.modifyFrame id (fun _ => rfl) (fun _ => rfl) fun _ => rfl

/-- The frames around a live frame live, and both heaps see the same ones. -/
lemma Agrees.chainFrom (ha : Agrees r h) (steps : Nat) {id : FrameId} (hid : r.alive id = true) :
    r.heap.chainFrom steps id = h.chainFrom steps id ∧
      ∀ f ∈ h.chainFrom steps id, r.alive f = true := by
  induction steps generalizing id with
  | zero => exact ⟨rfl, fun f hf => List.mem_singleton.1 hf ▸ hid⟩
  | succ steps ih =>
    have hsame : r.heap.parent? id = h.parent? id := by
      rw [Heap.parent?, Heap.parent?, ha.same id hid]
    rw [Heap.chainFrom, Heap.chainFrom, hsame]
    cases hp : h.parent? id with
    | none => exact ⟨rfl, fun f hf => List.mem_singleton.1 hf ▸ hid⟩
    | some parent =>
      obtain ⟨heq, hall⟩ := ih (ha.parent id parent hid hp)
      refine ⟨congrArg (id :: ·) heq, fun f hf => ?_⟩
      obtain rfl | hf := List.mem_cons.1 hf
      · exact hid
      · exact hall f hf

lemma Agrees.resolve? (ha : Agrees r h) {id : FrameId} (hid : r.alive id = true)
    (name : Symbol) : r.heap.resolve? id name = h.resolve? id name := by
  obtain ⟨heq, hall⟩ := ha.chainFrom id.index hid
  rw [Heap.resolve?, Heap.resolve?, Heap.chain, Heap.chain, heq]
  refine List.find?_congr fun f hf => ?_
  rw [Heap.binds, Heap.binds, ha.same f (hall f hf)]

/-! ### Teardown -/

lemma frame_teardown {f : FrameId} (hf : f.index < r.heap.frames.size) (root : FrameId) :
    (r.teardown root).heap.frame f =
      if r.alive f && (r.listed root).contains f then (r.heap.frame f).clear
      else r.heap.frame f := by
  have hsize : f.index < (r.teardown root).heap.frames.size := by simpa [teardown] using hf
  simp only [Heap.frame, Array.getD_eq_getD_getElem?, Array.getElem?_eq_getElem hf,
    Array.getElem?_eq_getElem hsize, Option.getD_some]
  simp only [teardown, Array.getElem_mapIdx]

lemma Agrees.teardown (ha : Agrees r h) {id : FrameId} (hid : r.alive id = true) :
    Agrees (r.teardown (r.heap.frame id).root) (h.teardown id) := by
  rw [ha.same id hid]
  have hsize : (h.teardown id).frames.size = h.frames.size := Heap.size_teardown h id
  have hframe (f : FrameId) (hf : r.alive f = true) := Heap.frame_teardown (ha.made f hf) id
  have hroot (f : FrameId) (hf : r.alive f = true) :
      ((h.teardown id).frame f).root = (h.frame f).root := by
    rw [hframe f hf]
    split <;> rfl
  have hkeepParent (f : FrameId) (hf : r.alive f = true) :
      ((h.teardown id).frame f).parent = (h.frame f).parent := by
    rw [hframe f hf]
    split <;> rfl
  -- the list of the root and the marks in the frames choose the same live frames
  have hchosen (f : FrameId) (hf : r.alive f = true) :
      (r.listed (h.frame id).root).contains f =
        ((h.frame f).tracked && (h.frame f).root == (h.frame id).root) := by
    rw [Bool.eq_iff_iff, List.contains_iff_mem, Bool.and_eq_true, beq_iff_eq]
    constructor
    · intro hl
      have heq := ha.listedRoot _ f hf hl
      exact ⟨(ha.tracked f hf).1 (heq ▸ hl), heq⟩
    · rintro ⟨ht, heq⟩
      exact heq ▸ (ha.tracked f hf).2 ht
  constructor
  case size => simp [Registered.teardown, Heap.teardown, ha.size]
  case made =>
    intro f hf
    rw [hsize]
    exact ha.made f hf
  case rootMade =>
    intro f hf
    rw [hsize, hroot f hf]
    exact ha.rootMade f hf
  case parent =>
    intro f parent hf hp
    rw [Heap.parent?, hkeepParent f hf] at hp
    exact ha.parent f parent hf hp
  case same =>
    intro f hf
    have hf : r.alive f = true := hf
    rw [frame_teardown (ha.size ▸ ha.made f hf), hframe f hf, hf, Bool.true_and, hchosen f hf,
      ha.same f hf]
  case listedMade =>
    intro root f hl
    rw [hsize]
    simp only [Registered.teardown, Function.update_apply] at hl
    split at hl
    · cases hl
    · exact ha.listedMade root f hl
  case listedRoot =>
    intro root f hf hl
    rw [hroot f hf]
    simp only [Registered.teardown, Function.update_apply] at hl
    split at hl
    · cases hl
    · exact ha.listedRoot root f hf hl
  case tracked =>
    intro f hf
    have hf : r.alive f = true := hf
    rw [hroot f hf]
    simp only [Registered.teardown, Function.update_apply]
    by_cases heq : (h.frame f).root = (h.frame id).root
    · have hlost : ((h.teardown id).frame f).tracked = false := by
        rw [hframe f hf]
        cases ht : (h.frame f).tracked <;> simp [heq, ht, Frame.clear]
      simp [heq, hlost]
    · have hkept : ((h.teardown id).frame f).tracked = (h.frame f).tracked := by
        rw [hframe f hf]
        simp [heq]
      rw [if_neg heq, hkept]
      exact ha.tracked f hf

/-! ### Every step -/

lemma Agrees.step {s : FrameStep} (ha : Agrees r h) (hs : Step r s r') : Agrees r' (s.apply h) := by
  cases hs with
  | newRoot =>
    have hempty (f : FrameId) (hf : r.alive f = true) :
        f ∉ r.listed ⟨h.frames.size⟩ := by
      intro hl
      have heq := ha.listedRoot _ f hf hl
      exact (ha.rootMade f hf).ne (congrArg FrameId.index heq)
    have hnew := ha.enter ⟨.empty, none, "global", none, ⟨h.frames.size⟩, true⟩ [] rfl
      (fun _ => nofun) (Nat.lt_succ_self _) (fun _ => nofun)
      fun f hf hl => absurd hl (hempty f hf)
    simpa only [FrameStep.apply, Heap.newRoot, ha.size] using hnew
  | @newFrame parent label kept hparent hkept =>
    rw [ha.same parent hparent] at hkept ⊢
    have hsub (f : FrameId) (hf : f ∈ kept) : f ∈ r.listed (h.frame parent).root := by
      obtain rfl | rfl := hkept
      · exact hf
      · exact (List.mem_filter.1 hf).1
    have hlive (f : FrameId) (hf : r.alive f = true) (hl : f ∈ r.listed (h.frame parent).root) :
        f ∈ kept := by
      obtain rfl | rfl := hkept
      · exact hl
      · exact List.mem_filter.2 ⟨hl, hf⟩
    have hnew := ha.enter ⟨.empty, some parent, label, none, (h.frame parent).root, true⟩ kept rfl
      (by rintro _ ⟨rfl⟩; exact hparent) ((ha.rootMade parent hparent).trans (Nat.lt_succ_self _))
      hsub hlive
    simpa only [FrameStep.apply, Heap.newFrame, ha.size, ha.same parent hparent] using hnew
  | define name value _ => exact ha.define _ name value
  | @assign id name value hid =>
    rw [FrameStep.apply, Heap.assign?, Heap.assign?, ha.resolve? hid]
    cases h.resolve? id name with
    | none => exact ha
    | some inner => exact ha.define inner name value
  | setCode code _ => exact ha.modifyFrame _ (fun _ => rfl) (fun _ => rfl) fun _ => rfl
  | @drop freed hfreed =>
    have hsub (f : FrameId) (hf : (r.alive f && !freed.contains f) = true) :
        r.alive f = true ∧ f ∉ freed := by simpa using hf
    constructor
    case size => exact ha.size
    case made => exact fun f hf => ha.made f (hsub f hf).1
    case rootMade => exact fun f hf => ha.rootMade f (hsub f hf).1
    case parent =>
      intro f parent hf hp
      obtain ⟨hlive, hkeep⟩ := hsub f hf
      have hsame : r.heap.parent? f = some parent := by
        rw [Heap.parent?, ha.same f hlive]
        exact hp
      have hstays := hfreed f parent hlive hkeep hsame
      simpa [hstays] using ha.parent f parent hlive hp
    case same => exact fun f hf => ha.same f (hsub f hf).1
    case listedMade => exact ha.listedMade
    case listedRoot => exact fun root f hf => ha.listedRoot root f (hsub f hf).1
    case tracked => exact fun f hf => ha.tracked f (hsub f hf).1
  | teardown hid => exact ha.teardown hid

/-- Whenever freed frames are struck off, every live frame is what it is in the heap after the same
steps, and its root lists it exactly if the heap tracks it. -/
theorem Run.agrees {steps : List FrameStep} (hr : Run steps r) :
    Agrees r (Heap.empty.after steps) := by
  induction hr with
  | start => exact .start
  | step _ hs ih =>
    rw [Heap.after_append]
    exact ih.step hs

end Registered

end HostedLisp
