import HostedLisp.Heap.Scope
import HostedLisp.Proofs.Heap.Tables
import Mathlib.Data.List.Induction
import Mathlib.Order.Nat

/-!
# What a teardown clears

A host makes frames, binds names in them, drops its handles and tears trees of frames down, in any
order. A teardown lets go of the frames that it clears, so a later one clears only the frames made
since: a frame that lives on keeps what it was given in between. Main statement:
`blank_after_teardown_iff`.
-/

namespace HostedLisp

/-- What a host does to frames through its handles. Dropping handles frees the listed frames. -/
inductive FrameStep where
  | newRoot
  | newFrame (parent : FrameId) (label : String)
  | define (id : FrameId) (name : Symbol) (value : Value)
  | assign (id : FrameId) (name : Symbol) (value : Value)
  | setCode (id : FrameId) (code : Value)
  | drop (freed : List FrameId)
  | teardown (id : FrameId)

/-- The heap forgets nothing, and freed frames can not be told from others that nobody uses. An
assignment to a name that is not bound fails and changes nothing. -/
def FrameStep.apply (h : Heap) : FrameStep → Heap
  | .newRoot => h.newRoot.2
  | .newFrame parent label => (h.newFrame parent label).2
  | .define id name value => h.define id name value
  | .assign id name value => (h.assign? id name value).getD h
  | .setCode id code => h.setCode id code
  | .drop _ => h
  | .teardown id => h.teardown id

/-- Without bindings and without an expression. -/
def Frame.Blank (f : Frame) : Prop := f.bindings.entries = [] ∧ f.code = none

namespace Heap

variable {h : Heap}

/-- The heap after the steps, from the first to the last. -/
def after (h : Heap) (steps : List FrameStep) : Heap := steps.foldl FrameStep.apply h

/-- A frame was there at an earlier teardown of its tree. -/
def TornDown (h : Heap) (steps : List FrameStep) (f : FrameId) : Prop :=
  ∃ early id late, steps = early ++ .teardown id :: late ∧
    f.index < (h.after early).frames.size ∧
    ((h.after early).frame id).root = ((h.after early).frame f).root

lemma after_append (h : Heap) (steps : List FrameStep) (s : FrameStep) :
    h.after (steps ++ [s]) = s.apply (h.after steps) := by
  simp only [after, List.foldl_append, List.foldl_cons, List.foldl_nil]

/-! ### One step -/

lemma frame_teardown {f : FrameId} (hf : f.index < h.frames.size) (id : FrameId) :
    (h.teardown id).frame f = if (h.frame f).tracked && (h.frame f).root == (h.frame id).root
      then (h.frame f).clear else h.frame f := by
  have hsize : f.index < (h.teardown id).frames.size := by simpa [teardown] using hf
  simp only [frame, Array.getD_eq_getD_getElem?, Array.getElem?_eq_getElem hf,
    Array.getElem?_eq_getElem hsize, Option.getD_some]
  simp only [teardown, Array.getElem_map, frame, Array.getD_eq_getD_getElem?]

lemma frame_push (h : Heap) (new : Frame) (f : FrameId) :
    ({ h with frames := h.frames.push new } : Heap).frame f =
      if f.index = h.frames.size then new else h.frame f :=
  getD_push ..

/-- Every frame stays as tracked as it was, and new frames are tracked. -/
structure KeepsTrack (h h' : Heap) : Prop where
  size : h.frames.size ≤ h'.frames.size
  tracked : ∀ f : FrameId, f.index < h.frames.size → (h'.frame f).tracked = (h.frame f).tracked
  fresh : ∀ f : FrameId, ¬f.index < h.frames.size → f.index < h'.frames.size →
    (h'.frame f).tracked = true

lemma KeepsTrack.refl (h : Heap) : KeepsTrack h h :=
  ⟨le_rfl, fun _ _ => rfl, fun _ hold hnew => absurd hnew hold⟩

lemma KeepsTrack.modifyFrame (h : Heap) (id : FrameId) {change : Frame → Frame}
    (hchange : ∀ f, (change f).tracked = f.tracked) : KeepsTrack h (h.modifyFrame id change) := by
  have hsize : (h.modifyFrame id change).frames.size = h.frames.size := by simp [Heap.modifyFrame]
  refine ⟨hsize.ge, fun f _ => ?_, fun f hold hnew => absurd (hsize ▸ hnew) hold⟩
  rw [frame_modifyFrame]
  split
  · exact hchange _
  · rfl

lemma KeepsTrack.push (h : Heap) {new : Frame} (hnew : new.tracked = true) :
    KeepsTrack h { h with frames := h.frames.push new } := by
  refine ⟨by simp, fun f hf => ?_, fun f hold hlast => ?_⟩
  · rw [frame_push, if_neg hf.ne]
  · have hindex : f.index = h.frames.size := by
      rw [Array.size_push] at hlast
      omega
    rw [frame_push, if_pos hindex, hnew]

lemma keepsTrack_apply (h : Heap) {s : FrameStep} (hs : ∀ id, s ≠ .teardown id) :
    KeepsTrack h (s.apply h) := by
  cases s with
  | newRoot => exact .push h rfl
  | newFrame parent label => exact .push h rfl
  | define id name value => exact .modifyFrame h id fun _ => rfl
  | assign id name value =>
    rw [FrameStep.apply, assign?]
    cases h.resolve? id name with
    | none => exact .refl h
    | some inner => exact .modifyFrame h inner fun _ => rfl
  | setCode id code => exact .modifyFrame h id fun _ => rfl
  | drop freed => exact .refl h
  | teardown id => exact absurd rfl (hs id)

lemma size_teardown (h : Heap) (id : FrameId) : (h.teardown id).frames.size = h.frames.size := by
  simp [teardown]

lemma size_le_apply (h : Heap) (s : FrameStep) : h.frames.size ≤ (s.apply h).frames.size := by
  by_cases hs : ∃ id, s = .teardown id
  · obtain ⟨id, rfl⟩ := hs
    exact (size_teardown h id).ge
  · exact (keepsTrack_apply h (not_exists.1 hs)).size

lemma tracked_fresh {f : FrameId} {s : FrameStep} (hold : ¬f.index < h.frames.size)
    (hnew : f.index < (s.apply h).frames.size) : ((s.apply h).frame f).tracked = true := by
  by_cases hs : ∃ id, s = .teardown id
  · obtain ⟨id, rfl⟩ := hs
    exact absurd (size_teardown h id ▸ hnew) hold
  · exact (keepsTrack_apply h (not_exists.1 hs)).fresh f hold hnew

/-- A step that tears a tree down. -/
def Tears (h : Heap) (s : FrameStep) (root : FrameId) : Prop :=
  ∃ id, s = .teardown id ∧ (h.frame id).root = root

lemma tracked_apply {f : FrameId} (hf : f.index < h.frames.size) (s : FrameStep) :
    ((s.apply h).frame f).tracked = true ↔
      (h.frame f).tracked = true ∧ ¬h.Tears s (h.frame f).root := by
  by_cases hs : ∃ id, s = .teardown id
  · obtain ⟨id, rfl⟩ := hs
    have htears : h.Tears (.teardown id) (h.frame f).root ↔
        (h.frame f).root = (h.frame id).root := by
      constructor
      · rintro ⟨_, ⟨rfl⟩, heq⟩
        exact heq.symm
      · intro heq
        exact ⟨id, rfl, heq.symm⟩
    rw [htears, FrameStep.apply, frame_teardown hf]
    by_cases hroot : (h.frame f).root = (h.frame id).root
    · cases ht : (h.frame f).tracked <;> simp [hroot, ht, Frame.clear]
    · simp [hroot]
  · have hquiet : ¬h.Tears s (h.frame f).root := fun ⟨id, hid, _⟩ => hs ⟨id, hid⟩
    rw [(keepsTrack_apply h (not_exists.1 hs)).tracked f hf]
    simp only [hquiet, not_false_eq_true, and_true]

/-! ### A whole history -/

lemma TornDown.made {steps : List FrameStep} {f : FrameId} (hdown : h.TornDown steps f) :
    f.index < (h.after steps).frames.size := by
  obtain ⟨early, id, late, rfl, hf, _⟩ := hdown
  induction late using List.reverseRecOn with
  | nil =>
    rw [after_append]
    exact hf.trans_le (size_le_apply _ _)
  | append_singleton late s ih =>
    rw [← List.cons_append, ← List.append_assoc, after_append]
    exact ih.trans_le (size_le_apply _ s)

lemma tornDown_append_iff {steps : List FrameStep} {f : FrameId} (s : FrameStep) :
    h.TornDown (steps ++ [s]) f ↔ h.TornDown steps f ∨
      f.index < (h.after steps).frames.size ∧
        (h.after steps).Tears s ((h.after steps).frame f).root := by
  constructor
  · rintro ⟨early, id, late, heq, hf, hroot⟩
    -- the teardown is either the step itself or one of those before it
    induction late using List.reverseRecOn with
    | nil =>
      obtain ⟨rfl, hs⟩ := List.append_inj' heq rfl
      rw [List.singleton_inj] at hs
      exact .inr ⟨hf, id, hs, hroot⟩
    | append_singleton late last _ =>
      rw [← List.cons_append, ← List.append_assoc] at heq
      obtain ⟨rfl, _⟩ := List.append_inj' heq rfl
      exact .inl ⟨early, id, late, rfl, hf, hroot⟩
  · rintro (⟨early, id, late, rfl, hf, hroot⟩ | ⟨hf, id, rfl, hroot⟩)
    · exact ⟨early, id, late ++ [s], by simp, hf, hroot⟩
    · exact ⟨steps, id, [], rfl, hf, hroot⟩

/-- The root keeps track of a frame exactly up to the first teardown that the frame is there for. -/
theorem tracked_iff (steps : List FrameStep) (f : FrameId)
    (hf : f.index < (empty.after steps).frames.size) :
    ((empty.after steps).frame f).tracked = true ↔ ¬empty.TornDown steps f := by
  induction steps using List.reverseRecOn with
  | nil => exact absurd hf (Nat.not_lt_zero _)
  | append_singleton steps s ih =>
    rw [tornDown_append_iff]
    rw [after_append] at hf ⊢
    by_cases hold : f.index < (empty.after steps).frames.size
    · rw [tracked_apply hold, ih hold, not_or]
      exact and_congr_right fun _ => by simp only [hold, true_and]
    · have hfresh := tracked_fresh hold hf
      have hnever : ¬empty.TornDown steps f := fun hdown => hold hdown.made
      simp only [hfresh, hnever, hold, false_and, or_self, not_false_eq_true]

lemma blank_clear (f : Frame) : f.clear.Blank := ⟨rfl, rfl⟩

/-- Right after a teardown, a frame of the tree has no bindings and no expression exactly if this
is the first teardown that the frame is there for, or nothing was put into it again after an
earlier one. -/
theorem blank_after_teardown_iff (steps : List FrameStep) (id f : FrameId)
    (made : f.index < (empty.after steps).frames.size)
    (same : ((empty.after steps).frame f).root = ((empty.after steps).frame id).root) :
    ((empty.after (steps ++ [.teardown id])).frame f).Blank ↔
      ¬empty.TornDown steps f ∨ ((empty.after steps).frame f).Blank := by
  have htracked := tracked_iff steps f made
  rw [after_append, FrameStep.apply, frame_teardown made]
  by_cases hdown : empty.TornDown steps f
  · have hlost : ((empty.after steps).frame f).tracked = false := by
      simpa [hdown] using htracked
    simp only [hlost, Bool.false_and, Bool.false_eq_true, if_false, hdown, not_true_eq_false,
      false_or]
  · have hkept := htracked.2 hdown
    simp only [hkept, same, beq_self_eq_true, Bool.and_self, if_true, hdown, not_false_eq_true,
      true_or, iff_true]
    exact blank_clear _

/-- A root that is used again after it was torn down. -/
def rebound : List FrameStep :=
  [.newRoot, .teardown .global, .define .global ⟨"x"⟩ (.int 1)]

theorem blank_after_teardown_rebound :
    FrameId.global.index < (empty.after rebound).frames.size ∧
      (((empty.after (rebound ++ [.teardown .global])).frame .global).Blank ↔
        ¬empty.TornDown rebound .global ∨ ((empty.after rebound).frame .global).Blank) :=
  have made : FrameId.global.index < (empty.after rebound).frames.size := by decide +kernel
  ⟨made, blank_after_teardown_iff rebound .global .global made rfl⟩

/-- The second teardown leaves the binding in place. -/
theorem rebound_outlives_teardown :
    FrameId.global.index < (empty.after rebound).frames.size ∧
      ¬((empty.after (rebound ++ [.teardown .global])).frame .global).Blank := by
  refine ⟨by decide +kernel, fun hblank => ?_⟩
  have hentries := hblank.1
  have hbound : ((empty.after (rebound ++ [.teardown .global])).frame .global).bindings.entries =
      [(⟨"x"⟩, .int 1)] := by decide +kernel
  rw [hbound] at hentries
  cases hentries

end Heap

end HostedLisp
