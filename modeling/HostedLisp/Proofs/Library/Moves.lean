import HostedLisp.Proofs.Heap.Tables
import HostedLisp.Proofs.Library.Answers
import Mathlib.Data.List.Induction

/-!
# Moves between vectors

Two primitives copy a range of slots to a range of the same length, slot by slot. Where the ranges
overlap, a slot that was written may be read again, unless the copy runs in the direction that reads
every slot before it is written. Main definitions: `Move`, `Move.Moved`. Main statement:
`Machine.move_copies`.
-/

namespace HostedLisp

/-- A copy of a range of slots to a range of the same or another vector. -/
structure Move where
  source : VectorId
  start : Nat
  count : Nat
  target : VectorId
  position : Nat
  descending : Bool

namespace Move

variable {mv : Move} {h h' : Heap}

/-- There are as many slots in both vectors. -/
def Fits (mv : Move) (h : Heap) : Prop :=
  mv.start + mv.count ≤ (h.vector mv.source).size ∧
    mv.position + mv.count ≤ (h.vector mv.target).size

/-- The vectors are different, the ranges have no slot in common, or the copy begins at the end
toward which the slots are shifted. -/
def Safe (mv : Move) : Prop :=
  mv.source ≠ mv.target ∨
    (∀ j < mv.count, ∀ k < mv.count, mv.start + j ≠ mv.position + k) ∨
    if mv.descending then mv.start ≤ mv.position else mv.position ≤ mv.start

/-- The offsets of the slots in the order in which they are copied. -/
def order (mv : Move) : List Nat :=
  if mv.descending then (List.range mv.count).reverse else List.range mv.count

/-- The heap after the slots at some offsets are copied one after the other. -/
def copy (mv : Move) (h : Heap) (offsets : List Nat) : Heap :=
  offsets.foldl (fun h k => h.copySlot mv.source mv.start mv.target mv.position k) h

/-- What a move leaves: only slots in the range at the target may differ, and if the move is safe,
they hold what the slots of the source held at first. -/
structure Moved (mv : Move) (h h' : Heap) : Prop where
  rest : { h' with vectors := h.vectors } = h
  size : ∀ id, (h'.vector id).size = (h.vector id).size
  outside : ∀ id i, (id = mv.target → i < mv.position ∨ mv.position + mv.count ≤ i) →
    (h'.vector id)[i]? = (h.vector id)[i]?
  copied : mv.Safe → ∀ k < mv.count,
    (h'.vector mv.target)[mv.position + k]? = (h.vector mv.source)[mv.start + k]?

/-! ### One slot after the other -/

lemma copy_append (offsets : List Nat) (k : Nat) : mv.copy h (offsets ++ [k]) =
    (mv.copy h offsets).copySlot mv.source mv.start mv.target mv.position k := by
  rw [copy, List.foldl_append]
  rfl

lemma rest_copy (offsets : List Nat) : { mv.copy h offsets with vectors := h.vectors } = h := by
  induction offsets using List.reverseRecOn with
  | nil => rfl
  | append_singleton offsets k ih => rwa [copy_append]

lemma size_copy (offsets : List Nat) (id : VectorId) :
    ((mv.copy h offsets).vector id).size = (h.vector id).size := by
  induction offsets using List.reverseRecOn with
  | nil => rfl
  | append_singleton offsets k ih =>
    rw [copy_append, Heap.copySlot, Heap.size_vector_setSlot, ih]

/-- A slot to which nothing is copied keeps what it holds. -/
lemma getElem?_copy_of_ne {offsets : List Nat} {id : VectorId} {i : Nat}
    (hi : ∀ k ∈ offsets, ¬(id = mv.target ∧ i = mv.position + k)) :
    ((mv.copy h offsets).vector id)[i]? = (h.vector id)[i]? := by
  induction offsets using List.reverseRecOn with
  | nil => rfl
  | append_singleton offsets k ih =>
    rw [List.forall_mem_append, List.forall_mem_singleton] at hi
    have hne : ¬(id = mv.target ∧ i = mv.position + k ∧
        i < ((mv.copy h offsets).vector mv.target).size) := fun hs => hi.2 ⟨hs.1, hs.2.1⟩
    rw [copy_append, Heap.copySlot, Heap.getElem?_setSlot, if_neg hne, ih hi.1]

/-- If no slot is written before it is read, the slots receive what was there at first. -/
lemma getElem?_copy {offsets : List Nat} (hfits : mv.Fits h) (hnodup : offsets.Nodup)
    (hlt : ∀ k ∈ offsets, k < mv.count)
    (horder : offsets.Pairwise fun j k =>
      ¬(mv.source = mv.target ∧ mv.start + k = mv.position + j)) :
    ∀ k ∈ offsets, ((mv.copy h offsets).vector mv.target)[mv.position + k]? =
      (h.vector mv.source)[mv.start + k]? := by
  induction offsets using List.reverseRecOn with
  | nil => nofun
  | append_singleton offsets k ih =>
    rw [List.forall_mem_append, List.forall_mem_singleton] at hlt ⊢
    obtain ⟨hnodup, -, hfresh⟩ := List.nodup_append.1 hnodup
    obtain ⟨horder, -, hread⟩ := List.pairwise_append.1 horder
    have hk : k < mv.count := hlt.2
    constructor
    · intro j hj
      have hne : j ≠ k := hfresh j hj k (List.mem_singleton_self k)
      rw [copy_append, Heap.copySlot, Heap.getElem?_setSlot, if_neg fun hs => by omega,
        ih hnodup hlt.1 horder j hj]
    · have hsource : ((mv.copy h offsets).vector mv.source)[mv.start + k]? =
          (h.vector mv.source)[mv.start + k]? :=
        getElem?_copy_of_ne fun j hj => hread j hj k (List.mem_singleton_self k)
      have hsome : mv.start + k < (h.vector mv.source).size := by
        have := hfits.1
        omega
      have htarget : mv.position + k < ((mv.copy h offsets).vector mv.target).size := by
        have := hfits.2
        rw [size_copy]
        omega
      rw [copy_append, Heap.copySlot, Heap.getElem?_setSlot, if_pos ⟨rfl, rfl, htarget⟩,
        Array.getD_eq_getD_getElem?, hsource, Array.getElem?_eq_getElem hsome, Option.getD_some]

/-! ### All slots -/

lemma mem_order {k : Nat} : k ∈ mv.order ↔ k < mv.count := by
  rw [order]
  split
  · rw [List.mem_reverse, List.mem_range]
  · exact List.mem_range

lemma nodup_order : mv.order.Nodup := by
  rw [order]
  split
  · exact (List.reverse_perm _).nodup_iff.2 List.nodup_range
  · exact List.nodup_range

/-- Of two offsets the first one is copied before the second one is read. -/
lemma pairwise_order : mv.order.Pairwise fun j k => if mv.descending then k < j else j < k := by
  rw [order]
  split
  · exact List.pairwise_reverse.2 List.pairwise_lt_range
  · exact List.pairwise_lt_range

/-- A safe move writes no slot before it is read. -/
lemma Safe.pairwise (hsafe : mv.Safe) : mv.order.Pairwise fun j k =>
    ¬(mv.source = mv.target ∧ mv.start + k = mv.position + j) := by
  refine pairwise_order.imp_of_mem fun {j k} hj hk hjk => ?_
  rw [mem_order] at hj hk
  rintro ⟨hsame, hread⟩
  obtain hne | hdisjoint | hdirection := hsafe
  · exact hne hsame
  · exact hdisjoint k hk j hj hread
  · split at hdirection
    · rw [if_pos ‹_›] at hjk
      omega
    · rw [if_neg ‹_›] at hjk
      omega

theorem moved_copy (hfits : mv.Fits h) : mv.Moved h (mv.copy h mv.order) where
  rest := rest_copy mv.order
  size := size_copy mv.order
  outside id i hi := getElem?_copy_of_ne fun k hk hs => by
    have := mem_order.1 hk
    have := hi hs.1
    omega
  copied hsafe k hk :=
    getElem?_copy hfits nodup_order (fun _ => mem_order.1) hsafe.pairwise k (mem_order.2 hk)

end Move

namespace Vectors

open Program

variable {source target : VectorId} {start finish position : Int64} {s : State}

/-- The name of the primitive that moves slots in a direction. -/
def moverName (descending : Bool) : String :=
  if descending then "subvector-move-right!" else "subvector-move-left!"

/-- Boundaries that a move takes. -/
def Movable (h : Heap) (source : VectorId) (start finish : Int64) (target : VectorId)
    (position : Int64) : Prop :=
  0 ≤ start.toInt ∧ start.toInt ≤ finish.toInt ∧ finish.toInt ≤ (h.vector source).size ∧
    0 ≤ position.toInt ∧
    position.toInt + (finish.toInt - start.toInt) ≤ (h.vector target).size

instance (h : Heap) : Decidable (Movable h source start finish target position) :=
  inferInstanceAs (Decidable (_ ∧ _ ∧ _ ∧ _ ∧ _))

/-- The move between boundaries. -/
def moveOf (source : VectorId) (start finish : Int64) (target : VectorId) (position : Int64)
    (descending : Bool) : Move :=
  ⟨source, start.toInt.toNat, finish.toInt.toNat - start.toInt.toNat, target,
    position.toInt.toNat, descending⟩

lemma Movable.fits {h : Heap} (hm : Movable h source start finish target position)
    (descending : Bool) : (moveOf source start finish target position descending).Fits h := by
  obtain ⟨h₁, h₂, h₃, h₄, h₅⟩ := hm
  constructor
  · dsimp only [moveOf]
    omega
  · dsimp only [moveOf]
    omega

lemma boundary_of_le {name : String} {index : Int64} {low high : Nat} (hlow : low ≤ index.toInt)
    (hhigh : index.toInt ≤ high) : boundary name index low high = done index.toInt.toNat :=
  if_pos ⟨hlow, hhigh⟩

lemma boundary_of_not {name : String} {index : Int64} {low high : Nat}
    (h : ¬(low ≤ index.toInt ∧ index.toInt ≤ high)) :
    ∃ text, boundary name index low high = fail (.index text) :=
  ⟨_, if_neg h⟩

/-- A move checks its boundaries one after the other, and copies only after that. -/
lemma move_body_run (name : String) (descending : Bool) (frame : FrameId) :
    ((move name descending).body [.vector source, .int start, .int finish, .vector target,
      .int position] frame).run s =
    ((boundary name start 0 (s.heap.vector source).size).bind fun i =>
      (boundary name finish i (s.heap.vector source).size).bind fun j =>
      (boundary name position 0 (s.heap.vector target).size).bind fun k =>
      if j - i > (s.heap.vector target).size - k then
        fail (.index (s!"{name}: {j - i} elements do not fit at index {k} " ++
          s!"of a vector of length {(s.heap.vector target).size}"))
      else (perform (.copySlots source i (j - i) target k descending)).bind fun _ =>
        done (.vector target)).run s := rfl

lemma move_run (hm : Movable s.heap source start finish target position) (name : String)
    (descending : Bool) (frame : FrameId) :
    ((move name descending).body [.vector source, .int start, .int finish, .vector target,
      .int position] frame).run s = .stop (.ok (.vector target)) { s with
        heap := (moveOf source start finish target position descending).copy s.heap
          (moveOf source start finish target position descending).order } := by
  obtain ⟨h₁, h₂, h₃, h₄, h₅⟩ := hm
  have hroom : ¬(finish.toInt.toNat - start.toInt.toNat >
      (s.heap.vector target).size - position.toInt.toNat) := by omega
  rw [move_body_run, boundary_of_le (by omega) (by omega), done_bind,
    boundary_of_le (by omega) (by omega), done_bind, boundary_of_le (by omega) (by omega),
    done_bind, if_neg hroom]
  rfl

lemma move_run_of_not (hm : ¬Movable s.heap source start finish target position) (name : String)
    (descending : Bool) (frame : FrameId) :
    ∃ text, ((move name descending).body [.vector source, .int start, .int finish, .vector target,
      .int position] frame).run s = .stop (.error (.error (.index text))) s := by
  rw [move_body_run]
  by_cases hstart : ((0 : Nat) : Int) ≤ start.toInt ∧ start.toInt ≤ (s.heap.vector source).size
  · rw [boundary_of_le hstart.1 hstart.2, done_bind]
    by_cases hfinish : (start.toInt.toNat : Int) ≤ finish.toInt ∧
        finish.toInt ≤ (s.heap.vector source).size
    · rw [boundary_of_le hfinish.1 hfinish.2, done_bind]
      by_cases hposition : ((0 : Nat) : Int) ≤ position.toInt ∧
          position.toInt ≤ (s.heap.vector target).size
      · have hroom : finish.toInt.toNat - start.toInt.toNat >
            (s.heap.vector target).size - position.toInt.toNat := by
          rw [Movable] at hm
          omega
        rw [boundary_of_le hposition.1 hposition.2, done_bind, if_pos hroom]
        exact ⟨_, rfl⟩
      · obtain ⟨text, htext⟩ := boundary_of_not hposition
        rw [htext]
        exact ⟨text, rfl⟩
    · obtain ⟨text, htext⟩ := boundary_of_not hfinish
      rw [htext]
      exact ⟨text, rfl⟩
  · obtain ⟨text, htext⟩ := boundary_of_not hstart
    rw [htext]
    exact ⟨text, rfl⟩

end Vectors

namespace Machine

open Vectors

variable {m : Machine} {p : Primitive} {r : Request} {frame : FrameId} {s t : State} {fuel : Nat}

/-- A primitive that moves slots answers with the target exactly if the boundaries are in order and
the slots fit, however it came to be called. Then no other slot changes, and the range at the target
holds what the range at the source held before the call, unless the move is within one vector and
runs into slots that it has written. Otherwise it is an error that changes nothing. -/
theorem move_copies {descending : Bool} (hp : m.IsStandard p (moverName descending))
    (hr : r.IsCall p frame) {source target : VectorId} {start finish position : Int64}
    (henters : r.Enters (m.perform fuel) s
      [.vector source, .int start, .int finish, .vector target, .int position] t) :
    (Movable t.heap source start finish target position → ∃ h',
      (moveOf source start finish target position descending).Moved t.heap h' ∧
      m.perform (fuel + 1) r s = .answered (.ok (.vector target)) { t with heap := h' }) ∧
    (¬Movable t.heap source start finish target position → ∃ text,
      m.perform (fuel + 1) r s = .answered (.error (.index text)) t) := by
  have hcarries : m.Carries p (move (moverName descending) descending) := by
    cases descending with
    | true => exact hp.carries rfl
    | false => exact hp.carries rfl
  have hperform : m.perform (fuel + 1) r s =
      (((move (moverName descending) descending).body [.vector source, .int start, .int finish,
        .vector target, .int position] frame).run t).execute (m.perform fuel) := by
    rw [perform_succ, serve_call hcarries hr, execute_of_enters rfl hr rfl henters]
  rw [hperform]
  constructor
  · intro hm
    refine ⟨_, Move.moved_copy (hm.fits descending), ?_⟩
    rw [move_run hm]
    rfl
  · intro hm
    obtain ⟨text, htext⟩ := move_run_of_not hm (moverName descending) descending frame
    rw [htext]
    exact ⟨text, rfl⟩

end Machine

namespace Interpreter

/-- The primitive that moves slots from the last to the first. -/
def moveRightPrimitive : Primitive := ⟨95, "subvector-move-right!", .exactly 5, .function⟩

lemma isStandard_moveRight :
    (full .standard).machine.IsStandard moveRightPrimitive (Vectors.moverName true) :=
  ⟨_, List.mem_of_getElem? (i := 95) rfl, rfl, rfl, rfl⟩

/-- A state with a vector of three slots. -/
def vectorState : State :=
  ((bare .standard).changeHeap fun h => (h.newVector [.int 1, .int 2, .int 3]).2).state

/-- A move of slots from the first one on within the vector, by one slot. -/
def moveByOne (finish : Int64) : Request :=
  .apply (.primitive moveRightPrimitive)
    [.vector ⟨0⟩, .int 0, .int finish, .vector ⟨0⟩, .int 1] .global

/-- The first two slots of a vector of `1`, `2` and `3` move up by one, though the ranges overlap.
The first three do not fit. -/
theorem move_copies_overlapping :
    (∃ h', (full .standard).machine.perform 1 (moveByOne 2) vectorState =
        .answered (.ok (.vector ⟨0⟩)) { vectorState with heap := h' } ∧
      (h'.vector ⟨0⟩)[0]? = some (.int 1) ∧ (h'.vector ⟨0⟩)[1]? = some (.int 1) ∧
      (h'.vector ⟨0⟩)[2]? = some (.int 2)) ∧
    ∃ text, (full .standard).machine.perform 1 (moveByOne 3) vectorState =
      .answered (.error (.index text)) vectorState := by
  have henters (finish : Int64) : (moveByOne finish).Enters ((full .standard).machine.perform 0)
      vectorState [.vector ⟨0⟩, .int 0, .int finish, .vector ⟨0⟩, .int 1] vectorState :=
    ⟨rfl, rfl⟩
  have hmove (finish : Int64) :=
    Machine.move_copies isStandard_moveRight (.apply _) (henters finish)
  constructor
  · obtain ⟨h', hmoved, hperform⟩ := (hmove 2).1 (by decide)
    have hcopied := hmoved.copied (.inr (.inr (by decide)))
    refine ⟨h', hperform, ?_, hcopied 0 (by decide), hcopied 1 (by decide)⟩
    exact hmoved.outside ⟨0⟩ 0 fun _ => .inl (by decide)
  · exact (hmove 3).2 (by decide)

end Interpreter

end HostedLisp
