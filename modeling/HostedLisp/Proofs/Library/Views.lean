import HostedLisp.Proofs.Heap.Elements
import HostedLisp.Proofs.Library.Sequences
import HostedLisp.Proofs.Program.Direct

/-!
# What is seen of sequences

A primitive sees a list or a vector as its elements and its kind, and what it makes of elements and
a kind is seen as these again. Main definition: `Heap.sequence?`. Main statements:
`Sequence.ofAny_of_sequence?`, `Sequence.build_run`.
-/

namespace HostedLisp

namespace Heap

/-- The elements of a list or a vector in a heap. -/
def sequence? (h : Heap) (value : Value) : Option Sequence :=
  match value with
  | .vector id => some ⟨.vector, (h.vector id).toList⟩
  | _ => (h.listItems? value).map fun items => ⟨.list, items⟩

lemma sequence?_of_elements? {h : Heap} {w : Value} {kind : Sequence.Kind} {items : List Value}
    (hitems : h.elements? w = some items) (hkind : (∃ id, w = .vector id) ↔ kind = .vector) :
    h.sequence? w = some ⟨kind, items⟩ := by
  unfold sequence?
  split
  · cases hitems
    rw [hkind.1 ⟨_, rfl⟩]
  · next hvector =>
    rw [elements?] at hitems
    · cases kind with
      | list => rw [hitems]; rfl
      | vector =>
        obtain ⟨id, hid⟩ := hkind.2 rfl
        exact absurd hid (hvector id)
    · exact hvector

end Heap

namespace Sequence

open Program

variable {name : String} {view : View} {value : Value} {values items : List Value} {s : State}

lemma ofAny_of_sequence? {seq : Sequence} (h : s.heap.sequence? value = some seq) :
    (ofAny name value).run s = .stop (.ok seq) s := by
  unfold ofAny
  split
  · cases h
    rfl
  · next hvector =>
    rw [Heap.sequence?] at h
    · obtain ⟨items, hitems, rfl⟩ := Option.map_eq_some_iff.1 h
      rw [run_look, hitems]
      rfl
    · exact hvector

/-- Elements are seen as they are, with the kind of the sequence that they are in. -/
lemma ofAny_run (name : String) (hvalue : s.heap.elements? value = some items) :
    ∃ kind, (ofAny name value).run s = .stop (.ok ⟨kind, items⟩) s ∧
      (kind = .vector ↔ ∃ id, value = .vector id) := by
  obtain ⟨kind, hkind⟩ : ∃ kind : Kind, (∃ id, value = .vector id) ↔ kind = .vector := by
    by_cases hvector : ∃ id, value = .vector id
    · exact ⟨.vector, iff_of_true hvector rfl⟩
    · exact ⟨.list, iff_of_false hvector nofun⟩
  exact ⟨kind, ofAny_of_sequence? (Heap.sequence?_of_elements? hvalue hkind), hkind.symm⟩

lemma ofVector_run (id : VectorId) : (ofVector name (.vector id)).run s =
    .stop (.ok ⟨.vector, (s.heap.vector id).toList⟩) s := rfl

/-- Values that are sequences are all seen at once. -/
lemma viewAll_of_sequences {seqs : List Sequence}
    (h : values.mapM s.heap.sequence? = some seqs) :
    (viewAll ofAny name values).run s = .stop (.ok seqs) s := by
  induction values generalizing seqs with
  | nil =>
    cases h
    rfl
  | cons value values ih =>
    rw [List.mapM_cons] at h
    obtain ⟨seq, hseq, h⟩ := Option.bind_eq_some_iff.1 h
    obtain ⟨rest, hrest, h⟩ := Option.bind_eq_some_iff.1 h
    cases h
    rw [viewAll, run_bind, Run.bind_apply, ofAny_of_sequence? hseq, Plan.bind_stop_ok, run_bind,
      Run.bind_apply, ih hrest]
    rfl

/-- Of vectors both views are the same, whoever looks at them. -/
lemma viewAll_vectors (h : ∀ v ∈ values, ∃ id, v = .vector id) (name name' : String) :
    viewAll ofAny name values = viewAll ofVector name' values := by
  induction values with
  | nil => rfl
  | cons value values ih =>
    obtain ⟨⟨id, rfl⟩, hvalues⟩ := List.forall_mem_cons.1 h
    rw [viewAll, viewAll, ih hvalues]
    rfl

lemma viewAll_cons_bind {α : Type} (value : Value) (f : List Sequence → Program α) :
    (viewAll view name (value :: values)).bind f =
      (view name value).bind fun s => (viewAll view name values).bind fun ss => f (s :: ss) := by
  simp only [viewAll, bind_assoc, done_bind]

/-- What is made of elements is a sequence of its kind with these elements. -/
lemma build_run (kind : Kind) (items : List Value) (s : State) :
    ∃ w u, (build kind items).run s = .stop (.ok w) u ∧ u.heap.elements? w = some items ∧
      ((∃ id, w = .vector id) ↔ kind = .vector) := by
  cases kind with
  | list =>
    have hnew := (s.heap.newChain_lists items).1.ne_vector
    refine ⟨(s.heap.newChain items .nil).1, _, rfl, s.heap.elements?_newChain items, ?_⟩
    simpa using hnew
  | vector =>
    refine ⟨.vector ⟨s.heap.vectors.size⟩, _, rfl, ?_, by simp⟩
    exact congrArg some (Heap.vector_of_newVector s.heap items)

end Sequence

end HostedLisp
