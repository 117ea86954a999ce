import HostedLisp.Proofs.Heap.Resolution
import HostedLisp.Proofs.Text.ByteOrder

/-!
# The merged view of a chain of frames

All bindings that are seen from a frame are put together from the outermost frame inward, where an
inner binding replaces an outer one; a name is looked up from the frame outward, and the first
binding is the one that counts. Both see the same: `allBindings_iff_lookup`. What is put together is
in the order of the bytes of the names, so it does not show in which order the bindings were made.
-/

namespace HostedLisp

/-! ### Bindings -/

namespace Bindings

lemma valueOf?_eq_none {name : Symbol} {entries : List (Symbol × Value)}
    (h : ∀ e ∈ entries, e.1 ≠ name) : valueOf? name entries = none := by
  induction entries with
  | nil => rfl
  | cons entry rest ih =>
    rw [List.forall_mem_cons] at h
    rw [valueOf?, if_neg h.1, ih h.2]

/-- Where each name has one entry, the order in which the entries are inserted does not matter. -/
lemma find?_foldl_insert {entries : List (Symbol × Value)}
    (hasc : entries.Pairwise fun a b => a.1.name < b.1.name) (b : Bindings) (name : Symbol) :
    (entries.foldl (fun b e => b.insert e.1 e.2) b).find? name =
      (valueOf? name entries).or (b.find? name) := by
  induction entries generalizing b with
  | nil => rfl
  | cons entry rest ih =>
    rw [List.pairwise_cons] at hasc
    rw [List.foldl_cons, ih hasc.2, find?_insert, valueOf?]
    by_cases hname : entry.1 = name
    · have hrest : valueOf? name rest = none := valueOf?_eq_none fun e he heq => by
        have hlt := hasc.1 e he
        rw [hname, heq] at hlt
        exact String.lt_irrefl _ hlt
      rw [if_pos hname, if_pos hname, hrest, Option.none_or, Option.some_or]
    · rw [if_neg hname, if_neg hname]

lemma find?_merge (outer inner : Bindings) (name : Symbol) :
    (outer.merge inner).find? name = (inner.find? name).or (outer.find? name) :=
  find?_foldl_insert inner.ascending outer name

/-- Bindings in which every name has the same value are the same. -/
lemma ext_find? {b c : Bindings} (h : ∀ name, b.find? name = c.find? name) : b = c := by
  have hirrefl : Std.Irrefl fun a b : Symbol × Value => a.1.name < b.1.name :=
    ⟨fun _ => String.lt_irrefl _⟩
  have hantisymm : Std.Antisymm fun a b : Symbol × Value => a.1.name < b.1.name :=
    ⟨fun _ _ hab hba => absurd (String.lt_trans hab hba) (String.lt_irrefl _)⟩
  have hentries : b.entries = c.entries := by
    refine b.ascending.eq_of_mem_iff c.ascending fun e => ?_
    rw [mem_entries_iff, mem_entries_iff, h]
  cases b
  cases c
  cases hentries
  rfl

end Bindings

/-! ### Frames -/

namespace Heap

variable {h h' : Heap} {f g : FrameId} {name : Symbol} {value : Value}

/-- The merged view finds what the walk from the frame outward finds. -/
lemma find?_allBindings (h : Heap) (f : FrameId) (name : Symbol) :
    (h.allBindings f).find? name = h.lookup? f name := by
  rw [allBindings, lookup?]
  induction h.chain f with
  | nil => rfl
  | cons f rest ih =>
    rw [List.foldr_cons, Bindings.find?_merge, ih, List.findSome?_cons]
    cases (h.frame f).bindings.find? name <;> rfl

lemma allBindings_congr (hlookup : ∀ name, h'.lookup? g name = h.lookup? f name) :
    h'.allBindings g = h.allBindings f := by
  apply Bindings.ext_find?
  intro name
  rw [find?_allBindings, find?_allBindings, hlookup]

/-- What is found from a frame depends on its own parent and bindings and on those of the frames
around it, which are older. -/
lemma lookup?_congr (hparent : ∀ g : FrameId, g.index ≤ f.index → h'.parent? g = h.parent? g)
    (hfind : ∀ g : FrameId, g.index ≤ f.index → ∀ name,
      (h'.frame g).bindings.find? name = (h.frame g).bindings.find? name) :
    h'.lookup? f name = h.lookup? f name := by
  induction f using outward_induction (h := h) with
  | root f hroot =>
    have hroot' : h'.parent? f = none := by rw [hparent f le_rfl, hroot]
    rw [lookup?, lookup?, chain_of_root hroot, chain_of_root hroot', List.findSome?_cons,
      List.findSome?_cons, hfind f le_rfl]
    rfl
  | frame f parent hf ih =>
    have hf' : h'.parent? f = some parent := by rw [hparent f le_rfl, hf]
    have hle {g : FrameId} (hg : g.index ≤ parent.index) : g.index ≤ f.index :=
      hg.trans (parent?_lt hf).le
    have hrest := ih (fun g hg => hparent g (hle hg)) (fun g hg => hfind g (hle hg))
    unfold lookup? at hrest ⊢
    rw [chain_of_parent hf, chain_of_parent hf', List.findSome?_cons, List.findSome?_cons,
      hfind f le_rfl, hrest]

end Heap

/-! ### Definitions in any order -/

/-- A binding that is to be made. -/
structure Definition where
  frame : FrameId
  name : Symbol
  value : Value
deriving DecidableEq

/-- The frame and the name of a binding. -/
def Definition.place (d : Definition) : FrameId × Symbol := (d.frame, d.name)

namespace Heap

variable {h : Heap} {ds ds' : List Definition}

/-- Makes bindings one after the other. -/
def defineEach (h : Heap) (ds : List Definition) : Heap :=
  ds.foldl (fun h d => h.define d.frame d.name d.value) h

lemma defineEach_cons (h : Heap) (d : Definition) (ds : List Definition) :
    h.defineEach (d :: ds) = (h.define d.frame d.name d.value).defineEach ds := rfl

lemma parent?_defineEach (h : Heap) (ds : List Definition) (g : FrameId) :
    (h.defineEach ds).parent? g = h.parent? g := by
  induction ds generalizing h with
  | nil => rfl
  | cons d ds ih => rw [defineEach_cons, ih, parent?_define]

/-- Where a name is given no value in a frame, it keeps the one that it has there. -/
lemma find?_defineEach_of_not {g : FrameId} {name : Symbol}
    (hnone : ¬((g, name) ∈ ds.map Definition.place ∧ g.index < h.frames.size)) :
    ((h.defineEach ds).frame g).bindings.find? name = (h.frame g).bindings.find? name := by
  induction ds generalizing h with
  | nil => rfl
  | cons d ds ih =>
    rw [List.map_cons, List.mem_cons] at hnone
    have hsize : (h.define d.frame d.name d.value).frames.size = h.frames.size := Array.size_modify
    rw [defineEach_cons, ih, find?_define, if_neg]
    · rintro ⟨rfl, rfl, hlt⟩
      exact hnone ⟨.inl rfl, hlt⟩
    · rintro ⟨hmem, hlt⟩
      exact hnone ⟨.inr hmem, hsize ▸ hlt⟩

/-- Where no name is given two values in one frame, it has the one that it is given. -/
lemma find?_defineEach_of_mem {d : Definition} (hnodup : (ds.map Definition.place).Nodup)
    (hd : d ∈ ds) (hsize : d.frame.index < h.frames.size) :
    ((h.defineEach ds).frame d.frame).bindings.find? d.name = some d.value := by
  induction ds generalizing h with
  | nil => cases hd
  | cons first ds ih =>
    rw [List.map_cons, List.nodup_cons] at hnodup
    rw [defineEach_cons]
    obtain rfl | hd := List.mem_cons.1 hd
    · rw [find?_defineEach_of_not fun hall => hnodup.1 hall.1, find?_define,
        if_pos ⟨rfl, rfl, hsize⟩]
    · exact ih hnodup.2 hd (by simpa [define, modifyFrame] using hsize)

/-- The merged view does not show in which order bindings were made. -/
lemma allBindings_perm (hperm : ds.Perm ds') (hnodup : (ds.map Definition.place).Nodup)
    (f : FrameId) : (h.defineEach ds).allBindings f = (h.defineEach ds').allBindings f := by
  have hplaces : (ds.map Definition.place).Perm (ds'.map Definition.place) := hperm.map _
  apply allBindings_congr
  intro name
  apply lookup?_congr
  · intro g _
    rw [parent?_defineEach, parent?_defineEach]
  · intro g _ name
    by_cases hgiven : (g, name) ∈ ds.map Definition.place ∧ g.index < h.frames.size
    · obtain ⟨hmem, hsize⟩ := hgiven
      obtain ⟨d, hd, hplace⟩ := List.mem_map.1 hmem
      cases hplace
      have hd' : d ∈ ds' := hperm.mem_iff.1 hd
      rw [find?_defineEach_of_mem hnodup hd hsize,
        find?_defineEach_of_mem (hplaces.nodup_iff.1 hnodup) hd' hsize]
    · rw [find?_defineEach_of_not hgiven,
        find?_defineEach_of_not fun hall => hgiven ⟨hplaces.mem_iff.2 hall.1, hall.2⟩]

/-! ### The merged view -/

/-- The merged view of the frames around a frame is in strictly ascending order of the bytes of the
names, and holds a name with a value exactly if looking the name up from the frame finds the value.
So it depends on what the names are looked up as and on nothing else, and bindings that are made in
another order give the same view. -/
theorem allBindings_iff_lookup (h : Heap) (f : FrameId) :
    (h.allBindings f).entries.Pairwise
      (fun a b => Text.bytes a.1.name < Text.bytes b.1.name) ∧
    (∀ name value, (name, value) ∈ (h.allBindings f).entries ↔
      h.lookup? f name = some value) ∧
    (∀ (h' : Heap) (g : FrameId), (∀ name, h'.lookup? g name = h.lookup? f name) →
      h'.allBindings g = h.allBindings f) ∧
    ∀ ds ds' : List Definition, ds.Perm ds' → (ds.map Definition.place).Nodup →
      (h.defineEach ds).allBindings f = (h.defineEach ds').allBindings f := by
  refine ⟨?_, fun name value => ?_, fun h' g hlookup => ?_, fun ds ds' hperm hnodup => ?_⟩
  · apply (h.allBindings f).ascending.imp
    intro a b hlt
    exact Text.bytes_lt hlt
  · rw [Bindings.mem_entries_iff, find?_allBindings]
  · exact allBindings_congr hlookup
  · exact allBindings_perm hperm hnodup f

/-- From the inner one of two frames, both binding `x`, the inner value of `x` is seen and the outer
one of `é`, which comes last; the order in which the two frames are given them does not matter. -/
theorem allBindings_iff_lookup_shadowed :
    let ds : List Definition := [⟨.global, ⟨"é"⟩, .int 3⟩, ⟨⟨1⟩, ⟨"y"⟩, .int 4⟩]
    (((shadowed ⟨"x"⟩).defineEach ds).allBindings ⟨2⟩).entries =
        [(⟨"x"⟩, .int 2), (⟨"é"⟩, .int 3)] ∧
      ((shadowed ⟨"x"⟩).defineEach ds).lookup? ⟨2⟩ ⟨"x"⟩ = some (.int 2) ∧
      ((shadowed ⟨"x"⟩).defineEach ds.reverse).allBindings ⟨2⟩ =
        ((shadowed ⟨"x"⟩).defineEach ds).allBindings ⟨2⟩ := by
  intro ds
  have hentries : (((shadowed ⟨"x"⟩).defineEach ds).allBindings ⟨2⟩).entries =
      [(⟨"x"⟩, .int 2), (⟨"é"⟩, .int 3)] := by decide +kernel
  obtain ⟨-, hmem, -⟩ := allBindings_iff_lookup ((shadowed ⟨"x"⟩).defineEach ds) ⟨2⟩
  obtain ⟨-, -, -, hperm⟩ := allBindings_iff_lookup (shadowed ⟨"x"⟩) ⟨2⟩
  refine ⟨hentries, (hmem _ _).1 ?_, hperm _ _ ds.reverse_perm (by decide)⟩
  rw [hentries]
  exact List.mem_cons_self

end Heap

end HostedLisp
