import HostedLisp.Form
import HostedLisp.Machine.Run
import HostedLisp.Proofs.Heap.Teardown

/-!
# Where a name is found

Looking a name up and assigning to it are two walks from a frame outward, and both end at the first
frame that binds the name. So an assignment is seen from exactly the frames whose walks end where
its own did, and a definition from those that come to its frame before another one that binds the
name. Main definitions: `Reaches`, `Resolves`. Main statement: `assign_iff_lookup`.
-/

namespace HostedLisp.Heap

variable {h : Heap} {f g parent target : FrameId} {name other : Symbol} {value : Value}

/-! ### Definitions -/

/-- The walk for a name from a frame outward comes to a frame: none that it passes on its way binds
the name. -/
inductive Reaches (h : Heap) (name : Symbol) : FrameId → FrameId → Prop
  | here (f : FrameId) : Reaches h name f f
  | outer {f parent target : FrameId} (hf : h.binds f name = false)
      (hparent : h.parent? f = some parent) (houter : Reaches h name parent target) :
      Reaches h name f target

/-- The walk for a name from a frame ends at the frame that binds it. -/
def Resolves (h : Heap) (name : Symbol) (f target : FrameId) : Prop :=
  h.Reaches name f target ∧ h.binds target name = true

/-! ### Chains -/

/-- More steps than frames change nothing. -/
lemma chainFrom_congr {m n : Nat} (hm : f.index ≤ m) (hn : f.index ≤ n) :
    h.chainFrom m f = h.chainFrom n f := by
  induction m generalizing f n with
  | zero =>
    cases n with
    | zero => rfl
    | succ n =>
      rw [chainFrom, chainFrom]
      cases hparent : h.parent? f with
      | none => rfl
      | some parent =>
        have := parent?_lt hparent
        omega
  | succ m ih =>
    cases hparent : h.parent? f with
    | none => cases n <;> simp only [chainFrom, hparent]
    | some parent =>
      have hlt := parent?_lt hparent
      cases n with
      | zero => omega
      | succ n =>
        simp only [chainFrom, hparent]
        rw [ih (n := n) (by omega) (by omega)]

lemma chain_of_root (hparent : h.parent? f = none) : h.chain f = [f] := by
  rw [chain]
  cases f.index <;> simp only [chainFrom, hparent]

lemma chain_of_parent (hparent : h.parent? f = some parent) :
    h.chain f = f :: h.chain parent := by
  have hlt := parent?_lt hparent
  obtain ⟨k, hk⟩ : ∃ k, f.index = k + 1 := ⟨f.index - 1, by omega⟩
  rw [chain, hk, chainFrom, hparent]
  exact congrArg (f :: ·) (chainFrom_congr (by omega) le_rfl)

/-- What holds of roots, and of a frame if it holds of its parent, holds of every frame. -/
@[elab_as_elim]
theorem outward_induction (h : Heap) {motive : FrameId → Prop}
    (root : ∀ f, h.parent? f = none → motive f)
    (frame : ∀ f parent, h.parent? f = some parent → motive parent → motive f) (f : FrameId) :
    motive f :=
  match hparent : h.parent? f with
  | none => root f hparent
  | some parent => frame f parent hparent (outward_induction h root frame parent)
termination_by f.index
decreasing_by exact parent?_lt hparent

/-! ### Walks -/

lemma lookup?_of_bound (hf : (h.frame f).bindings.find? name = some value) :
    h.lookup? f name = some value := by
  cases hparent : h.parent? f with
  | none => rw [lookup?, chain_of_root hparent, List.findSome?_cons, hf]
  | some parent => rw [lookup?, chain_of_parent hparent, List.findSome?_cons, hf]

lemma binds_eq_false_iff :
    h.binds f name = false ↔ (h.frame f).bindings.find? name = none := by
  simp [binds, Bindings.contains]

lemma lookup?_of_root (hf : (h.frame f).bindings.find? name = none)
    (hparent : h.parent? f = none) : h.lookup? f name = none := by
  rw [lookup?, chain_of_root hparent, List.findSome?_cons, hf]
  rfl

lemma lookup?_of_parent (hf : (h.frame f).bindings.find? name = none)
    (hparent : h.parent? f = some parent) : h.lookup? f name = h.lookup? parent name := by
  rw [lookup?, chain_of_parent hparent, List.findSome?_cons, hf]
  rfl

lemma resolve?_eq_some_iff : h.resolve? f name = some target ↔ h.Resolves name f target := by
  induction f using outward_induction (h := h) with
  | root f hparent =>
    rw [resolve?, chain_of_root hparent, List.find?_singleton, Option.ite_none_right_eq_some]
    constructor
    · rintro ⟨hbinds, heq⟩
      cases heq
      exact ⟨.here _, hbinds⟩
    · rintro ⟨hreaches, hbinds⟩
      cases hreaches with
      | here => exact ⟨hbinds, rfl⟩
      | outer _ hparent' _ => rw [hparent] at hparent'; cases hparent'
  | frame f parent hparent ih =>
    rw [resolve?, chain_of_parent hparent, List.find?_cons]
    cases hbinds : h.binds f name with
    | true =>
      constructor
      · intro heq
        cases heq
        exact ⟨.here _, hbinds⟩
      · rintro ⟨hreaches, -⟩
        cases hreaches with
        | here => rfl
        | outer hf _ _ => rw [hbinds] at hf; cases hf
    | false =>
      refine ih.trans ⟨fun hp => ⟨.outer hbinds hparent hp.1, hp.2⟩, ?_⟩
      rintro ⟨hreaches, htarget⟩
      cases hreaches with
      | here => rw [hbinds] at htarget; cases htarget
      | outer _ hparent' houter =>
        rw [hparent] at hparent'
        cases hparent'
        exact ⟨houter, htarget⟩

/-- The value of a name is what the frame that it resolves to binds it to. -/
lemma lookup?_eq_bind (h : Heap) (f : FrameId) (name : Symbol) : h.lookup? f name =
    (h.resolve? f name).bind fun target => (h.frame target).bindings.find? name := by
  rw [lookup?, resolve?]
  induction h.chain f with
  | nil => rfl
  | cons f rest ih =>
    rw [List.findSome?_cons, List.find?_cons, binds, Bindings.contains, ih]
    cases hvalue : (h.frame f).bindings.find? name with
    | none => rfl
    | some value => exact hvalue.symm

lemma isSome_lookup? (h : Heap) (f : FrameId) (name : Symbol) :
    (h.lookup? f name).isSome = (h.resolve? f name).isSome := by
  rw [lookup?_eq_bind]
  cases hresolve : h.resolve? f name with
  | none => rfl
  | some target => exact (resolve?_eq_some_iff.1 hresolve).2

/-! ### Definitions and assignments -/

lemma frame_define (f g : FrameId) (name : Symbol) (value : Value) :
    (h.define f name value).frame g = if f.index = g.index ∧ g.index < h.frames.size
      then { h.frame g with bindings := (h.frame g).bindings.insert name value } else h.frame g :=
  frame_modifyFrame ..

lemma parent?_define (f g : FrameId) (name : Symbol) (value : Value) :
    (h.define f name value).parent? g = h.parent? g := by
  rw [parent?, parent?, frame_define]
  split <;> rfl

/-- A definition gives a name a value in its own frame and does nothing else. -/
lemma find?_define (f g : FrameId) (name other : Symbol) (value : Value) :
    ((h.define f name value).frame g).bindings.find? other =
      if other = name ∧ g = f ∧ f.index < h.frames.size then some value
      else (h.frame g).bindings.find? other := by
  obtain ⟨f⟩ := f
  obtain ⟨g⟩ := g
  rw [frame_define]
  by_cases hframe : f = g ∧ g < h.frames.size
  · obtain ⟨rfl, hsize⟩ := hframe
    rw [if_pos ⟨rfl, hsize⟩, Bindings.find?_insert]
    simp [hsize, eq_comm]
  · rw [if_neg hframe, if_neg fun hall => hframe ?_]
    obtain ⟨-, heq, hsize⟩ := hall
    cases heq
    exact ⟨rfl, hsize⟩

lemma index_lt_of_binds (hf : h.binds f name = true) : f.index < h.frames.size := by
  by_contra hsize
  have hframe : h.frame f = default := by
    rw [frame, Array.getD_eq_getD_getElem?, Array.getElem?_eq_none (Nat.le_of_not_lt hsize)]
    rfl
  rw [binds, hframe] at hf
  cases hf

/-- From the frames whose walks come to the frame of a definition, the new value is seen. -/
lemma lookup?_define_of_reaches (hf : f.index < h.frames.size) (hg : h.Reaches name g f) :
    (h.define f name value).lookup? g name = some value := by
  induction hg with
  | here f => exact lookup?_of_bound (by rw [find?_define, if_pos ⟨rfl, rfl, hf⟩])
  | @outer g parent f hbinds hparent _ ih =>
    by_cases hgf : g = f
    · exact lookup?_of_bound (by rw [find?_define, if_pos ⟨rfl, hgf, hf⟩])
    · have hvalue : ((h.define f name value).frame g).bindings.find? name = none := by
        rw [find?_define, if_neg (by simp [hgf]), ← binds_eq_false_iff, hbinds]
      rw [lookup?_of_parent hvalue (by rwa [parent?_define]), ih hf]

/-- From all other frames, and for all other names, what is seen stays the same. -/
lemma lookup?_define_of_not
    (hg : ¬(other = name ∧ f.index < h.frames.size ∧ h.Reaches name g f)) :
    (h.define f name value).lookup? g other = h.lookup? g other := by
  have hfind {g : FrameId}
      (hg : ¬(other = name ∧ f.index < h.frames.size ∧ h.Reaches name g f)) :
      ((h.define f name value).frame g).bindings.find? other =
        (h.frame g).bindings.find? other := by
    rw [find?_define, if_neg]
    rintro ⟨rfl, rfl, hsize⟩
    exact hg ⟨rfl, hsize, .here g⟩
  induction g using outward_induction (h := h) with
  | root g hparent =>
    cases hvalue : (h.frame g).bindings.find? other with
    | some old => rw [lookup?_of_bound ((hfind hg).trans hvalue), lookup?_of_bound hvalue]
    | none =>
      have hparent' : (h.define f name value).parent? g = none := by rwa [parent?_define]
      rw [lookup?_of_root ((hfind hg).trans hvalue) hparent', lookup?_of_root hvalue hparent]
  | frame g parent hparent ih =>
    cases hvalue : (h.frame g).bindings.find? other with
    | some old => rw [lookup?_of_bound ((hfind hg).trans hvalue), lookup?_of_bound hvalue]
    | none =>
      have hparent' : (h.define f name value).parent? g = some parent := by rwa [parent?_define]
      rw [lookup?_of_parent ((hfind hg).trans hvalue) hparent', lookup?_of_parent hvalue hparent]
      refine ih fun hall => ?_
      obtain ⟨rfl, hsize, hreaches⟩ := hall
      exact hg ⟨rfl, hsize, .outer (binds_eq_false_iff.2 hvalue) hparent hreaches⟩

/-- A definition of a name in a frame that binds it already adds no name. -/
lemma binds_define (hf : h.binds f name = true) (g : FrameId) (other : Symbol) :
    (h.define f name value).binds g other = h.binds g other := by
  rw [binds, Bindings.contains, find?_define]
  split
  · next hall =>
    obtain ⟨rfl, rfl, -⟩ := hall
    exact hf.symm
  · rfl

lemma assign?_eq_some_iff {h' : Heap} : h.assign? f name value = some h' ↔
    ∃ target, h.Resolves name f target ∧ h.define target name value = h' := by
  simp only [assign?, Option.map_eq_some_iff, resolve?_eq_some_iff]

/-- A program assigns as a host does, and fails with the name if it is not bound. -/
lemma assign_run (s : State) (f : FrameId) (name : Symbol) (value : Value) :
    (Form.assign f name value).run s =
      match s.heap.assign? f name value with
      | some heap => .stop (.ok ()) { s with heap := heap }
      | none => .stop (.error (.error (.unbound name.name))) s := by
  have hlook (next : Heap → Program Unit) : (Program.look next).run s = (next s.heap).run s := rfl
  rw [assign?, Form.assign, hlook]
  cases s.heap.resolve? f name <;> rfl

/-- A name can be assigned to where it can be looked up. An assignment is seen from the frames from
which the name resolves to the same frame, and for no other name; it makes no name bound, and where
it fails nothing is changed. A definition is seen from the frames from which a walk for the name
comes to its frame. -/
theorem assign_iff_lookup (h : Heap) (f : FrameId) (name : Symbol) (value : Value) :
    ((h.assign? f name value).isSome ↔ (h.lookup? f name).isSome) ∧
    (∀ h', h.assign? f name value = some h' → ∃ target, h.Resolves name f target ∧
      (∀ g, h.Resolves name g target → h'.lookup? g name = some value) ∧
      (∀ g other, ¬(other = name ∧ h.Resolves name g target) →
        h'.lookup? g other = h.lookup? g other) ∧
      ∀ g other, h'.binds g other = h.binds g other) ∧
    (h.assign? f name value = none → (FrameStep.assign f name value).apply h = h) ∧
    (∀ s : State, s.heap = h → (Form.assign f name value).run s =
      match h.assign? f name value with
      | some h' => .stop (.ok ()) { s with heap := h' }
      | none => .stop (.error (.error (.unbound name.name))) s) ∧
    (∀ g, f.index < h.frames.size → h.Reaches name g f →
      (h.define f name value).lookup? g name = some value) ∧
    ∀ g other, ¬(other = name ∧ h.Reaches name g f) →
      (h.define f name value).lookup? g other = h.lookup? g other := by
  refine ⟨?_, fun h' hassign => ?_, fun hassign => ?_, fun s hs => ?_, fun g hf hg => ?_,
    fun g other hg => ?_⟩
  · rw [isSome_lookup?, assign?, Option.isSome_map]
  · obtain ⟨target, htarget, rfl⟩ := assign?_eq_some_iff.1 hassign
    have hsize := index_lt_of_binds htarget.2
    refine ⟨target, htarget, fun g hg => lookup?_define_of_reaches hsize hg.1,
      fun g other hg => lookup?_define_of_not fun hall => hg ?_, binds_define htarget.2⟩
    exact ⟨hall.1, hall.2.2, htarget.2⟩
  · rw [FrameStep.apply, hassign, Option.getD_none]
  · rw [assign_run, hs]
  · exact lookup?_define_of_reaches hf hg
  · exact lookup?_define_of_not fun hall => hg ⟨hall.1, hall.2.2⟩

/-- A root that binds a name, and two frames inside it, of which the second binds the name too. -/
def shadowed (name : Symbol) : Heap :=
  let h := ((empty.newRoot.2.newFrame .global "plain").2.newFrame .global "shadowing").2
  (h.define .global name (.int 1)).define ⟨2⟩ name (.int 2)

/-- An assignment from a frame that does not bind the name is seen from the root and from that
frame, but not from the frame that binds the name itself. -/
theorem assign_iff_lookup_shadowed : ∃ h',
    (shadowed ⟨"x"⟩).assign? ⟨1⟩ ⟨"x"⟩ (.int 5) = some h' ∧
      h'.lookup? .global ⟨"x"⟩ = some (.int 5) ∧ h'.lookup? ⟨1⟩ ⟨"x"⟩ = some (.int 5) ∧
      h'.lookup? ⟨2⟩ ⟨"x"⟩ = some (.int 2) := by
  have hresolve {f target : FrameId} (h : (shadowed ⟨"x"⟩).resolve? f ⟨"x"⟩ = some target) :
      (shadowed ⟨"x"⟩).Resolves ⟨"x"⟩ f target := resolve?_eq_some_iff.1 h
  obtain ⟨hsome, hassign, -⟩ := assign_iff_lookup (shadowed ⟨"x"⟩) ⟨1⟩ ⟨"x"⟩ (.int 5)
  obtain ⟨h', hh'⟩ := Option.isSome_iff_exists.1 (hsome.2 (by decide +kernel))
  obtain ⟨target, htarget, hseen, hunseen, -⟩ := hassign h' hh'
  have hglobal : FrameId.global = target :=
    Option.some.inj ((resolve?_eq_some_iff.2 htarget).symm.trans (by decide +kernel)).symm
  subst hglobal
  refine ⟨h', hh', hseen _ (hresolve (by decide +kernel)), hseen _ htarget, ?_⟩
  rw [hunseen ⟨2⟩ ⟨"x"⟩ fun h => ?_]
  · rfl
  · have h2 := resolve?_eq_some_iff.2 h.2
    revert h2
    decide +kernel

end HostedLisp.Heap
