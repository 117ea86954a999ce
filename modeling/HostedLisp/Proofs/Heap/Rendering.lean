import HostedLisp.Proofs.Heap.CycleMarks
import HostedLisp.Proofs.Heap.Unfolding

/-!
# The text of a tree of data

A value that unfolds to a datum is written as that datum, since a datum is a tree whose leaves are
plain. Main statement: `Heap.render_of_unfolds`.
-/

namespace HostedLisp

namespace Datum

mutual

/-- A datum as the tree that it stands for. -/
def toTree : Datum → Tree
  | nil => .leaf .nil
  | bool b => .leaf (.bool b)
  | int n => .leaf (.int n)
  | float x => .leaf (.float x)
  | str text => .leaf (.str text)
  | sym name => .leaf (.sym name)
  | pair head tail => .pair head.toTree tail.toTree
  | vector items => .vector (toTrees items)

def toTrees : List Datum → List Tree
  | [] => []
  | d :: items => d.toTree :: toTrees items

end

end Datum

namespace Heap

variable {h : Heap}

mutual

lemma Unfolds.expands {d : Datum} {v : Value} (hv : h.Unfolds d v) : h.Expands d.toTree v := by
  cases d with
  | pair head tail =>
    obtain ⟨id, rfl, -, hhead, htail⟩ := hv
    exact ⟨id, rfl, hhead.expands, htail.expands⟩
  | vector items =>
    obtain ⟨id, rfl, -, hitems⟩ := hv
    exact ⟨id, rfl, hitems.expandsAll⟩
  | nil | bool | int | float | str | sym =>
    cases hv
    exact ⟨rfl, rfl⟩

lemma UnfoldsAll.expandsAll {items : List Datum} {values : List Value}
    (hv : h.UnfoldsAll items values) : h.ExpandsAll (Datum.toTrees items) values := by
  cases items with
  | nil => exact hv
  | cons d items =>
    obtain ⟨v, rest, rfl, hv, hrest⟩ := hv
    exact ⟨v, rest, rfl, hv.expands, hrest.expandsAll⟩

end

mutual

/-- The text of a datum is that of its tree. -/
lemma writeTree_toTree (h : Heap) (levels : Nat) (d : Datum) :
    h.writeTree levels d.toTree = Datum.writeWithin levels d := by
  cases d with
  | pair head tail =>
    cases levels with
    | zero => rfl
    | succ levels =>
      rw [Datum.toTree, writeTree, writeTree_toTree, writeTreeTail_toTree]
      rfl
  | vector items =>
    cases levels with
    | zero => rfl
    | succ levels =>
      rw [Datum.toTree, writeTree, writeTrees_toTrees]
      rfl
  | nil | bool | int | float | str | sym => rfl

lemma writeTreeTail_toTree (h : Heap) (levels : Nat) (d : Datum) :
    h.writeTreeTail levels d.toTree = Datum.writeTail levels d := by
  cases d with
  | pair head tail =>
    rw [Datum.toTree, writeTreeTail, writeTree_toTree, writeTreeTail_toTree]
    rfl
  | vector items =>
    cases levels with
    | zero => rfl
    | succ levels =>
      rw [Datum.toTree, writeTreeTail, writeTrees_toTrees]
      rfl
  | nil | bool | int | float | str | sym => rfl

lemma writeTrees_toTrees (h : Heap) (levels : Nat) (continued : Bool) (items : List Datum) :
    h.writeTrees levels continued (Datum.toTrees items) =
      Datum.writeItems levels continued items := by
  cases items with
  | nil => rfl
  | cons d items =>
    rw [Datum.toTrees, writeTrees, writeTree_toTree, writeTrees_toTrees]
    rfl

end

/-- The text of a value is that of the tree it unfolds to. -/
theorem render_of_unfolds {d : Datum} {v : Value} (hv : h.Unfolds d v) :
    h.render v = d.render := by
  rw [render, write_of_expands hv.expands, writeTree_toTree]
  rfl

end Heap

end HostedLisp
