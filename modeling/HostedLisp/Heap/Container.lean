import HostedLisp.Value
import Std.Data.TreeSet.Lemmas

/-!
# Containers and sets of them

Pairs and vectors are the values with parts that a walk over the heap can go into. A walk keeps
the containers it is inside of, or the pairs of containers it has compared, in an ordered set, so
asking for one takes few steps however far it has come. Main statements:
`ContainerSet.contains_insert` and `ContainerPairs.contains_insert`.
-/

namespace HostedLisp

/-- A value with parts. -/
inductive Container where
  | pair (id : CellId)
  | vector (id : VectorId)
deriving DecidableEq, Repr

namespace Container

/-- A number that no other container has. -/
def number : Container → Nat
  | pair id => 2 * id.index
  | vector id => 2 * id.index + 1

theorem number_inj {a b : Container} : a.number = b.number ↔ a = b := by
  obtain ⟨⟨i⟩⟩ | ⟨⟨i⟩⟩ := a <;> obtain ⟨⟨j⟩⟩ | ⟨⟨j⟩⟩ := b <;> simp [number] <;> omega

end Container

structure ContainerSet where
  numbers : Std.TreeSet Nat

namespace ContainerSet

def empty : ContainerSet := ⟨∅⟩

def contains (s : ContainerSet) (c : Container) : Bool := s.numbers.contains c.number

def insert (s : ContainerSet) (c : Container) : ContainerSet := ⟨s.numbers.insert c.number⟩

@[simp] theorem contains_empty (c : Container) : empty.contains c = false :=
  Std.TreeSet.contains_emptyc

@[simp] theorem contains_insert (s : ContainerSet) (c d : Container) :
    (s.insert c).contains d = (decide (c = d) || s.contains d) := by
  simp only [contains, insert, Std.TreeSet.contains_insert, Bool.beq_eq_decide_eq,
    Std.LawfulEqCmp.compare_eq_iff_eq, Container.number_inj]

end ContainerSet

structure ContainerPairs where
  numbers : Std.TreeSet (Nat × Nat) (compareLex (compareOn Prod.fst) (compareOn Prod.snd))

namespace ContainerPairs

def empty : ContainerPairs := ⟨∅⟩

/-- Whether two containers stand together in the set. -/
def contains (s : ContainerPairs) (c d : Container) : Bool :=
  s.numbers.contains (c.number, d.number)

def insert (s : ContainerPairs) (c d : Container) : ContainerPairs :=
  ⟨s.numbers.insert (c.number, d.number)⟩

@[simp] theorem contains_empty (c d : Container) : empty.contains c d = false :=
  Std.TreeSet.contains_emptyc

@[simp] theorem contains_insert (s : ContainerPairs) (c d c' d' : Container) :
    (s.insert c d).contains c' d' = (decide (c = c' ∧ d = d') || s.contains c' d') := by
  simp only [contains, insert, Std.TreeSet.contains_insert, Bool.beq_eq_decide_eq,
    compareLex_eq_eq, compareOn, Std.LawfulEqCmp.compare_eq_iff_eq, Container.number_inj]

end ContainerPairs

end HostedLisp
