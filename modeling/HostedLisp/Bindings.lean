import HostedLisp.Value

/-!
# Bindings

The names that a frame binds, in ascending order and each with one value. Main statements:
`find?_insert`, the last value that a name was given is the one it has, and `mem_entries_iff`, the
entries are exactly what is found.
-/

namespace HostedLisp

/-- A finite map from names to values. -/
structure Bindings where
  entries : List (Symbol × Value)
  ascending : entries.Pairwise fun a b => a.1.name < b.1.name

namespace Bindings

/-- Puts an entry into its place, where it replaces one of the same name. -/
def insertEntry (name : Symbol) (value : Value) : List (Symbol × Value) → List (Symbol × Value)
  | [] => [(name, value)]
  | entry :: rest =>
    if name.name < entry.1.name then (name, value) :: entry :: rest
    else if name = entry.1 then (name, value) :: rest
    else entry :: insertEntry name value rest

/-- The value of the first entry with that name. -/
def valueOf? (name : Symbol) : List (Symbol × Value) → Option Value
  | [] => none
  | entry :: rest => if entry.1 = name then some entry.2 else valueOf? name rest

theorem mem_insertEntry {name : Symbol} {value : Value} {entries : List (Symbol × Value)}
    {e : Symbol × Value} (h : e ∈ insertEntry name value entries) :
    e = (name, value) ∨ e ∈ entries := by
  induction entries with
  | nil => simpa [insertEntry] using h
  | cons entry rest ih =>
    rw [insertEntry] at h
    split at h
    · simpa using h
    · split at h
      · simp only [List.mem_cons] at h ⊢
        exact h.imp_right .inr
      · simp only [List.mem_cons] at h ⊢
        obtain h | h := h
        · exact .inr (.inl h)
        · exact (ih h).imp_right .inr

theorem name_lt_of_not_lt {a b : Symbol} (h : ¬a.name < b.name) (ne : a ≠ b) :
    b.name < a.name := by
  have le : b.name ≤ a.name := String.not_lt.1 h
  refine Decidable.byContradiction fun gt => ne ?_
  have eq : a.name = b.name := String.le_antisymm (String.not_lt.1 gt) le
  cases a; cases b; simpa using eq

theorem insertEntry_ascending (name : Symbol) (value : Value) {entries : List (Symbol × Value)}
    (h : entries.Pairwise fun a b => a.1.name < b.1.name) :
    (insertEntry name value entries).Pairwise fun a b => a.1.name < b.1.name := by
  induction entries with
  | nil => simp [insertEntry]
  | cons entry rest ih =>
    rw [List.pairwise_cons] at h
    rw [insertEntry]
    split
    · next lt =>
      refine List.pairwise_cons.2 ⟨fun e mem => ?_, List.pairwise_cons.2 h⟩
      obtain rfl | mem := List.mem_cons.1 mem
      · exact lt
      · exact String.lt_trans lt (h.1 e mem)
    · next ge =>
      split
      · next eq => exact List.pairwise_cons.2 ⟨fun e mem => eq ▸ h.1 e mem, h.2⟩
      · next ne =>
        refine List.pairwise_cons.2 ⟨fun e mem => ?_, ih h.2⟩
        obtain rfl | mem := mem_insertEntry mem
        · exact name_lt_of_not_lt ge ne
        · exact h.1 e mem

theorem valueOf?_insertEntry (name : Symbol) (value : Value) (entries : List (Symbol × Value))
    (other : Symbol) :
    valueOf? other (insertEntry name value entries) =
      if name = other then some value else valueOf? other entries := by
  induction entries with
  | nil => simp [insertEntry, valueOf?]
  | cons entry rest ih =>
    rw [insertEntry]
    split
    · simp [valueOf?]
    · split
      · next eq =>
        subst eq
        simp only [valueOf?]
        split <;> rfl
      · next ne =>
        simp only [valueOf?, ih]
        by_cases eq : entry.1 = other
        · simp [eq, show name ≠ other from fun h => ne (h.trans eq.symm)]
        · simp [eq]

def empty : Bindings := ⟨[], .nil⟩

instance : Inhabited Bindings := ⟨empty⟩

/-- Binds a name, replacing the value it had. -/
def insert (b : Bindings) (name : Symbol) (value : Value) : Bindings :=
  ⟨insertEntry name value b.entries, insertEntry_ascending name value b.ascending⟩

def find? (b : Bindings) (name : Symbol) : Option Value := valueOf? name b.entries

def contains (b : Bindings) (name : Symbol) : Bool := (b.find? name).isSome

/-- The bindings of both, those of `inner` where a name is bound twice. -/
def merge (outer inner : Bindings) : Bindings :=
  inner.entries.foldl (fun b e => b.insert e.1 e.2) outer

@[simp] theorem find?_empty (name : Symbol) : empty.find? name = none := rfl

theorem find?_insert (b : Bindings) (name : Symbol) (value : Value) (other : Symbol) :
    (b.insert name value).find? other = if name = other then some value else b.find? other :=
  valueOf?_insertEntry name value b.entries other

theorem mem_of_valueOf? {name : Symbol} {value : Value} {entries : List (Symbol × Value)}
    (h : valueOf? name entries = some value) : (name, value) ∈ entries := by
  induction entries with
  | nil => simp [valueOf?] at h
  | cons entry rest ih =>
    rw [valueOf?] at h
    split at h
    · next eq => cases h; subst eq; exact List.mem_cons_self
    · exact List.mem_cons_of_mem _ (ih h)

theorem valueOf?_of_mem {name : Symbol} {value : Value} {entries : List (Symbol × Value)}
    (asc : entries.Pairwise fun a b => a.1.name < b.1.name) (h : (name, value) ∈ entries) :
    valueOf? name entries = some value := by
  induction entries with
  | nil => simp at h
  | cons entry rest ih =>
    rw [List.pairwise_cons] at asc
    rw [valueOf?]
    obtain rfl | h := List.mem_cons.1 h
    · simp
    · split
      · next eq =>
        have := asc.1 _ h
        rw [eq] at this
        exact absurd this (String.lt_irrefl _)
      · exact ih asc.2 h

theorem mem_entries_iff (b : Bindings) (name : Symbol) (value : Value) :
    (name, value) ∈ b.entries ↔ b.find? name = some value :=
  ⟨valueOf?_of_mem b.ascending, mem_of_valueOf?⟩

end Bindings

end HostedLisp
