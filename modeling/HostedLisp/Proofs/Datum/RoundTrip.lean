import HostedLisp.Proofs.Datum.Tokens

/-!
# Reading what was written: lists and vectors

The text of a datum is read back, if its nesting is less than what the reader and the printer
allow: as that datum if it has no infinite numbers, and otherwise as the datum with symbols in
their place. The induction is on the datum, in step with the printer: a datum, the rest of a list
after its first element, and the items of a vector each have a statement of their own. Main
statements: `Datum.readFrom_write`, `Datum.read_render_reread`, `Datum.read_render`.
-/

namespace HostedLisp.Datum

mutual

/-- No floating point number, and no symbol whose name is not read as that symbol. -/
def Readable : Datum → Prop
  | nil | bool _ | int _ | str _ => True
  | float _ => False
  | sym name => read name.name = .ok (sym name)
  | pair head tail => head.Readable ∧ tail.Readable
  | vector items => AllReadable items

/-- All data in a list are readable. -/
def AllReadable : List Datum → Prop
  | [] => True
  | d :: rest => d.Readable ∧ AllReadable rest

end

mutual

/-- What the text of the datum is read as. An infinite number has the text of a symbol. -/
def reread : Datum → Datum
  | float x => if x.isFinite then float x else sym ⟨Decimal.display x⟩
  | pair head tail => pair head.reread tail.reread
  | vector items => vector (rereadAll items)
  | d => d

/-- What the texts of several data are read as. -/
def rereadAll : List Datum → List Datum
  | [] => []
  | d :: rest => d.reread :: rereadAll rest

end

mutual

/-- All numbers and symbols are written as tokens, which are read as `reread` says. -/
def Legible : Datum → Prop
  | nil | bool _ | int _ | str _ => True
  | float x => IsToken (Decimal.display x).toList ∧
      readToken (Decimal.display x).toList = .ok (float x).reread
  | sym name => IsToken name.name.toList ∧ readToken name.name.toList = .ok (sym name)
  | pair head tail => head.Legible ∧ tail.Legible
  | vector items => AllLegible items

/-- All data in a list are legible. -/
def AllLegible : List Datum → Prop
  | [] => True
  | d :: rest => d.Legible ∧ AllLegible rest

end

mutual

/-- All floating point numbers in the datum have the property. -/
def Floats (p : Float → Prop) : Datum → Prop
  | float x => p x
  | pair head tail => head.Floats p ∧ tail.Floats p
  | vector items => AllFloats p items
  | _ => True

/-- All floating point numbers in a list of data have the property. -/
def AllFloats (p : Float → Prop) : List Datum → Prop
  | [] => True
  | d :: rest => d.Floats p ∧ AllFloats p rest

end

/-- No number is infinite or undefined. -/
def Finite (d : Datum) : Prop := d.Floats fun x => x.isFinite = true

/-- No number is undefined. -/
def Defined (d : Datum) : Prop := d.Floats fun x => x.isNaN = false

mutual

/-- What is readable is legible and has no floating point numbers at all. -/
lemma Readable.legible {d : Datum} (hd : d.Readable) (p : Float → Prop) :
    d.Legible ∧ d.Floats p := by
  cases d with
  | nil | bool | int | str => exact ⟨trivial, trivial⟩
  | float x => exact hd.elim
  | sym name => exact ⟨readToken_of_read hd, trivial⟩
  | pair head tail =>
    obtain ⟨hhead, hhead'⟩ := Readable.legible hd.1 p
    obtain ⟨htail, htail'⟩ := Readable.legible hd.2 p
    exact ⟨⟨hhead, htail⟩, hhead', htail'⟩
  | vector items => exact AllReadable.legible hd p

lemma AllReadable.legible {items : List Datum} (hd : AllReadable items) (p : Float → Prop) :
    AllLegible items ∧ AllFloats p items := by
  cases items with
  | nil => exact ⟨trivial, trivial⟩
  | cons d items =>
    obtain ⟨hfirst, hfirst'⟩ := Readable.legible hd.1 p
    obtain ⟨hitems, hitems'⟩ := AllReadable.legible hd.2 p
    exact ⟨⟨hfirst, hitems⟩, hfirst', hitems'⟩

end

lemma Readable.defined {d : Datum} (hd : d.Readable) : d.Defined := (hd.legible _).2

mutual

/-- Without infinite numbers a datum is read again as itself. -/
lemma reread_of_finite (d : Datum) (hd : d.Finite) : d.reread = d := by
  cases d with
  | float x => exact if_pos hd
  | pair head tail => rw [reread, reread_of_finite head hd.1, reread_of_finite tail hd.2]
  | vector items => rw [reread, rereadAll_of_finite items hd]
  | nil | bool | int | str | sym => rfl

lemma rereadAll_of_finite (items : List Datum)
    (hd : AllFloats (fun x => x.isFinite = true) items) : rereadAll items = items := by
  cases items with
  | nil => rfl
  | cons d items => rw [rereadAll, reread_of_finite d hd.1, rereadAll_of_finite items hd.2]

end

mutual

/-- The levels of lists and vectors inside each other. All elements of a list are on one level,
and so is what follows the point in it. -/
def nesting : Datum → Nat
  | pair head tail => max head.nesting tail.tailNesting + 1
  | vector items => itemsNesting items + 1
  | _ => 0

/-- The levels in the rest of a list. -/
def tailNesting : Datum → Nat
  | pair head tail => max head.nesting tail.tailNesting
  | vector items => itemsNesting items + 1
  | _ => 0

/-- The levels in the items of a vector. -/
def itemsNesting : List Datum → Nat
  | [] => 0
  | d :: rest => max d.nesting (itemsNesting rest)

end

mutual

/-- The levels that a reader needs below its own: one more than any element or tail. A vector or a
list without any needs none. -/
def depth : Datum → Nat
  | pair head tail => max (head.depth + 1) tail.tailDepth
  | vector items => itemsDepth items
  | _ => 0

/-- The levels that the rest of a list needs. -/
def tailDepth : Datum → Nat
  | nil => 0
  | pair head tail => max (head.depth + 1) tail.tailDepth
  | vector items => itemsDepth items + 1
  | _ => 1

/-- The levels that the items of a vector need. -/
def itemsDepth : List Datum → Nat
  | [] => 0
  | d :: rest => max (d.depth + 1) (itemsDepth rest)

end

lemma tailDepth_le (d : Datum) : d.tailDepth ≤ d.depth + 1 := by
  cases d <;> simp [depth, tailDepth]

mutual

/-- Levels that are written are as many as those that are read, but for empty vectors. -/
lemma depth_nesting (d : Datum) :
    (d.depth ≤ d.nesting ∧ d.nesting ≤ d.depth + 1) ∧
      d.tailDepth ≤ d.tailNesting + 1 ∧ d.tailNesting ≤ d.tailDepth := by
  cases d with
  | pair head tail =>
    obtain ⟨hhead, -⟩ := depth_nesting head
    obtain ⟨-, htail⟩ := depth_nesting tail
    simp only [depth, nesting, tailDepth, tailNesting]
    omega
  | vector items =>
    have hitems := itemsDepth_nesting items
    simp only [depth, nesting, tailDepth, tailNesting]
    omega
  | nil | bool | int | float | str | sym => simp [depth, nesting, tailDepth, tailNesting]

lemma itemsDepth_nesting (items : List Datum) :
    itemsDepth items ≤ itemsNesting items + 1 ∧ itemsNesting items ≤ itemsDepth items := by
  cases items with
  | nil => simp [itemsDepth, itemsNesting]
  | cons d items =>
    obtain ⟨hfirst, -⟩ := depth_nesting d
    have hitems := itemsDepth_nesting items
    simp only [itemsDepth, itemsNesting]
    omega

end

/-- The elements of a list, and what it ends in. -/
def spine : Datum → List Datum × Datum
  | pair head tail => (head :: tail.spine.1, tail.spine.2)
  | d => ([], d)

lemma chain_spine (d : Datum) : chain d.spine.1 d.spine.2 = d := by
  induction d using spine.induct with
  | case1 head tail ih =>
    change pair head (chain tail.spine.1 tail.spine.2) = pair head tail
    rw [ih]
  | case2 d h => rw [spine] <;> first | rfl | exact h

/-- What is no pair is not read as one. -/
lemma reread_spine_of_nil {d : Datum} (h : d.spine.1 = []) : d.reread.spine = ([], d.reread) := by
  cases d with
  | pair head tail => cases h
  | float x =>
    rw [reread]
    split <;> rfl
  | nil | bool | int | str | sym | vector => rfl

variable {comments dotted started : Bool} {rest text : List Char} {d : Datum} {levels k : Nat}

/-! ### The beginning of an element -/

/-- A text that begins with an element, neither with blanks or comments nor with what ends a
list. -/
structure Begins (text : List Char) : Prop where
  ne_nil : text ≠ []
  skip : ∀ comments, skip comments text = text
  not_close : ∀ rest, text ≠ ')' :: rest
  not_point : afterPoint? text = none

lemma Begins.of_char {c : Char} (hc : isSeparator c = false)
    (hne : c ≠ ';' ∧ c ≠ ')' ∧ c ≠ '.') : Begins (c :: text) where
  ne_nil := nofun
  skip _ := skip_of_begin hc hne.1
  not_close _ h := hne.2.1 (List.cons.inj h).1
  not_point := by
    unfold afterPoint?
    split
    · next h => exact absurd (List.cons.inj h).1 hne.2.2
    · next h => exact absurd (List.cons.inj h).1 hne.2.2
    · rfl

/-- A token is not a point by itself. -/
lemma Begins.of_token {token : List Char} (h : IsToken token) (hd : readToken token = .ok d) :
    Begins (token ++ rest) := by
  have hpoint : token ≠ ['.'] := by
    rintro rfl
    have hbad : readToken ['.'] = .error .badName := rfl
    rw [hbad] at hd
    cases hd
  obtain ⟨c, token, rfl, hc⟩ := h.exists_cons
  refine ⟨nofun, fun _ => h.skip, fun _ heq => ne_of_not_delimiter hc rfl (List.cons.inj heq).1, ?_⟩
  cases token with
  | nil =>
    have hne : c ≠ '.' := fun heq => hpoint (heq ▸ rfl)
    exact (of_char (isSeparator_of_not_delimiter hc)
      ⟨ne_of_not_delimiter hc rfl, ne_of_not_delimiter hc rfl, hne⟩).not_point
  | cons c' token =>
    have hc' := h.2 c' (by simp)
    unfold afterPoint?
    split
    · next heq => cases (List.cons.inj heq).2
    · next heq =>
      obtain ⟨-, heq⟩ := List.cons.inj heq
      rw [← (List.cons.inj heq).1, hc']
      rfl
    · rfl

/-- A written element begins as elements do. -/
lemma begins_write (hd : d.Legible) : Begins (writeWithin k d ++ rest) := by
  have hopen (text : List Char) : Begins ('(' :: text) := Begins.of_char rfl (by decide)
  have hhash (text : List Char) : Begins ('#' :: text) := Begins.of_char rfl (by decide)
  cases d with
  | nil => exact hopen _
  | bool b => exact Begins.of_token (isToken_writeBool b) (readToken_writeBool b)
  | int n => exact Begins.of_token (isToken_writeInt n) (readToken_writeInt n)
  | float x => exact Begins.of_token hd.1 hd.2
  | str text => exact Begins.of_char rfl (by decide)
  | sym name => exact Begins.of_token hd.1 hd.2
  | pair head tail => cases k <;> exact hopen _
  | vector items => cases k <;> exact hhash _

lemma length_write_pos (hd : d.Legible) : 0 < (writeWithin k d).length := by
  have hbegins : Begins (writeWithin k d ++ []) := begins_write hd
  have hne := hbegins.ne_nil
  rw [List.append_nil] at hne
  exact List.length_pos_iff.2 hne

/-! ### Steps of reading elements -/

section Elements

variable {element : List Char → Reading Datum} {bound : List Char} {x : Char}

lemma readElements_close :
    readElements comments dotted element (x :: bound) started (')' :: rest) =
      .ok (([], nil), rest) := by
  have hskip : skip comments (')' :: rest) = ')' :: rest := skip_of_begin rfl (by decide)
  rw [readElements, hskip]
  rfl

lemma readElements_blank :
    readElements comments dotted element (x :: bound) started (' ' :: text) =
      readElements comments dotted element (x :: bound) started text := by
  rw [readElements, readElements, skip_blank]

lemma readElements_element (h : Begins text) (hd : element text = .ok (d, rest)) :
    readElements comments dotted element (x :: bound) started text =
      (readElements comments dotted element bound true rest).map
        fun ((items, tail), rest) => ((d :: items, tail), rest) := by
  rw [readElements, h.skip]
  split
  · exact absurd rfl (h.not_close _)
  · rw [h.not_point, ite_self, hd]
    rfl

lemma readElements_tail (hd : element (' ' :: text) = .ok (d, ')' :: rest)) :
    readElements comments true element (x :: bound) true ('.' :: ' ' :: text) =
      .ok (([], d), rest) := by
  have hpoint : afterPoint? ('.' :: ' ' :: text) = some (' ' :: text) := rfl
  have hskip : skip comments ('.' :: ' ' :: text) = '.' :: ' ' :: text :=
    skip_of_begin rfl (by decide)
  rw [readElements, hskip]
  split
  · next heq => exact absurd (List.cons.inj heq).1 (by decide)
  · simp only [Bool.and_self, if_true, hpoint, hd, Except.bind]
    rw [readClose, skip_of_begin rfl (by decide)]
    rfl

end Elements

/-! ### The round trip -/

lemma writeTail_of_spine_nil (h : d.spine.1 = []) (hnil : d ≠ nil) :
    writeTail k d = [' ', '.', ' '] ++ writeWithin k d ++ [')'] := by
  cases d with
  | nil => exact absurd rfl hnil
  | pair head tail => cases h
  | vector items =>
    cases k with
    | zero => rfl
    | succ k => simp [writeTail, writeWithin]
  | bool | int | float | str | sym => simp only [writeTail, writeWithin]

lemma readFrom_blank (hlevels : 0 < levels) :
    readFrom comments levels (' ' :: text) = readFrom comments levels text := by
  obtain ⟨levels, rfl⟩ : ∃ l, levels = l + 1 := ⟨levels - 1, by omega⟩
  rw [readFrom, readFrom, skip_blank]

lemma readFrom_list : readFrom comments (levels + 1) ('(' :: text) =
    (readElements comments true (readFrom comments levels) ('(' :: text) false text).map
      fun ((items, tail), rest) => (chain items tail, rest) := by
  rw [readFrom, skip_of_begin rfl (by decide)]
  rfl

lemma readFrom_vector : readFrom comments (levels + 1) ('#' :: '(' :: text) =
    (readElements comments false (readFrom comments levels) ('(' :: text) false text).map
      fun ((items, _), rest) => (vector items, rest) := by
  rw [readFrom, skip_of_begin rfl (by decide)]
  rfl

lemma readFrom_string : readFrom comments (levels + 1) ('"' :: text) =
    (readString text).map fun (text, rest) => (str (String.ofList text), rest) := by
  rw [readFrom, skip_of_begin rfl (by decide)]
  rfl

lemma closed_writeTail (d : Datum) : Closed (writeTail k d ++ rest) := by
  cases d with
  | nil => exact Or.inr rfl
  | pair head tail => exact Or.inl rfl
  | vector items => cases k <;> exact Or.inl rfl
  | bool | int | float | str | sym => exact Or.inl rfl

lemma closed_writeItems (items : List Datum) :
    Closed (writeItems k true items ++ ')' :: rest) := by
  cases items with
  | nil => exact Or.inr rfl
  | cons d items => exact Or.inl rfl

mutual

/-- A written datum is read back, and the text after it is left. -/
theorem readFrom_write (d : Datum) {levels k : Nat} {rest : List Char} (hd : d.Legible)
    (hlevels : d.depth < levels) (hk : d.nesting ≤ k) (hrest : Closed rest) :
    readFrom comments levels (writeWithin k d ++ rest) = .ok (d.reread, rest) := by
  obtain ⟨levels, rfl⟩ : ∃ l, levels = l + 1 := ⟨levels - 1, by omega⟩
  cases d with
  | nil =>
    rw [writeWithin, List.cons_append, readFrom_list, List.cons_append, readElements_close]
    rfl
  | bool b =>
    exact readFrom_token (isToken_writeBool b) hrest.ends (readToken_writeBool b) (by omega)
  | int n => exact readFrom_token (isToken_writeInt n) hrest.ends (readToken_writeInt n) (by omega)
  | float x => exact readFrom_token hd.1 hrest.ends hd.2 (by omega)
  | str text =>
    rw [writeWithin, Text.quote, List.cons_append, List.append_assoc, List.singleton_append,
      readFrom_string, readString_quote]
    change Except.ok (str (String.ofList text.toList), rest) = _
    rw [String.ofList_toList]
    rfl
  | sym name => exact readFrom_token hd.1 hrest.ends hd.2 (by omega)
  | pair head tail =>
    rw [depth] at hlevels
    rw [nesting] at hk
    obtain ⟨k, rfl⟩ : ∃ l, k = l + 1 := ⟨k - 1, by omega⟩
    have hhead : readFrom comments levels (writeWithin k head ++ (writeTail k tail ++ rest)) =
        .ok (head.reread, writeTail k tail ++ rest) :=
      readFrom_write head hd.1 (by omega) (by omega) (closed_writeTail tail)
    have hpos : 0 < (writeWithin k head).length := length_write_pos hd.1
    have hshort : (writeTail k tail ++ rest).length <
        (writeWithin k head ++ (writeTail k tail ++ rest)).length := by
      simp only [List.length_append]
      omega
    rw [writeWithin, List.cons_append, List.append_assoc, readFrom_list,
      readElements_element (begins_write hd.1) hhead,
      readElements_writeTail tail hd.2 (by omega) (by omega) hshort]
    change Except.ok (pair head.reread (chain tail.reread.spine.1 tail.reread.spine.2), rest) = _
    rw [chain_spine, reread]
  | vector items =>
    rw [depth] at hlevels
    rw [nesting] at hk
    obtain ⟨k, rfl⟩ : ∃ l, k = l + 1 := ⟨k - 1, by omega⟩
    rw [writeWithin, List.cons_append, List.cons_append, List.append_assoc,
      List.singleton_append, readFrom_vector,
      readElements_writeItems items hd (by omega) (by omega) (by simp)]
    rfl
termination_by (sizeOf d, 0)

/-- The rest of a written list is read back. -/
theorem readElements_writeTail (d : Datum) {levels k : Nat} {bound rest : List Char}
    (hd : d.Legible) (hlevels : d.tailDepth ≤ levels) (hk : d.tailNesting ≤ k)
    (hbound : (writeTail k d ++ rest).length < bound.length) :
    readElements comments true (readFrom comments levels) bound true (writeTail k d ++ rest) =
      .ok (d.reread.spine, rest) := by
  obtain ⟨x, bound, rfl⟩ : ∃ x b, bound = x :: b := by
    cases bound with
    | nil => simp at hbound
    | cons x bound => exact ⟨x, bound, rfl⟩
  by_cases hspine : d.spine.1 = []
  · by_cases hnil : d = nil
    · subst hnil
      exact readElements_close
    · have hnesting : d.nesting = d.tailNesting := by cases d <;> first | rfl | cases hspine
      have hdepth : d.depth + 1 = d.tailDepth := by
        cases d <;> first | rfl | exact absurd rfl hnil | cases hspine
      have htail : readFrom comments levels (writeWithin k d ++ ')' :: rest) =
          .ok (d.reread, ')' :: rest) :=
        readFrom_write d hd (by omega) (by omega) (Or.inr rfl)
      rw [← readFrom_blank (by omega)] at htail
      rw [writeTail_of_spine_nil hspine hnil, List.append_assoc, List.append_assoc]
      change readElements _ _ _ _ _ (' ' :: '.' :: ' ' :: (writeWithin k d ++ ')' :: rest)) = _
      rw [readElements_blank, readElements_tail htail, reread_spine_of_nil hspine]
  · cases d with
    | pair head tail =>
      rw [tailDepth] at hlevels
      rw [tailNesting] at hk
      have hhead : readFrom comments levels (writeWithin k head ++ (writeTail k tail ++ rest)) =
          .ok (head.reread, writeTail k tail ++ rest) :=
        readFrom_write head hd.1 (by omega) (by omega) (closed_writeTail tail)
      rw [writeTail, List.cons_append, List.append_assoc] at hbound ⊢
      rw [readElements_blank, readElements_element (begins_write hd.1) hhead,
        readElements_writeTail tail hd.2 (by omega) (by omega)
          (by simp only [List.length_cons, List.length_append] at hbound ⊢; omega)]
      rfl
    | _ => exact absurd rfl hspine
termination_by (sizeOf d, 1)

/-- The written items of a vector are read back. -/
theorem readElements_writeItems (items : List Datum) {levels k : Nat} {bound rest : List Char}
    {continued started : Bool} (hd : AllLegible items) (hlevels : itemsDepth items ≤ levels)
    (hk : itemsNesting items ≤ k)
    (hbound : (writeItems k continued items ++ ')' :: rest).length < bound.length) :
    readElements comments false (readFrom comments levels) bound started
      (writeItems k continued items ++ ')' :: rest) = .ok ((rereadAll items, nil), rest) := by
  obtain ⟨x, bound, rfl⟩ : ∃ x b, bound = x :: b := by
    cases bound with
    | nil => simp at hbound
    | cons x bound => exact ⟨x, bound, rfl⟩
  cases items with
  | nil => exact readElements_close
  | cons d items =>
    rw [itemsDepth] at hlevels
    rw [itemsNesting] at hk
    have hfirst : readFrom comments levels
        (writeWithin k d ++ (writeItems k true items ++ ')' :: rest)) =
        .ok (d.reread, writeItems k true items ++ ')' :: rest) :=
      readFrom_write d hd.1 (by omega) (by omega) (closed_writeItems items)
    have hpos : 0 < (writeWithin k d).length := length_write_pos hd.1
    have hshort : (writeItems k true items ++ ')' :: rest).length < bound.length := by
      rw [writeItems] at hbound
      simp only [List.length_append, List.length_cons] at hbound ⊢
      omega
    cases continued with
    | false =>
      rw [writeItems, List.append_assoc, List.append_assoc]
      change
        readElements _ _ _ _ _ (writeWithin k d ++ (writeItems k true items ++ ')' :: rest)) = _
      rw [readElements_element (begins_write hd.1) hfirst,
        readElements_writeItems items hd.2 (by omega) (by omega) hshort]
      rfl
    | true =>
      rw [writeItems, List.append_assoc, List.append_assoc]
      change readElements _ _ _ _ _
        (' ' :: (writeWithin k d ++ (writeItems k true items ++ ')' :: rest))) = _
      rw [readElements_blank, readElements_element (begins_write hd.1) hfirst,
        readElements_writeItems items hd.2 (by omega) (by omega) hshort]
      rfl
termination_by (sizeOf items, 0)

end

/-- The text of a legible datum is read if a reader has the levels for it. -/
theorem read_render_reread {d : Datum} (hd : d.Legible) (hlevels : d.depth < maxLevels) :
    read d.render = .ok d.reread := by
  have hmax : maxLevels ≤ shownLevels := by decide
  have hnesting := (depth_nesting d).1.2
  have hread : readFrom true maxLevels (d.write ++ []) = .ok (d.reread, []) :=
    readFrom_write d hd hlevels (by omega) trivial
  rw [List.append_nil] at hread
  rw [read, readWith, render, String.toList_ofList, readChars, hread]
  rfl

/-- The text of a readable datum with at most 63 levels is read as that datum. -/
theorem read_render {d : Datum} (hd : d.Readable) (hlevels : d.nesting ≤ 63) :
    read d.render = .ok d := by
  obtain ⟨hlegible, hfinite⟩ := hd.legible fun x => x.isFinite = true
  have hdepth : d.depth < maxLevels :=
    Nat.lt_succ_of_le ((depth_nesting d).1.1.trans hlevels)
  rw [read_render_reread hlegible hdepth, reread_of_finite d hfinite]

end HostedLisp.Datum
