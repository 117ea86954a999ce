import HostedLisp.Proofs.Datum.Recognition
import HostedLisp.Proofs.Decimal.Display

/-!
# What was read can be written

Whatever a reader answers has a text that is read again: its names and numbers are tokens, for
floating point numbers because they are written as decimals, and it needs no more levels than it
was read with. The induction is on the levels of the grammar. An infinite number is the one thing
that comes back as something else, namely as a symbol. Main statements: `Datum.denotable_of_read`,
`Datum.read_render_of_read`.
-/

namespace HostedLisp.Datum

/-- What a reader with the given number of levels may answer. -/
structure Denotable (levels : Nat) (d : Datum) : Prop where
  legible : d.Legible
  defined : d.Defined
  depth : d.depth < levels

variable {comments : Bool} {levels : Nat} {text rest token : List Char} {d tail : Datum}
  {items : List Datum}

/-! ### Floating point numbers -/

lemma isToken_of_all (hne : token ≠ []) (hall : token.all (fun c => !isDelimiter c) = true) :
    IsToken token :=
  ⟨hne, by simpa using hall⟩

/-- Every floating point number is written as a token. -/
lemma legible_float (x : Float) : (float x).Legible := by
  rw [Legible, reread]
  cases hx : x.isFinite with
  | true =>
    obtain ⟨d, hd, hwrite, hfloat⟩ := Decimal.exists_write_display hx
    rw [hwrite, ← hfloat]
    exact Decimal.readToken_write hd
  | false =>
    have hdisplay : Decimal.display x = Decimal.displayInfinite x := by simp [Decimal.display, hx]
    have hcases : Decimal.display x = "NaN" ∨ Decimal.display x = "-inf" ∨
        Decimal.display x = "inf" := by
      rw [hdisplay, Decimal.displayInfinite]
      split
      · exact .inl rfl
      · split
        · exact .inr (.inl rfl)
        · exact .inr (.inr rfl)
    obtain heq | heq | heq := hcases
    all_goals
      rw [heq]
      exact ⟨isToken_of_all (by decide) rfl, rfl⟩

/-- No decimal becomes an undefined number. -/
lemma isNaN_toFloat (d : Decimal) : d.toFloat.isNaN = false := by
  have hne : Binary64.form d.toFloat ≠ .notANumber := by
    have hmagnitude := @Binary64.ofScientific_ne_notANumber d.digits d.exponent.natAbs
      (decide (d.exponent < 0))
    rw [Decimal.toFloat]
    cases d.negative with
    | true =>
      rw [if_pos rfl, Binary64.form_neg]
      intro hneg
      refine hmagnitude ?_
      rw [← Binary64.neg_neg_form (Binary64.form _), hneg]
      rfl
    | false => exact hmagnitude
  change (Binary64.form d.toFloat).isNaN = false
  cases hform : Binary64.form d.toFloat with
  | notANumber => exact absurd hform hne
  | infinity | zero | finite => rfl

mutual

lemma Defined.reread {d : Datum} (hd : d.Defined) : d.reread.Defined := by
  cases d with
  | float x =>
    rw [Datum.reread]
    split
    · exact hd
    · trivial
  | pair head tail => exact ⟨Defined.reread hd.1, Defined.reread hd.2⟩
  | vector items => exact defined_rereadAll items hd
  | nil | bool | int | str | sym => trivial

lemma defined_rereadAll (items : List Datum)
    (hd : AllFloats (fun x => x.isNaN = false) items) :
    AllFloats (fun x => x.isNaN = false) (rereadAll items) := by
  cases items with
  | nil => trivial
  | cons d items => exact ⟨Defined.reread hd.1, defined_rereadAll items hd.2⟩

end

/-! ### From tokens to data -/

lemma depth_le_tailDepth (d : Datum) : d.depth ≤ d.tailDepth := by
  cases d <;> simp [depth, tailDepth]

lemma Atom.denotable (htoken : IsToken token) (hd : Atom token d) :
    d.Denotable (levels + 1) := by
  cases hd with
  | true | false | decimal | hexadecimal => exact ⟨trivial, trivial, Nat.succ_pos levels⟩
  | float => exact ⟨legible_float _, isNaN_toFloat _, Nat.succ_pos levels⟩
  | name hshape hname =>
    refine ⟨?_, trivial, Nat.succ_pos levels⟩
    rw [Legible, String.toList_ofList]
    exact ⟨htoken, readToken_iff.2 (.name hshape hname)⟩

/-- A list may be answered if its elements and its tail may be answered inside it. -/
lemma denotable_chain (hitems : ∀ d ∈ items, d.Denotable levels) (hlegible : tail.Legible)
    (hdefined : tail.Defined) (hdepth : tail.tailDepth ≤ levels) :
    (chain items tail).Denotable (levels + 1) := by
  have hrest : (chain items tail).Legible ∧ (chain items tail).Defined ∧
      (chain items tail).tailDepth ≤ levels := by
    induction items with
    | nil => exact ⟨hlegible, hdefined, hdepth⟩
    | cons d items ih =>
      rw [List.forall_mem_cons] at hitems
      obtain ⟨hd, hitems⟩ := hitems
      obtain ⟨hlegible, hdefined, hdepth⟩ := ih hitems
      exact ⟨⟨hd.legible, hlegible⟩, ⟨hd.defined, hdefined⟩, max_le hd.depth hdepth⟩
  obtain ⟨hlegible, hdefined, hdepth⟩ := hrest
  exact ⟨hlegible, hdefined, Nat.lt_succ_of_le ((depth_le_tailDepth _).trans hdepth)⟩

lemma denotable_vector (hitems : ∀ d ∈ items, d.Denotable levels) :
    (vector items).Denotable (levels + 1) := by
  have hall : AllLegible items ∧ AllFloats (fun x => x.isNaN = false) items ∧
      itemsDepth items ≤ levels := by
    induction items with
    | nil => exact ⟨trivial, trivial, Nat.zero_le levels⟩
    | cons d items ih =>
      rw [List.forall_mem_cons] at hitems
      obtain ⟨hd, hitems⟩ := hitems
      obtain ⟨hlegible, hdefined, hdepth⟩ := ih hitems
      exact ⟨⟨hd.legible, hlegible⟩, ⟨hd.defined, hdefined⟩, max_le hd.depth hdepth⟩
  exact ⟨hall.1, hall.2.1, Nat.lt_succ_of_le hall.2.2⟩

lemma denotable_quoted (hd : d.Denotable levels) : (quoted d).Denotable (levels + 1) := by
  have hquote : (sym ⟨"quote"⟩).Denotable levels :=
    ⟨⟨isToken_of_all (by decide) rfl, rfl⟩, trivial, Nat.zero_lt_of_lt hd.depth⟩
  refine denotable_chain ?_ trivial trivial (Nat.zero_le levels)
  simp only [List.forall_mem_cons]
  exact ⟨hquote, hd, by simp⟩

section Inner

variable {inner : List Char → Datum → List Char → Prop}

lemma Items.denotable (hinner : ∀ text d rest, inner text d rest → d.Denotable levels)
    (hitems : Items comments inner text items rest) : ∀ d ∈ items, d.Denotable levels := by
  induction hitems with
  | nil => simp
  | cons _ hd _ ih => exact List.forall_mem_cons.2 ⟨hinner _ _ _ hd, ih⟩

/-- A phrase denotes what may be answered if the data inside it do. -/
lemma Phrase.denotable (hinner : ∀ text d rest, inner text d rest → d.Denotable levels)
    (hphrase : Phrase Atom comments inner text d rest) : d.Denotable (levels + 1) := by
  cases hphrase with
  | quote _ hd => exact denotable_quoted (hinner _ _ _ hd)
  | vector hitems => exact denotable_vector (hitems.denotable hinner)
  | list hitems hclose =>
    cases hclose with
    | parenthesis =>
      exact denotable_chain (hitems.denotable hinner) trivial trivial (Nat.zero_le levels)
    | point _ _ _ _ htail =>
      have htail := hinner _ _ _ htail
      exact denotable_chain (hitems.denotable hinner) htail.legible htail.defined
        ((tailDepth_le _).trans htail.depth)
  | string => exact ⟨trivial, trivial, Nat.succ_pos levels⟩
  | atom htoken _ hd => exact hd.denotable htoken

end Inner

lemma Denotes.denotable (hd : Denotes Atom comments levels text d rest) :
    d.Denotable levels := by
  induction levels generalizing text d rest with
  | zero => exact hd.elim
  | succ levels ih => exact Phrase.denotable (fun _ _ _ => ih) hd

/-! ### Reading again -/

/-- Whatever is read has the levels of the reader, only names that are tokens and no undefined
numbers. -/
theorem denotable_of_read {text : String} (hread : read text = .ok d) :
    d.Denotable maxLevels := by
  obtain ⟨start, rest, -, hd, -⟩ := readChars_iff.1 hread
  exact hd.denotable

/-- What was read and is written is read again; only infinite numbers become symbols. -/
theorem read_render_of_read {text : String} (hread : read text = .ok d) :
    read d.render = .ok d.reread := by
  obtain ⟨hlegible, -, hdepth⟩ := denotable_of_read hread
  exact read_render_reread hlegible hdepth

end HostedLisp.Datum
