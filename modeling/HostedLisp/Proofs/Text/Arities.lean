import HostedLisp.Arity.Contract
import HostedLisp.Proofs.Datum.Grammar
import HostedLisp.Proofs.Text.Trimming
import Mathlib.Data.List.Forall2

/-!
# What the notation of an arity denotes

A notation denotes a set of counts: all of them, those from a bound on, one, or those of a list.
The reader tries these forms one after the other and puts the counts of a list in order. Main
definitions: `Arity.Means`, `Arity.StandsFor`. Main statement: `read_standsFor`, a notation is read
exactly if it denotes counts, and what is read accepts these and no others.
-/

namespace HostedLisp.Arity

open Datum (IsNatural natural?_eq_some_iff)

/-! ### The forms of a notation -/

/-- Decimal digits after at most one plus sign write a count of 64 bits. -/
inductive IsCount : List Char → Nat → Prop
  | unsigned {digits : List Char} {n : Nat} (hdigits : IsNatural 10 digits n) (hn : n < 2 ^ 64) :
      IsCount digits n
  | plus {digits : List Char} {n : Nat} (hdigits : IsNatural 10 digits n) (hn : n < 2 ^ 64) :
      IsCount ('+' :: digits) n

/-- A text writes a count, with any blanks around it. -/
def WritesCount (text : List Char) (n : Nat) : Prop :=
  ∃ core, Text.Padded text core ∧ IsCount core n

/-- The set of counts that a notation without blanks around it denotes. -/
inductive Denotes : List Char → Set Nat → Prop
  | any : Denotes ['*'] Set.univ
  | atLeast {bound : List Char} {n : Nat} (hbound : WritesCount bound n) :
      Denotes ('>' :: '=' :: bound) {k | n ≤ k}
  | exactly {text : List Char} {n : Nat} (htext : WritesCount text n) : Denotes text {n}
  | oneOf {parts : List (List Char)} {counts : List Nat}
      (hparts : List.Forall₂ WritesCount parts counts) (htwo : 2 ≤ parts.length) :
      Denotes (['|'].intercalate parts) {k | k ∈ counts}

/-- The set of counts that a notation denotes. -/
def Means (text : List Char) (denoted : Set Nat) : Prop :=
  ∃ core, Text.Trims text core ∧ Denotes core denoted

/-- An arity stands for a set of counts: it accepts these and refuses all others, with an error that
shows the arity and the count; and it lists counts in ascending order, each one once. -/
structure StandsFor (arity : Arity) (denoted : Set Nat) : Prop where
  accepts : ∀ n, arity.accepts n = true ↔ n ∈ denoted
  admits : ∀ n ∈ denoted, arity.validate n = .ok ()
  refuses : ∀ n ∉ denoted, arity.validate n = .error (.arity arity n none)
  ascending : ∀ counts, arity = oneOf counts → counts.Pairwise (· < ·)

variable {text : List Char} {parts : List (List Char)} {counts : List Nat} {arity : Arity} {n : Nat}
  {denoted : Set Nat}

lemma standsFor_of_accepts (haccepts : ∀ n, arity.accepts n = true ↔ n ∈ denoted)
    (hascending : ∀ counts, arity = oneOf counts → counts.Pairwise (· < ·)) :
    arity.StandsFor denoted where
  accepts := haccepts
  admits n hn := if_pos ((haccepts n).2 hn)
  refuses n hn := if_neg fun h => hn ((haccepts n).1 h)
  ascending := hascending

/-! ### Single counts -/

/-- The characters that tell the forms apart. -/
def marks : List Char := ['*', '>', '|']

lemma IsCount.plain (h : IsCount text n) : ∀ c ∈ text, c = '+' ∨ c.isDigit = true := by
  intro c hc
  cases h with
  | unsigned hdigits => exact .inr (hdigits.all_isDigit c hc)
  | plus hdigits =>
    obtain rfl | hc := List.mem_cons.1 hc
    · exact .inl rfl
    · exact .inr (hdigits.all_isDigit c hc)

lemma IsCount.not_blank (h : IsCount text n) : ∀ c ∈ text, Text.isBlank c = false := by
  intro c hc
  obtain rfl | hdigit := h.plain c hc
  · rfl
  · exact Datum.isBlank_of_not_delimiter (Datum.not_delimiter_of_isDigit hdigit)

/-- No mark is in the text of a count. -/
lemma WritesCount.not_mem (h : WritesCount text n) : ∀ c ∈ marks, c ∉ text := by
  have hmarks : ∀ c ∈ marks, Text.isBlank c = false ∧ c ≠ '+' ∧ c.isDigit = false := by
    simp only [marks, List.forall_mem_cons]
    exact ⟨⟨rfl, by decide, rfl⟩, ⟨rfl, by decide, rfl⟩, ⟨rfl, by decide, rfl⟩, nofun⟩
  obtain ⟨core, ⟨before, after, hbefore, hafter, rfl⟩, hcore⟩ := h
  intro c hc hmem
  obtain ⟨hblank, hsign, hdigit⟩ := hmarks c hc
  obtain (hmem | hmem) | hmem := by simpa only [List.mem_append] using hmem
  · exact absurd (hbefore c hmem) (by simp [hblank])
  · exact (hcore.plain c hmem).elim hsign (by simp [hdigit])
  · exact absurd (hafter c hmem) (by simp [hblank])

lemma count?_eq_some_iff : Numeral.count? text = some n ↔ IsCount text n := by
  unfold Numeral.count?
  rw [Option.filter_eq_some_iff, decide_eq_true_eq, natural?_eq_some_iff]
  constructor
  · rintro ⟨hdigits, hn⟩
    split at hdigits
    · exact .plus hdigits hn
    · exact .unsigned hdigits hn
  · intro h
    cases h with
    | plus hdigits hn => exact ⟨hdigits, hn⟩
    | unsigned hdigits hn =>
      refine ⟨?_, hn⟩
      split
      · exact absurd rfl hdigits.head_ne.1
      · exact hdigits

lemma readCount?_eq_some_iff : readCount? text = some n ↔ WritesCount text n := by
  rw [readCount?, count?_eq_some_iff]
  constructor
  · intro hcount
    exact ⟨_, (Text.trims_trim text).padded, hcount⟩
  · rintro ⟨core, hpadded, hcount⟩
    rwa [(hpadded.trims hcount.not_blank).trim_eq]

/-! ### Counts between bars -/

lemma splitBars_eq_splitOn (text : List Char) : splitBars text = text.splitOn '|' := by
  induction text with
  | nil => rfl
  | cons c text ih =>
    rw [List.splitOn_cons_eq_if_modifyHead]
    by_cases hbar : c = '|'
    · subst hbar
      rw [splitBars.eq_2, ih]
      rfl
    · obtain ⟨part, parts, hparts⟩ := List.exists_cons_of_ne_nil (List.splitOn_ne_nil '|' text)
      rw [splitBars.eq_3 text c part parts hbar (ih.trans hparts), hparts,
        if_neg (by simpa using hbar)]
      rfl

lemma mapM_readCount?_iff :
    parts.mapM readCount? = some counts ↔ List.Forall₂ WritesCount parts counts := by
  induction parts generalizing counts with
  | nil => simp [eq_comm]
  | cons part parts ih =>
    rw [List.mapM_cons]
    constructor
    · intro h
      obtain ⟨n, hn, h⟩ := Option.bind_eq_some_iff.1 h
      obtain ⟨rest, hrest, h⟩ := Option.bind_eq_some_iff.1 h
      cases h
      exact .cons (readCount?_eq_some_iff.1 hn) (ih.1 hrest)
    · rintro (_ | ⟨hn, hrest⟩)
      rw [readCount?_eq_some_iff.2 hn, ih.2 hrest]
      rfl

/-- Counts between bars have no other marks. -/
lemma not_mem_intercalate (h : List.Forall₂ WritesCount parts counts) :
    ∀ c ∈ marks, c ≠ '|' → c ∉ ['|'].intercalate parts := by
  intro c hc hne
  induction h with
  | nil => simp
  | cons hpart hrest ih =>
    cases hrest with
    | nil => simpa using hpart.not_mem c hc
    | cons hsecond hrest =>
      rw [List.intercalate_cons_cons]
      simp [hpart.not_mem c hc, hne, ih]

/-- There is a bar exactly if there are at least two counts. -/
lemma bar_mem_intercalate_iff (h : List.Forall₂ WritesCount parts counts) :
    '|' ∈ ['|'].intercalate parts ↔ 2 ≤ parts.length := by
  cases h with
  | nil => simp
  | cons hpart hrest =>
    cases hrest with
    | nil => simpa using hpart.not_mem '|' (by decide)
    | cons => simp [List.intercalate_cons_cons]

lemma splitBars_intercalate (h : List.Forall₂ WritesCount parts counts) (hne : parts ≠ []) :
    splitBars (['|'].intercalate parts) = parts := by
  have hmarks := h.imp fun _ _ hpart => And.intro hpart.not_mem hpart
  rw [List.forall₂_and_left] at hmarks
  rw [splitBars_eq_splitOn]
  exact List.splitOn_intercalate '|' (fun part hpart => hmarks.1 part hpart '|' (by decide)) hne

/-! ### Counts in ascending order -/

lemma mem_insertCount {m : Nat} : m ∈ insertCount n counts ↔ m = n ∨ m ∈ counts := by
  induction counts with
  | nil => simp [insertCount]
  | cons k counts ih =>
    rw [insertCount]
    split
    · exact List.mem_cons
    · split
      case isTrue heq => simp [heq]
      case isFalse => rw [List.mem_cons, ih, List.mem_cons, or_left_comm]

lemma pairwise_insertCount (h : counts.Pairwise (· < ·)) :
    (insertCount n counts).Pairwise (· < ·) := by
  induction counts with
  | nil => exact List.pairwise_singleton _ _
  | cons k counts ih =>
    obtain ⟨hfirst, hrest⟩ := List.pairwise_cons.1 h
    rw [insertCount]
    split
    case isTrue hlt =>
      refine List.pairwise_cons.2 ⟨fun m hm => ?_, h⟩
      obtain rfl | hm := List.mem_cons.1 hm
      · exact hlt
      · exact hlt.trans (hfirst m hm)
    case isFalse hle =>
      split
      case isTrue => exact h
      case isFalse hne =>
        refine List.pairwise_cons.2 ⟨fun m hm => ?_, ih hrest⟩
        obtain rfl | hm := mem_insertCount.1 hm
        · omega
        · exact hfirst m hm

lemma mem_normalize : n ∈ normalize counts ↔ n ∈ counts := by
  induction counts with
  | nil => rfl
  | cons m counts ih =>
    change n ∈ insertCount m (normalize counts) ↔ _
    rw [mem_insertCount, ih, List.mem_cons]

lemma pairwise_normalize (counts : List Nat) : (normalize counts).Pairwise (· < ·) := by
  induction counts with
  | nil => exact .nil
  | cons m counts ih => exact pairwise_insertCount ih

/-! ### Reading -/

/-- A text without the marks of the first two forms is one count or a list of them. -/
lemma readTrimmed?_counts (hstar : '*' ∉ text) (hmark : '>' ∉ text) :
    readTrimmed? text = if text.contains '|' then
      ((splitBars text).mapM readCount?).map fun counts => oneOf (normalize counts)
    else (readCount? text).map exactly := by
  unfold readTrimmed?
  split
  · simp at hstar
  · simp at hmark
  · rfl

/-- What denotes counts is read, as an arity that stands for them. -/
lemma exists_read (h : Denotes text denoted) :
    ∃ arity, readTrimmed? text = some arity ∧ arity.StandsFor denoted := by
  cases h with
  | any => exact ⟨any, rfl, standsFor_of_accepts (fun k => by simp [Arity.accepts]) nofun⟩
  | @atLeast bound n hbound =>
    refine ⟨atLeast n, ?_, standsFor_of_accepts (fun k => by simp [Arity.accepts]) nofun⟩
    rw [readTrimmed?, readCount?_eq_some_iff.2 hbound]
    rfl
  | @exactly _ n htext =>
    refine ⟨exactly n, ?_, standsFor_of_accepts (fun k => by simp [Arity.accepts]) nofun⟩
    have hbar : ¬text.contains '|' = true := by
      simpa using htext.not_mem '|' (by decide)
    rw [readTrimmed?_counts (htext.not_mem _ (by decide)) (htext.not_mem _ (by decide)),
      if_neg hbar, readCount?_eq_some_iff.2 htext]
    rfl
  | @oneOf parts counts hparts htwo =>
    refine ⟨oneOf (normalize counts), ?_, standsFor_of_accepts (fun k => ?_) ?_⟩
    · have hbar : (['|'].intercalate parts).contains '|' = true := by
        simpa using (bar_mem_intercalate_iff hparts).2 htwo
      have hne : parts ≠ [] := by
        rintro rfl
        simp at htwo
      rw [readTrimmed?_counts (not_mem_intercalate hparts _ (by decide) (by decide))
        (not_mem_intercalate hparts _ (by decide) (by decide)), if_pos hbar,
        splitBars_intercalate hparts hne, mapM_readCount?_iff.2 hparts]
      rfl
    · simp [Arity.accepts, mem_normalize]
    · rintro _ ⟨⟩
      exact pairwise_normalize counts

/-- What is read denotes counts. -/
lemma exists_denotes (h : readTrimmed? text = some arity) : ∃ denoted, Denotes text denoted := by
  unfold readTrimmed? at h
  split at h
  · exact ⟨_, .any⟩
  · obtain ⟨n, hn, -⟩ := Option.map_eq_some_iff.1 h
    exact ⟨_, .atLeast (readCount?_eq_some_iff.1 hn)⟩
  · split at h
    case isTrue hbar =>
      obtain ⟨counts, hcounts, -⟩ := Option.map_eq_some_iff.1 h
      have hparts := mapM_readCount?_iff.1 hcounts
      have htext : ['|'].intercalate (splitBars text) = text := by
        rw [splitBars_eq_splitOn, List.intercalate_splitOn]
      -- one part alone would be a count with a bar in it
      have htwo : 2 ≤ (splitBars text).length := by
        rw [← bar_mem_intercalate_iff hparts, htext]
        simpa using hbar
      have hdenotes := Denotes.oneOf hparts htwo
      rw [htext] at hdenotes
      exact ⟨_, hdenotes⟩
    case isFalse =>
      obtain ⟨n, hn, -⟩ := Option.map_eq_some_iff.1 h
      exact ⟨_, .exactly (readCount?_eq_some_iff.1 hn)⟩

lemma read_of_some {text : String} {core : List Char} (h : Text.Trims text.toList core)
    (hread : readTrimmed? core = some arity) : read text = .ok arity := by
  rw [read, read?, h.trim_eq, hread]

lemma read_of_none {text : String} {core : List Char} (h : Text.Trims text.toList core)
    (hread : readTrimmed? core = none) :
    read text = .error (.domain s!"invalid arity spec '{String.ofList core}'") := by
  rw [read, read?, h.trim_eq, hread]

/-- A notation is read exactly if it denotes a set of counts. What is read stands for this set: it
accepts the counts in it and no others, and a list of counts is in ascending order. Every other text
is an error that names it. -/
theorem read_standsFor (text : String) :
    ((∃ arity, read text = .ok arity) ↔ ∃ denoted, Means text.toList denoted) ∧
      (∀ arity denoted, read text = .ok arity → Means text.toList denoted →
        arity.StandsFor denoted) ∧
      ∀ error, read text = .error error → ∃ core, Text.Trims text.toList core ∧
        error = .domain s!"invalid arity spec '{String.ofList core}'" := by
  have hcore := Text.trims_trim text.toList
  have hstands (denoted : Set Nat) (hmeans : Means text.toList denoted) :
      ∃ arity, read text = .ok arity ∧ arity.StandsFor denoted := by
    obtain ⟨core, hcore, hdenotes⟩ := hmeans
    obtain ⟨arity, hread, hstands⟩ := exists_read hdenotes
    exact ⟨arity, read_of_some hcore hread, hstands⟩
  refine ⟨⟨?_, ?_⟩, ?_, ?_⟩
  · rintro ⟨arity, harity⟩
    cases hread : readTrimmed? (Text.trim text.toList) with
    | some other =>
      obtain ⟨denoted, hdenotes⟩ := exists_denotes hread
      exact ⟨denoted, _, hcore, hdenotes⟩
    | none =>
      rw [read_of_none hcore hread] at harity
      cases harity
  · rintro ⟨denoted, hmeans⟩
    obtain ⟨arity, harity, -⟩ := hstands denoted hmeans
    exact ⟨arity, harity⟩
  · intro arity denoted harity hmeans
    obtain ⟨other, hother, hfor⟩ := hstands denoted hmeans
    obtain rfl : other = arity := Except.ok.inj (hother.symm.trans harity)
    exact hfor
  · intro error herror
    cases hread : readTrimmed? (Text.trim text.toList) with
    | some arity =>
      rw [read_of_some hcore hread] at herror
      cases herror
    | none =>
      rw [read_of_none hcore hread] at herror
      exact ⟨_, hcore, (Except.error.inj herror).symm⟩

example : read " 3|1| +03" = .ok (.oneOf [1, 3]) := by rfl

end HostedLisp.Arity
