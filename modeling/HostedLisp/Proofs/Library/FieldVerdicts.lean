import HostedLisp.Proofs.Library.FieldModifiers
import HostedLisp.Proofs.Machine.Balance
import HostedLisp.Proofs.Machine.Limit

/-!
# Verdicts on the values of a field

A value is allowed if the type has room for it, every restriction allows it, and every deferred
modifier, read one after the other at that time, is a restriction that allows it. What the type or
a restriction excludes is excluded at once; what else can happen comes from the deferred modifier
that is reached first. A modifier that is written with integers always says the same, so more of
them exclude more, and their order does not matter. Main definitions: `Admits`, `Passes`. Main
statement: `Machine.judges_fields`.
-/

namespace HostedLisp

/-- A restriction allows a value. -/
def Constraint.Allows : Constraint → Int64 → Prop
  | range low high, value => low.toInt ≤ value.toInt ∧ value.toInt ≤ high.toInt
  | values allowed, value => value ∈ allowed

lemma Constraint.accepts_iff {c : Constraint} {value : Int64} :
    c.accepts value = true ↔ c.Allows value := by
  cases c with
  | range low high => simp [accepts, Allows]
  | values allowed => simp [accepts, Allows]

namespace DeviceFields

open Program

variable {answer : Answer} {frame : FrameId} {s t : State} {value : Int64} {e : Error}
  {type : FieldType} {ms : List Modifier} {form : Value} {forms : List Value}

/-- The type has room for a value, and no restriction that was given excludes it. -/
structure Admits (type : FieldType) (ms : List Modifier) (value : Int64) : Prop where
  nonnegative : 0 ≤ value.toInt
  fits : value.toInt < 256 ^ type.width
  allowed : ∀ c, Modifier.restriction c ∈ ms → c.Allows value

/-- Deferred modifiers, read one after the other, are restrictions that allow a value. -/
inductive Passes (answer : Answer) (frame : FrameId) (value : Int64) :
    State → List Value → State → Prop
  | nil {s : State} : Passes answer frame value s [] s
  | cons {s t u : State} {form : Value} {forms : List Value} {c : Constraint}
      (hreads : ReadsAs answer frame s form (.restriction c) t) (hallows : c.Allows value)
      (hrest : Passes answer frame value t forms u) :
      Passes answer frame value s (form :: forms) u

/-- A deferred modifier cannot be read, or it is no restriction. -/
def FailsWith (answer : Answer) (frame : FrameId) (s : State) (form : Value) (e : Error)
    (t : State) : Prop :=
  ((readModifier form frame).run s).execute answer = (.error (.error e), t) ∨
    ∃ m, ReadsAs answer frame s form m t ∧ (∀ c, m ≠ .restriction c) ∧
      e = .eval ("deferred-validation needs a range or values modifier, but got " ++
        t.heap.render form)

/-- A deferred modifier is reached if those before it allow the value. -/
def Reached (answer : Answer) (frame : FrameId) (value : Int64) (s : State) (forms : List Value)
    (form : Value) (u : State) : Prop :=
  ∃ before after, forms = before ++ form :: after ∧ Passes answer frame value s before u

lemma mem_restrictions {c : Constraint} :
    c ∈ ms.filterMap Modifier.restriction? ↔ Modifier.restriction c ∈ ms := by
  rw [List.mem_filterMap]
  constructor
  · rintro ⟨m, hm, hc⟩
    cases m with
    | restriction constraint =>
      cases hc
      exact hm
    | repetition | deferral => cases hc
  · exact fun hm => ⟨_, hm, rfl⟩

lemma admits_iff {name : Symbol} : Admits type ms value ↔
    (type.holds value && (describe name type ms).constraints.all (·.accepts value)) = true := by
  have hconstraints : (describe name type ms).constraints.all (·.accepts value) = true ↔
      ∀ c, Modifier.restriction c ∈ ms → c.Allows value := by
    rw [List.all_eq_true]
    refine forall_congr' fun c => ?_
    rw [Constraint.accepts_iff]
    exact imp_congr_left mem_restrictions
  have hpow : ((Nat.pow 256 type.width : Nat) : Int) = 256 ^ type.width := by cases type <;> rfl
  rw [Bool.and_eq_true, hconstraints, FieldType.holds, Bool.and_eq_true, decide_eq_true_eq,
    decide_eq_true_eq, hpow]
  constructor
  · exact fun h => ⟨⟨h.nonnegative, h.fits⟩, h.allowed⟩
  · rintro ⟨⟨hnonnegative, hfits⟩, hallowed⟩
    exact ⟨hnonnegative, hfits, hallowed⟩

/-! ### Deferred modifiers -/

/-- What comes after modifiers that allow the value is decided where they end. -/
lemma execute_validateDeferred {before : List Value} {u : State}
    (h : Passes answer frame value s before u) (after : List Value) :
    ((validateDeferred value frame (before ++ after)).run s).execute answer =
      ((validateDeferred value frame after).run u).execute answer := by
  induction h with
  | nil => rfl
  | @cons s t u form forms c hreads hallows _ ih =>
    have hread := endsIn_readModifier.2 hreads
    rw [List.cons_append, validateDeferred, run_bind, Run.bind_apply, Plan.execute_bind hread]
    change ((if c.accepts value then _ else _ : Program Bool).run t).execute answer = _
    rw [if_pos (Constraint.accepts_iff.2 hallows)]
    exact ih

/-- Of the deferred modifiers either all allow the value, or there is a first one that does not. -/
lemma passes_or_reached (answer : Answer) (frame : FrameId) (value : Int64) (forms : List Value)
    (s : State) :
    (∃ t, Passes answer frame value s forms t) ∨
      ∃ before form after u, forms = before ++ form :: after ∧
        Passes answer frame value s before u ∧
        ¬∃ c t, ReadsAs answer frame u form (.restriction c) t ∧ c.Allows value := by
  induction forms generalizing s with
  | nil => exact .inl ⟨s, .nil⟩
  | cons form rest ih =>
    by_cases h : ∃ c t, ReadsAs answer frame s form (.restriction c) t ∧ c.Allows value
    · obtain ⟨c, u, hreads, hallows⟩ := h
      obtain ⟨t, ht⟩ | ⟨before, next, after, w, rfl, hbefore, hnext⟩ := ih u
      · exact .inl ⟨t, .cons hreads hallows ht⟩
      · exact .inr ⟨form :: before, next, after, w, rfl, .cons hreads hallows hbefore, hnext⟩
    · exact .inr ⟨[], form, rest, s, rfl, .nil, h⟩

/-- What a deferred modifier comes to that does not allow the value. -/
lemma execute_validateDeferred_cons {rest : List Value}
    (h : ¬∃ c t, ReadsAs answer frame s form (.restriction c) t ∧ c.Allows value) :
    ((validateDeferred value frame (form :: rest)).run s).execute answer =
      match ((readModifier form frame).run s).execute answer with
      | (.ok (.restriction _), t) => (.ok false, t)
      | (.ok _, t) => (.error (.error (.eval
          ("deferred-validation needs a range or values modifier, but got " ++
            t.heap.render form))), t)
      | (.error reason, t) => (.error reason, t) := by
  rw [validateDeferred, run_bind, Run.bind_apply, Plan.execute_bind_eq]
  generalize hread : ((readModifier form frame).run s).execute answer = outcome
  obtain ⟨_ | _ | c | _, t⟩ := outcome
  · rfl
  · rfl
  · have hrefuses : ¬c.accepts value = true := fun hc =>
      h ⟨c, t, endsIn_readModifier.1 hread, Constraint.accepts_iff.1 hc⟩
    change ((if c.accepts value then _ else _ : Program Bool).run t).execute answer = _
    rw [if_neg hrefuses]
    rfl
  · rfl

lemma endsIn_validateDeferred_true :
    (validateDeferred value frame forms).EndsIn answer s true t ↔
      Passes answer frame value s forms t := by
  constructor
  · intro h
    obtain ⟨u, hu⟩ | ⟨before, form, after, u, rfl, hbefore, hfirst⟩ :=
      passes_or_reached answer frame value forms s
    · have hend := execute_validateDeferred hu []
      rw [List.append_nil, h] at hend
      cases hend
      exact hu
    · rw [EndsIn, execute_validateDeferred hbefore, execute_validateDeferred_cons hfirst] at h
      split at h <;> cases h
  · intro h
    have hend := execute_validateDeferred h []
    rw [List.append_nil] at hend
    exact hend

lemma endsIn_validateDeferred_false :
    (validateDeferred value frame forms).EndsIn answer s false t ↔
      ∃ form u c, Reached answer frame value s forms form u ∧
        ReadsAs answer frame u form (.restriction c) t ∧ ¬c.Allows value := by
  constructor
  · intro h
    obtain ⟨u, hu⟩ | ⟨before, form, after, u, rfl, hbefore, hfirst⟩ :=
      passes_or_reached answer frame value forms s
    · have htrue := endsIn_validateDeferred_true.2 hu
      cases (htrue.unique h).1
    · refine ⟨form, u, ?_⟩
      rw [EndsIn, execute_validateDeferred hbefore, execute_validateDeferred_cons hfirst] at h
      split at h
      · next c w hread =>
        cases h
        have hreads := endsIn_readModifier.1 hread
        exact ⟨c, ⟨before, after, rfl, hbefore⟩, hreads, fun hc => hfirst ⟨c, _, hreads, hc⟩⟩
      · cases h
      · cases h
  · rintro ⟨form, u, c, ⟨before, after, rfl, hbefore⟩, hreads, hrefuses⟩
    have hfirst : ¬∃ c t, ReadsAs answer frame u form (.restriction c) t ∧ c.Allows value := by
      rintro ⟨c', t', hreads', hallows⟩
      obtain ⟨hc, -⟩ := hreads.unique hreads'
      cases hc
      exact hrefuses hallows
    have hread : _ = _ := endsIn_readModifier.2 hreads
    rw [EndsIn, execute_validateDeferred hbefore, execute_validateDeferred_cons hfirst, hread]

lemma execute_validateDeferred_error :
    ((validateDeferred value frame forms).run s).execute answer = (.error (.error e), t) ↔
      ∃ form u, Reached answer frame value s forms form u ∧
        FailsWith answer frame u form e t := by
  constructor
  · intro h
    obtain ⟨u, hu⟩ | ⟨before, form, after, u, rfl, hbefore, hfirst⟩ :=
      passes_or_reached answer frame value forms s
    · have htrue : _ = _ := endsIn_validateDeferred_true.2 hu
      rw [htrue] at h
      cases h
    · refine ⟨form, u, ⟨before, after, rfl, hbefore⟩, ?_⟩
      rw [execute_validateDeferred hbefore, execute_validateDeferred_cons hfirst] at h
      split at h
      · cases h
      · next m w hother hread =>
        cases h
        exact .inr ⟨m, endsIn_readModifier.1 hread, fun c hc => hother c (by rw [hc]), rfl⟩
      · next reason w hread =>
        cases h
        exact .inl hread
  · rintro ⟨form, u, ⟨before, after, rfl, hbefore⟩, hfails⟩
    have hfirst : ¬∃ c t, ReadsAs answer frame u form (.restriction c) t ∧ c.Allows value := by
      rintro ⟨c, w, hreads, -⟩
      have hread : _ = _ := endsIn_readModifier.2 hreads
      obtain herror | ⟨m, hreads', hm, -⟩ := hfails
      · rw [hread] at herror
        cases herror
      · exact hm c (hreads'.unique hreads).1
    rw [execute_validateDeferred hbefore, execute_validateDeferred_cons hfirst]
    obtain herror | ⟨m, hreads, hm, rfl⟩ := hfails
    · rw [herror]
    · have hread : _ = _ := endsIn_readModifier.2 hreads
      rw [hread]
      cases m with
      | restriction c => exact absurd rfl (hm c)
      | repetition | deferral => rfl

/-! ### Verdicts -/

/-- The verdicts of a field on all values, wherever and whenever they are asked for: what comes of
the deferred modifiers matters only for a value that the type and the restrictions admit. -/
structure Judges (field : DeviceField) (type : FieldType) (ms : List Modifier) : Prop where
  accepts : ∀ {answer : Answer} {frame : FrameId} {value : Int64} {s t : State},
    (validate field value frame).EndsIn answer s true t ↔ Admits type ms value ∧
      Passes answer frame value s (ms.filterMap Modifier.deferral?) t
  /-- What is not admitted is rejected without looking at a deferred modifier. -/
  excludes : ∀ {frame : FrameId} {value : Int64} {s : State}, ¬Admits type ms value →
    (validate field value frame).run s = .stop (.ok false) s
  rejects : ∀ {answer : Answer} {frame : FrameId} {value : Int64} {s t : State},
    (validate field value frame).EndsIn answer s false t ↔ (¬Admits type ms value ∧ t = s) ∨
      Admits type ms value ∧ ∃ form u c,
        Reached answer frame value s (ms.filterMap Modifier.deferral?) form u ∧
        ReadsAs answer frame u form (.restriction c) t ∧ ¬c.Allows value
  fails : ∀ {answer : Answer} {frame : FrameId} {value : Int64} {s t : State} {e : Error},
    ((validate field value frame).run s).execute answer = (.error (.error e), t) ↔
      Admits type ms value ∧ ∃ form u,
        Reached answer frame value s (ms.filterMap Modifier.deferral?) form u ∧
        FailsWith answer frame u form e t

lemma validate_of_admits {name : Symbol} (h : Admits type ms value) :
    validate (describe name type ms) value frame =
      validateDeferred value frame (ms.filterMap Modifier.deferral?) :=
  if_pos (admits_iff.1 h)

lemma validate_of_not_admits {name : Symbol} (h : ¬Admits type ms value) :
    validate (describe name type ms) value frame = done false :=
  if_neg fun hholds => h (admits_iff.2 hholds)

lemma judges_describe (name : Symbol) (type : FieldType) (ms : List Modifier) :
    Judges (describe name type ms) type ms where
  accepts {answer frame value s t} := by
    by_cases h : Admits type ms value
    · rw [validate_of_admits h, endsIn_validateDeferred_true, and_iff_right h]
    · rw [validate_of_not_admits h, endsIn_done]
      exact iff_of_false (fun hdone => Bool.noConfusion hdone.1) fun hpasses => h hpasses.1
  excludes h := by
    rw [validate_of_not_admits h]
    rfl
  rejects {answer frame value s t} := by
    by_cases h : Admits type ms value
    · rw [validate_of_admits h, endsIn_validateDeferred_false]
      simp [h]
    · rw [validate_of_not_admits h, endsIn_done]
      simp [h]
  fails {answer frame value s t e} := by
    by_cases h : Admits type ms value
    · rw [validate_of_admits h, execute_validateDeferred_error, and_iff_right h]
    · rw [validate_of_not_admits h]
      exact iff_of_false nofun fun hfails => h hfails.1

/-! ### Modifiers that are written with integers -/

/-- In a heap a form is a range or some values that are written with integers. -/
inductive Spells (h : Heap) : Value → Constraint → Prop
  | range {id : CellId} {low high : Int64} (hle : low.toInt ≤ high.toInt)
      (hform : h.walk (.pair id) = ([.sym ⟨Aspect.range.name⟩, .int low, .int high], .proper)) :
      Spells h (.pair id) (.range low high)
  | values {id : CellId} {allowed : List Int64} (hsome : allowed ≠ [])
      (hform : h.walk (.pair id) = (.sym ⟨Aspect.values.name⟩ :: allowed.map .int, .proper)) :
      Spells h (.pair id) (.values allowed)

/-- An integer stands for itself, and nothing happens when it is evaluated. -/
def ReadsIntegers (answer : Answer) (frame : FrameId) (s : State) : Prop :=
  ∀ n, answer (.eval (.int n) frame) s = (.ok (.int n), s)

lemma ReadsIntegers.evaluates (h : ReadsIntegers answer frame s) (ns : List Int64) :
    Evaluates answer frame s (ns.map .int) (ns.map .int) s := by
  induction ns with
  | nil => exact .nil s
  | cons n rest ih => exact .cons (h n) ih

lemma ReadsIntegers.readsAs {c : Constraint} (h : ReadsIntegers answer frame s)
    (hform : Spells s.heap form c) : ReadsAs answer frame s form (.restriction c) s := by
  cases hform with
  | @range id low high hle hform => exact .evaluated hform (h.evaluates [low, high]) (.range hle)
  | values hsome hform => exact .evaluated hform (h.evaluates _) (.values hsome)

/-- Integers stand for themselves, and forms spell what they are known to spell. -/
structure Plain (answer : Answer) (frame : FrameId) (spelt : Value → Option Constraint)
    (s : State) : Prop where
  integers : ReadsIntegers answer frame s
  forms : ∀ form c, spelt form = some c → Spells s.heap form c

/-- The forms that are not known to spell a restriction. -/
def others (spelt : Value → Option Constraint) (forms : List Value) : List Value :=
  forms.filter fun form => (spelt form).isNone

/-- Modifiers that say the same as others, and have further restrictions anywhere between them. -/
structure Adds (new : List Constraint) (ms ms' : List Modifier) : Prop where
  repetitions : ms'.filterMap Modifier.repetition? = ms.filterMap Modifier.repetition?
  deferrals : ms'.filterMap Modifier.deferral? = ms.filterMap Modifier.deferral?
  restrictions : (ms'.filterMap Modifier.restriction?).Perm
    (new ++ ms.filterMap Modifier.restriction?)

lemma Adds.cons_new {new : List Constraint} {ms ms' : List Modifier} (h : Adds new ms ms')
    (c : Constraint) : Adds (c :: new) ms (.restriction c :: ms') where
  repetitions := h.repetitions
  deferrals := h.deferrals
  restrictions := h.restrictions.cons c

lemma Adds.cons_same {new : List Constraint} {ms ms' : List Modifier} (h : Adds new ms ms')
    (m : Modifier) : Adds new (m :: ms) (m :: ms') := by
  cases m with
  | repetition count =>
    exact ⟨congrArg (count :: ·) h.repetitions, h.deferrals, h.restrictions⟩
  | restriction c =>
    exact ⟨h.repetitions, h.deferrals, (h.restrictions.cons c).trans List.perm_middle.symm⟩
  | deferral form =>
    exact ⟨h.repetitions, congrArg (form :: ·) h.deferrals, h.restrictions⟩

lemma Adds.mem_iff {new : List Constraint} {ms ms' : List Modifier} (h : Adds new ms ms')
    {c : Constraint} : .restriction c ∈ ms' ↔ c ∈ new ∨ .restriction c ∈ ms := by
  rw [← mem_restrictions, h.restrictions.mem_iff, List.mem_append, mem_restrictions]

variable {spelt : Value → Option Constraint}

lemma Given.start {P : State → Prop} (h : Given answer frame P s forms ms t) : P s := by
  cases h with
  | nil hs => exact hs
  | cons hs => exact hs

lemma Given.anywhere {P : State → Prop} (h : Given answer frame P s forms ms t) :
    Given answer frame Anywhere s forms ms t := by
  induction h with
  | nil => exact .nil trivial
  | cons _ hfirst _ ih => exact .cons trivial hfirst ih

lemma Given.unique {P P' : State → Prop} {ms' : List Modifier} {t' : State}
    (h : Given answer frame P s forms ms t) (h' : Given answer frame P' s forms ms' t') :
    ms = ms' ∧ t = t' := by
  induction h generalizing ms' with
  | nil =>
    cases h'
    exact ⟨rfl, rfl⟩
  | cons _ hfirst _ ih =>
    cases h' with
    | cons _ hfirst' hrest' =>
      obtain ⟨rfl, rfl⟩ := hfirst.unique hfirst'
      obtain ⟨rfl, rfl⟩ := ih hrest'
      exact ⟨rfl, rfl⟩

/-- Without the modifiers that are written with integers, the others say the same. -/
lemma Given.without (h : Given answer frame (Plain answer frame spelt) s forms ms t) :
    ∃ rest, Given answer frame (Plain answer frame spelt) s (others spelt forms) rest t ∧
      Adds (forms.filterMap spelt) rest ms := by
  induction h with
  | nil hs => exact ⟨[], .nil hs, ⟨rfl, rfl, .refl _⟩⟩
  | @cons s t u form m forms ms hs hfirst hrest ih =>
    obtain ⟨rest, hgiven, hadds⟩ := ih
    cases hform : spelt form with
    | some c =>
      obtain ⟨rfl, rfl⟩ := hfirst.unique (hs.integers.readsAs (hs.forms form c hform))
      refine ⟨rest, ?_, ?_⟩
      · simpa [others, hform] using hgiven
      · simpa [List.filterMap_cons, hform] using hadds.cons_new c
    | none =>
      refine ⟨m :: rest, ?_, ?_⟩
      · have hcons := Given.cons hs hfirst hgiven
        simpa [others, hform] using hcons
      · simpa [List.filterMap_cons, hform] using hadds.cons_same m

/-- Modifiers that are written with integers can be added anywhere. -/
lemma Given.among {rest : List Modifier}
    (h : Given answer frame (Plain answer frame spelt) s (others spelt forms) rest t) :
    ∃ ms, Given answer frame (Plain answer frame spelt) s forms ms t ∧
      Adds (forms.filterMap spelt) rest ms := by
  induction forms generalizing s rest with
  | nil =>
    cases h with
    | nil hs => exact ⟨[], .nil hs, ⟨rfl, rfl, .refl _⟩⟩
  | cons form forms ih =>
    have hs := h.start
    cases hform : spelt form with
    | some c =>
      rw [others, List.filter_cons_of_neg (by simp [hform])] at h
      obtain ⟨ms, hgiven, hadds⟩ := ih h
      have hfirst := hs.integers.readsAs (hs.forms form c hform)
      refine ⟨.restriction c :: ms, .cons hs hfirst hgiven, ?_⟩
      simpa [List.filterMap_cons, hform] using hadds.cons_new c
    | none =>
      rw [others, List.filter_cons_of_pos (by simp [hform])] at h
      cases h with
      | cons _ hfirst hrest =>
        obtain ⟨ms, hgiven, hadds⟩ := ih hrest
        refine ⟨_, .cons hs hfirst hgiven, ?_⟩
        simpa [List.filterMap_cons, hform] using hadds.cons_same _

/-- With the same deferred modifiers, more restrictions reject more. -/
lemma rejects_of_subset {ms' : List Modifier} {name : Symbol}
    (hdeferrals : ms'.filterMap Modifier.deferral? = ms.filterMap Modifier.deferral?)
    (hsubset : ∀ c, .restriction c ∈ ms → .restriction c ∈ ms')
    (h : (validate (describe name type ms) value frame).EndsIn answer s false t) :
    ∃ u, (validate (describe name type ms') value frame).EndsIn answer s false u := by
  by_cases hadmits : Admits type ms' value
  · have hfewer : Admits type ms value :=
      ⟨hadmits.nonnegative, hadmits.fits, fun c hc => hadmits.allowed c (hsubset c hc)⟩
    rw [validate_of_admits hfewer, ← hdeferrals] at h
    rw [validate_of_admits hadmits]
    exact ⟨t, h⟩
  · rw [validate_of_not_admits hadmits]
    exact ⟨s, endsIn_done.2 ⟨rfl, rfl⟩⟩

/-- The order of the restrictions does not matter. -/
lemma validate_congr {ms' : List Modifier} {name : Symbol}
    (hdeferrals : ms'.filterMap Modifier.deferral? = ms.filterMap Modifier.deferral?)
    (hsame : ∀ c, .restriction c ∈ ms ↔ .restriction c ∈ ms') :
    validate (describe name type ms') value frame =
      validate (describe name type ms) value frame := by
  have hiff : Admits type ms' value ↔ Admits type ms value :=
    ⟨fun h => ⟨h.nonnegative, h.fits, fun c hc => h.allowed c ((hsame c).1 hc)⟩,
      fun h => ⟨h.nonnegative, h.fits, fun c hc => h.allowed c ((hsame c).2 hc)⟩⟩
  by_cases h : Admits type ms value
  · rw [validate_of_admits h, validate_of_admits (hiff.2 h), hdeferrals]
  · rw [validate_of_not_admits h, validate_of_not_admits (mt hiff.1 h)]

end DeviceFields

namespace Machine

open DeviceFields Program

variable {m : Machine} {fuel : Nat} {r : Request} {frame : FrameId} {s t : State} {v : Value}

/-- An evaluation is under way, the limit leaves room for another, and nobody interferes. -/
structure Calm (m : Machine) (s : State) : Prop where
  unattended : s.Unattended
  begun : 0 < s.depth
  room : s.depth < m.config.maxDepth

lemma Calm.readsIntegers (hs : m.Calm s) : ReadsIntegers (m.perform (fuel + 1)) frame s := by
  intro n
  have hbegin : begin s = s := if_neg hs.begun.ne'
  have hhold : hold m.config.leader (.int n) frame { s with depth := s.depth + 1 } = _ :=
    hold_of_unattended (.int n) frame hs.unattended
  rw [perform_succ]
  change (m.evaluate (.int n) frame s).execute _ = _
  unfold evaluate
  rw [hbegin, if_neg hs.room.not_ge]
  unfold evalWithin
  rw [Run.bind_apply, hhold]
  rfl

lemma Calm.later (hs : m.Calm s) (h : m.perform fuel r s = (.ok v, t)) : m.Calm t := by
  have hdepth : t.depth = s.depth :=
    (perform_balanced (a := .ok v) h).depth
  have hunattended := perform_unattended (m := m) fuel r s hs.unattended
  rw [h] at hunattended
  exact ⟨hunattended, hdepth ▸ hs.begun, hdepth ▸ hs.room⟩

lemma Calm.of_evaluates {exprs values : List Value} (hs : m.Calm s)
    (h : Evaluates (m.perform fuel) frame s exprs values t) : m.Calm t := by
  induction h with
  | nil => exact hs
  | cons hfirst _ ih => exact ih (hs.later hfirst)

lemma Calm.of_readsAs {form : Value} {mod : Modifier} (hs : m.Calm s)
    (h : ReadsAs (m.perform fuel) frame s form mod t) : m.Calm t := by
  cases h with
  | evaluated _ hvalues _ => exact hs.of_evaluates hvalues
  | deferred => exact hs

/-- Where nobody interferes, integers stand for themselves throughout. -/
lemma Calm.plain {spelt : Value → Option Constraint} {forms : List Value} {ms : List Modifier}
    (hs : m.Calm s)
    (h : Given (m.perform (fuel + 1)) frame
      (fun u => ∀ form c, spelt form = some c → Spells u.heap form c) s forms ms t) :
    Given (m.perform (fuel + 1)) frame (Plain (m.perform (fuel + 1)) frame spelt) s forms ms t := by
  induction h with
  | nil hspells => exact .nil ⟨hs.readsIntegers, hspells⟩
  | cons hspells hfirst _ ih =>
    exact .cons ⟨hs.readsIntegers, hspells⟩ hfirst (ih (hs.of_readsAs hfirst))

end Machine

/-- How values are judged by the fields that a machine has made. -/
structure Machine.JudgesFields (m : Machine) : Prop where
  /-- A field that was made judges by its type and by what its modifiers said when it was made. The
  primitive that judges values tells this verdict in every later state. -/
  verdict : ∀ {p : Primitive} {operands : List Value} {frame : FrameId} {fuel : Nat} {s t : State}
    {v : Value}, m.IsStandard p "def-field" →
    m.perform (fuel + 1) (.call (.primitive p) operands frame) s = (.ok v, t) →
    ∃ (field : DeviceField) (forms : List Value) (ms : List DeviceFields.Modifier) (u : State),
      operands = .sym field.name :: .sym ⟨field.type.name⟩ :: forms ∧
      DeviceFields.Given (m.perform fuel) frame DeviceFields.Anywhere s forms ms u ∧
      t.heap.HasField v field ∧ DeviceFields.Judges field field.type ms ∧
      ∀ (q : Primitive) (r : Request) (outer : FrameId) (n : Nat) (value : Int64) (a b : State),
        m.IsStandard q "validate-field" → r.IsCall q outer →
        r.Enters (m.perform n) a [v, .int value] b → t.heap.Develops b.heap →
        m.perform (n + 1) r a =
          match ((DeviceFields.validate field value outer).run b).execute (m.perform n) with
          | (.ok accepted, w) => (.ok (.bool accepted), w)
          | (.error reason, w) => (.error reason, w)
  /-- Where integers stand for themselves, a second field is made from the same modifiers but for
  those that are written with integers. If it has all of these that the first one has, it rejects
  what the first one rejects; if it has the same ones, its verdicts are the same. -/
  spelt : ∀ {p : Primitive} {name type : Value} {forms forms' : List Value} {frame : FrameId}
    {fuel : Nat} {s t u : State} {v : Value} {ms : List DeviceFields.Modifier}
    {spelt : Value → Option Constraint}, m.IsStandard p "def-field" →
    m.perform (fuel + 1) (.call (.primitive p) (name :: type :: forms) frame) s = (.ok v, t) →
    DeviceFields.Given (m.perform fuel) frame (DeviceFields.Plain (m.perform fuel) frame spelt)
      s forms ms u →
    DeviceFields.others spelt forms' = DeviceFields.others spelt forms →
    ∃ (field field' : DeviceField) (t' : State), t.heap.HasField v field ∧
      m.perform (fuel + 1) (.call (.primitive p) (name :: type :: forms') frame) s = (.ok v, t') ∧
      t'.heap.HasField v field' ∧
      (forms.filterMap spelt ⊆ forms'.filterMap spelt →
        ∀ (value : Int64) (outer : FrameId) (answer : Answer) (a b : State),
          (DeviceFields.validate field value outer).EndsIn answer a false b →
          ∃ w, (DeviceFields.validate field' value outer).EndsIn answer a false w) ∧
      ((forms.filterMap spelt).Perm (forms'.filterMap spelt) →
        ∀ (value : Int64) (outer : FrameId),
          DeviceFields.validate field' value outer = DeviceFields.validate field value outer)
  /-- While nobody interferes, integers stand for themselves wherever a modifier is read. -/
  calm : ∀ {forms : List Value} {frame : FrameId} {fuel : Nat} {s u : State}
    {ms : List DeviceFields.Modifier} {spelt : Value → Option Constraint}, m.Calm s →
    DeviceFields.Given (m.perform (fuel + 1)) frame
      (fun w => ∀ form c, spelt form = some c → DeviceFields.Spells w.heap form c) s forms ms u →
    DeviceFields.Given (m.perform (fuel + 1)) frame
      (DeviceFields.Plain (m.perform (fuel + 1)) frame spelt) s forms ms u

namespace Machine

open DeviceFields Program

theorem judges_fields (m : Machine) : m.JudgesFields where
  verdict := by
    intro p operands frame fuel s t v hp hmade
    obtain ⟨name, type, forms, ms, u, rfl, hgiven, hfield, -⟩ := exists_made hp hmade
    refine ⟨describe name type ms, forms, ms, u, rfl, hgiven, hfield,
      judges_describe name type ms, ?_⟩
    intro q r outer n value a b hq hr henters hlater
    have hcarries : m.Carries q (.function "validate-field" (.exactly 2) validateField) :=
      hq.carries rfl
    rw [perform_succ, serve_call hcarries hr, execute_of_enters rfl hr rfl henters]
    have hbody : (validateField [v, .int value] outer).run b =
        ((validate (describe name type ms) value outer).bind fun accepted =>
          done (.bool accepted)).run b := by
      rw [validateField, bind_eq_bind, run_bind, Run.bind_apply,
        expectField_run (hfield.later hlater), Plan.bind_stop_ok]
      rfl
    change ((validateField [v, .int value] outer).run b).execute _ = _
    rw [hbody, run_bind, Run.bind_apply, Plan.execute_bind_eq]
    generalize ((validate (describe name type ms) value outer).run b).execute _ = outcome
    obtain ⟨_ | _, w⟩ := outcome
    · rfl
    · rfl
  spelt := by
    intro p name type forms forms' frame fuel s t u v ms spelt hp hmade hgiven hothers
    obtain ⟨symbol, fieldType, _, _, _, ⟨⟩, hread, hword, rfl, rfl⟩ :=
      endsIn_make.1 ((perform_make hp).1 hmade)
    obtain ⟨rfl, rfl⟩ := hgiven.unique hread
    obtain ⟨rest, hrest, hadds⟩ := hgiven.without
    rw [← hothers] at hrest
    obtain ⟨ms', hgiven', hadds'⟩ := hrest.among
    have hrepetitions := hadds'.repetitions.trans hadds.repetitions.symm
    have hdeferrals := hadds'.deferrals.trans hadds.deferrals.symm
    have hcount : (describe symbol fieldType ms').repeatCount =
        (describe symbol fieldType ms).repeatCount :=
      congrArg (·.getLast?.getD 1) hrepetitions
    have hmade' := (perform_make hp).2 (endsIn_make.2
      ⟨symbol, fieldType, forms', ms', u, rfl, hgiven'.anywhere, hcount ▸ hword, rfl, rfl⟩)
    refine ⟨_, _, _, ⟨_, rfl, Array.getElem?_push_size⟩, hmade',
      ⟨_, rfl, Array.getElem?_push_size⟩, ?_, ?_⟩
    · intro hsubset value outer answer a b hrejects
      refine rejects_of_subset hdeferrals (fun c hc => ?_) hrejects
      exact hadds'.mem_iff.2 ((hadds.mem_iff.1 hc).imp_left fun hnew => hsubset hnew)
    · intro hperm value outer
      refine validate_congr hdeferrals fun c => ?_
      rw [hadds.mem_iff, hadds'.mem_iff, hperm.mem_iff]
  calm hs hgiven := hs.plain hgiven

end Machine

namespace Interpreter

open DeviceFields Program

/-- An interpreter in the middle of an evaluation, with the modifiers `(range 0 99)`,
`(deferred-validation (values x))` and `(range 0 9)`. -/
def deferring : Interpreter :=
  let i := (full .standard).changeHeap fun h =>
    [[.sym ⟨"range"⟩, .int 0, .int 99], [.sym ⟨"values"⟩, .sym ⟨"x"⟩],
      [.sym ⟨"deferred-validation"⟩, .pair ⟨4⟩], [.sym ⟨"range"⟩, .int 0, .int 9]].foldl
        (fun h items => (h.newChain items .nil).2) h
  { i with state := { i.state with depth := 1 } }

lemma deferring_calm : deferring.machine.Calm deferring.state :=
  ⟨⟨rfl, rfl, rfl⟩, by decide, by decide⟩

/-- What the modifiers restrict a field to that are written with integers. -/
def speltRange (form : Value) : Option Constraint :=
  if form = .pair ⟨2⟩ then some (.range 0 99)
  else if form = .pair ⟨9⟩ then some (.range 0 9)
  else none

lemma deferring_spells (form : Value) (c : Constraint) (h : speltRange form = some c) :
    Spells deferring.state.heap form c := by
  unfold speltRange at h
  split at h
  · next hform =>
    obtain rfl := Option.some.inj h
    exact hform ▸ .range (by decide) (by decide +kernel)
  · split at h
    · next hform =>
      obtain rfl := Option.some.inj h
      exact hform ▸ .range (by decide) (by decide +kernel)
    · cases h

/-- The first range and the deferred modifier are read as such. -/
lemma deferring_given : Given (deferring.machine.perform 1) .global
    (fun w => ∀ form c, speltRange form = some c → Spells w.heap form c) deferring.state
    [.pair ⟨2⟩, .pair ⟨6⟩] [.restriction (.range 0 99), .deferral (.pair ⟨4⟩)] deferring.state :=
  .cons deferring_spells
    (deferring_calm.readsIntegers.readsAs (deferring_spells (.pair ⟨2⟩) (.range 0 99) rfl))
    (.cons deferring_spells (.deferred (by decide +kernel)) (.nil deferring_spells))

/-- A field of one byte with such modifiers. -/
def byteField (forms : List Value) : Request :=
  .call (.primitive fieldPrimitive) (.sym ⟨"f"⟩ :: .sym ⟨"uint8"⟩ :: forms) .global

/-- A field with the first range and the deferred modifier. -/
def deferredField : Request := byteField [.pair ⟨2⟩, .pair ⟨6⟩]

/-- The state in which the field is there and `x` is `7`. -/
def boundLater : State :=
  let t := (deferring.machine.perform 2 deferredField deferring.state).2
  { t with heap := t.heap.define .global ⟨"x"⟩ (.int 7) }

/-- The deferred modifier is then read as the values `7`. -/
lemma boundLater_reads : ∃ u, ReadsAs (deferring.machine.perform 1) .global boundLater (.pair ⟨4⟩)
    (.restriction (.values [7])) u := by
  have hseven : (deferring.machine.perform 1 (.eval (.sym ⟨"x"⟩) .global) boundLater).1 =
      .ok (.int 7) := by decide +kernel
  generalize hx : deferring.machine.perform 1 (.eval (.sym ⟨"x"⟩) .global) boundLater = outcome
    at hseven
  obtain ⟨result, u⟩ := outcome
  cases hseven
  have hform : boundLater.heap.walk (.pair ⟨4⟩) =
      (.sym ⟨Aspect.values.name⟩ :: [.sym ⟨"x"⟩], .proper) := by decide +kernel
  have hmeaning : Meaning u.heap .values ([7].map .int) (.restriction (.values [7])) :=
    .values nofun
  exact ⟨u, .evaluated hform (.cons hx (.nil u)) hmeaning⟩

/-- The words of the field say that it has one byte, and what its modifiers are. -/
lemma deferredField_words {field : DeviceField} {forms : List Value}
    (h : [.sym ⟨"f"⟩, .sym ⟨"uint8"⟩, .pair ⟨2⟩, .pair ⟨6⟩] =
      .sym field.name :: .sym ⟨field.type.name⟩ :: forms) :
    field.type = .uint8 ∧ [.pair ⟨2⟩, .pair ⟨6⟩] = forms := by
  injection h with _ h
  injection h with hword hforms
  injection hword with hword
  have hname : "uint8" = field.type.name := congrArg Symbol.name hword
  refine ⟨?_, hforms⟩
  cases h : field.type with
  | uint8 => rfl
  | uint16 | uint32 =>
    rw [h] at hname
    exact absurd hname (by decide)

/-- Once `x` is `7` the field accepts `7` and rejects `8`; it never accepts `100`. So does a field
with the same modifiers in another order, and one with a further range rejects `8` too. -/
theorem judges_fields_later :
    ∃ t field, deferring.machine.perform 2 deferredField deferring.state =
        (.ok (.object ⟨0⟩), t) ∧ t.heap.HasField (.object ⟨0⟩) field ∧
      (∃ u, (validate field 7 .global).EndsIn (deferring.machine.perform 1) boundLater true u) ∧
      (∃ u, (validate field 8 .global).EndsIn (deferring.machine.perform 1) boundLater false u) ∧
      (∀ frame s, (validate field 100 frame).run s = .stop (.ok false) s) ∧
      (∃ t' field', deferring.machine.perform 2 (byteField [.pair ⟨6⟩, .pair ⟨2⟩])
          deferring.state = (.ok (.object ⟨0⟩), t') ∧ t'.heap.HasField (.object ⟨0⟩) field' ∧
        ∀ value frame, validate field' value frame = validate field value frame) ∧
      ∃ t' field', deferring.machine.perform 2 (byteField [.pair ⟨9⟩, .pair ⟨6⟩, .pair ⟨2⟩])
          deferring.state = (.ok (.object ⟨0⟩), t') ∧ t'.heap.HasField (.object ⟨0⟩) field' ∧
        ∃ u, (validate field' 8 .global).EndsIn (deferring.machine.perform 1) boundLater false u := by
  have hp : deferring.machine.IsStandard fieldPrimitive "def-field" :=
    ⟨_, List.mem_of_getElem? (i := 104) rfl, rfl, rfl, rfl⟩
  have hvalue : (deferring.machine.perform 2 deferredField deferring.state).1 =
      .ok (.object ⟨0⟩) := by decide +kernel
  have hmade : deferring.machine.perform 2 deferredField deferring.state =
      (.ok (.object ⟨0⟩), _) := Prod.ext hvalue rfl
  obtain ⟨hverdict, hspelt, hcalm⟩ := Machine.judges_fields deferring.machine
  have hplain := hcalm deferring_calm deferring_given
  obtain ⟨field, forms, ms, u, hoperands, hgiven, hfield, hjudges, -⟩ := hverdict hp hmade
  obtain ⟨htype, rfl⟩ := deferredField_words hoperands
  obtain ⟨rfl, rfl⟩ := hplain.anywhere.unique hgiven
  rw [htype] at hjudges
  obtain ⟨u, hreads⟩ := boundLater_reads
  have hadmits {value : Int64} (hlow : 0 ≤ value.toInt) (hhigh : value.toInt ≤ 99) :
      Admits .uint8 [.restriction (.range 0 99), .deferral (.pair ⟨4⟩)] value := by
    refine ⟨hlow, by simp [FieldType.width]; omega, fun c hc => ?_⟩
    simp only [List.mem_cons, Modifier.restriction.injEq, reduceCtorEq, List.not_mem_nil,
      or_false] at hc
    subst hc
    exact ⟨hlow, hhigh⟩
  have hrejects : (validate field 8 .global).EndsIn (deferring.machine.perform 1) boundLater
      false u := by
    have hrefuses : ¬Constraint.Allows (.values [7]) 8 := by
      change ¬8 ∈ [(7 : Int64)]
      decide
    exact hjudges.rejects.2 (.inr ⟨hadmits (by decide) (by decide), _, _, _,
      ⟨[], [], rfl, .nil⟩, hreads, hrefuses⟩)
  refine ⟨_, field, hmade, hfield, ⟨u, ?_⟩, ⟨u, hrejects⟩, fun frame s => ?_, ?_, ?_⟩
  · have hallows : Constraint.Allows (.values [7]) 7 := List.mem_singleton_self _
    have hpasses : Passes (deferring.machine.perform 1) .global 7 boundLater [.pair ⟨4⟩] u :=
      .cons hreads hallows .nil
    exact hjudges.accepts.2 ⟨hadmits (by decide) (by decide), hpasses⟩
  · refine hjudges.excludes fun hadmits => ?_
    have hle := (hadmits.allowed (.range 0 99) (List.mem_cons_self ..)).2
    exact absurd hle (by decide)
  · have hothers : DeviceFields.others speltRange [.pair ⟨6⟩, .pair ⟨2⟩] =
        DeviceFields.others speltRange [.pair ⟨2⟩, .pair ⟨6⟩] := rfl
    obtain ⟨first, second, t', hfirst, hmade', hsecond, -, hsame⟩ :=
      hspelt hp hmade hplain hothers
    obtain rfl := hfield.unique hfirst
    exact ⟨t', second, hmade', hsecond, hsame (.refl _)⟩
  · have hothers : DeviceFields.others speltRange [.pair ⟨9⟩, .pair ⟨6⟩, .pair ⟨2⟩] =
        DeviceFields.others speltRange [.pair ⟨2⟩, .pair ⟨6⟩] := rfl
    obtain ⟨first, second, t', hfirst, hmade', hsecond, hmore, -⟩ :=
      hspelt hp hmade hplain hothers
    obtain rfl := hfield.unique hfirst
    exact ⟨t', second, hmade', hsecond, hmore (by decide) 8 .global _ _ u hrejects⟩

end Interpreter

end HostedLisp
