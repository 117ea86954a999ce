import HostedLisp.Proofs.Datum.Failures
import HostedLisp.Proofs.Text.Trimming

/-!
# Texts that can be finished

A reader of lines goes on reading when it is told that a text is not finished, and gives a text up
when it is told anything else. Both are right as far as the failure stands at the end of the text or
before it: a failure before the end stays, whatever follows (`Fails.append`), and one at the end
can be mended (`Fails.completable`). The kind of the error is not quite that. A blank that is no
separator counts as the end of the text, and nesting is measured before the end is seen. Main
statements: `readAll_completable_iff` and `readAll_given_up_iff`.
-/

namespace HostedLisp.Datum

variable {comments : Bool} {levels : Nat} {text rest close : List Char} {d tail : Datum}
  {items : List Datum} {f : Failure}

/-! ### What a failure leaves -/

lemma StringFails.suffix (hf : StringFails text f) : f.rest <:+ text := by
  induction hf with
  | ended => exact List.suffix_rfl
  | endedEscape => exact List.nil_suffix
  | unknown => exact List.suffix_rfl
  | escape _ _ ih => exact ih.trans ((List.suffix_cons _ _).trans (List.suffix_cons _ _))
  | plain _ _ _ ih => exact ih.trans (List.suffix_cons _ _)

lemma AtomFails.rest_eq (hf : AtomFails text f) : f.rest = text := by
  cases hf <;> rfl

lemma afterPoint?_suffix {after : List Char} (hpoint : afterPoint? text = some after) :
    after <:+ text := by
  obtain ⟨rfl, -⟩ := afterPoint?_eq_some_iff.1 hpoint
  exact List.suffix_cons _ _

section Inner

variable {tailed : Prop} (hfails : ∀ text f, Fails comments levels text f → f.rest <:+ text)
include hfails

lemma Breaks.suffix
    (hend : Breaks comments (Denotes Atom comments levels) (Fails comments levels) tailed text f) :
    f.rest <:+ text := by
  have hskip := (gap_skip comments text).suffix
  cases hend with
  | item _ _ hf => exact (hfails _ _ hf).trans hskip
  | tail _ hpoint hf => exact (hfails _ _ hf).trans ((afterPoint?_suffix hpoint).trans hskip)
  | close _ hpoint hgap htail =>
    have hafter := (afterPoint?_suffix hpoint).trans hskip
    exact (gap_skip comments _).suffix.trans (htail.suffix.trans (hgap.suffix.trans hafter))

lemma Refuses.suffix
    (hf : Refuses comments (Denotes Atom comments levels) (Fails comments levels) text f) :
    f.rest <:+ text := by
  cases hf with
  | quote hf => exact (hfails _ _ hf).trans (List.suffix_cons _ _)
  | vector hitems hend =>
    have hopen := (hend.suffix hfails).trans (hitems.suffix fun _ _ _ => Denotes.suffix)
    exact hopen.trans ((List.suffix_cons _ _).trans (List.suffix_cons _ _))
  | list hitems hend =>
    have hopen := (hend.suffix hfails).trans (hitems.suffix fun _ _ _ => Denotes.suffix)
    exact hopen.trans (List.suffix_cons _ _)
  | string hf => exact hf.suffix.trans (List.suffix_cons _ _)
  | atom _ _ hf => exact hf.rest_eq ▸ List.suffix_rfl

end Inner

/-- A failure leaves an end of the text. -/
theorem Fails.suffix (hf : Fails comments levels text f) : f.rest <:+ text := by
  induction levels generalizing text f with
  | zero => exact (congrArg Failure.rest hf) ▸ List.suffix_rfl
  | succ levels ih =>
    have hskip := (gap_skip comments text).suffix
    exact (Refuses.suffix (fun _ _ => ih) hf).trans hskip

lemma not_separator_of_skip {c : Char} (hc : c ∈ (skip comments text).head?) :
    isSeparator c = false := by
  obtain ⟨rest, hrest⟩ := List.head?_eq_some_iff.1 hc
  have hself : skip comments (c :: rest) = c :: rest := hrest ▸ skip_skip comments text
  exact (skip_eq_self_iff.1 hself).1

lemma StringFails.not_separator (hf : StringFails text f) :
    ∀ c ∈ f.rest.head?, isSeparator c = false := by
  induction hf with
  | ended | endedEscape => exact nofun
  | unknown =>
    rintro _ ⟨rfl⟩
    decide
  | escape _ _ ih | plain _ _ _ ih => exact ih

lemma Refuses.not_separator {inner : List Char → Datum → List Char → Prop}
    {fails : List Char → Failure → Prop} (hskip : skip comments text = text)
    (hfails : ∀ text f, fails text f → f.fault ≠ .tooDeep →
      ∀ c ∈ f.rest.head?, isSeparator c = false)
    (hf : Refuses comments inner fails text f) (hfault : f.fault ≠ .tooDeep) :
    ∀ c ∈ f.rest.head?, isSeparator c = false := by
  have hbreaks {tailed : Prop} {close : List Char}
      (hend : Breaks comments inner fails tailed close f) :
      ∀ c ∈ f.rest.head?, isSeparator c = false := by
    cases hend with
    | item _ _ hf | tail _ _ hf => exact hfails _ _ hf hfault
    | close => exact fun _ => not_separator_of_skip
  cases hf with
  | quote hf => exact hfails _ _ hf hfault
  | vector _ hend | list _ hend => exact hbreaks hend
  | string hf => exact hf.not_separator
  | atom _ _ hf =>
    rw [hf.rest_eq, ← hskip]
    exact fun _ => not_separator_of_skip

/-- What a failure leaves begins with no separator: those are skipped before anything is missed. -/
lemma Fails.not_separator (hf : Fails comments levels text f) (hfault : f.fault ≠ .tooDeep) :
    ∀ c ∈ f.rest.head?, isSeparator c = false := by
  induction levels generalizing text f with
  | zero => exact absurd (congrArg Failure.fault hf) hfault
  | succ levels ih =>
    exact Refuses.not_separator (skip_skip comments text) (fun _ _ => ih) hf hfault

/-! ### A failure before the end stays -/

/-- The failure, with more text after what it leaves. -/
def Failure.before (f : Failure) (more : List Char) : Failure := ⟨f.fault, f.rest ++ more⟩

/-- What the failure leaves holds a delimiter, so the token it stands at has ended. -/
def Failure.Settled (f : Failure) : Prop := ∃ c ∈ f.rest, isDelimiter c = true

lemma Failure.Settled.ne_nil (hsettled : f.Settled) : f.rest ≠ [] := by
  obtain ⟨c, hc, -⟩ := hsettled
  exact List.ne_nil_of_mem hc

lemma StringFails.append (hf : StringFails text f) (hne : f.rest ≠ []) (more : List Char) :
    StringFails (text ++ more) (f.before more) := by
  induction hf with
  | ended | endedEscape => exact absurd rfl hne
  | unknown hletter => exact .unknown hletter
  | escape hletter _ ih => exact .escape hletter (ih hne)
  | plain hquote hbackslash _ ih => exact .plain hquote hbackslash (ih hne)

lemma AtomFails.append (hf : AtomFails text f) (hsettled : f.Settled) (more : List Char) :
    AtomFails (text ++ more) (f.before more) := by
  cases hf with
  | noToken hends => exact .noToken (hends.append fun hnil => absurd hnil hsettled.ne_nil)
  | @badToken token rest fault htoken hends hbad =>
    have hne : rest ≠ [] := by
      rintro rfl
      obtain ⟨c, hc, hdelimiter⟩ := hsettled
      rw [List.append_nil] at hc
      rw [htoken.2 c hc] at hdelimiter
      cases hdelimiter
    rw [Failure.before, List.append_assoc]
    exact .badToken htoken (hends.append fun hnil => absurd hnil hne) hbad

lemma afterPoint?_skip_append {after : List Char}
    (hpoint : afterPoint? (skip comments text) = some after) (more : List Char)
    (hmore : after = [] → Ends more) :
    afterPoint? (skip comments (text ++ more)) = some (after ++ more) := by
  have hne : skip comments text ≠ [] := by
    intro hnil
    rw [hnil] at hpoint
    cases hpoint
  rw [skip_append hne]
  exact afterPoint?_append hpoint hmore

/-- A longer text begins with a parenthesis only if the shorter one does. -/
lemma not_parenthesis_append (hne : text ≠ []) (hclose : ∀ rest, text ≠ ')' :: rest)
    (more : List Char) : ∀ rest, text ++ more ≠ ')' :: rest := by
  obtain ⟨c, text, rfl⟩ := List.exists_cons_of_ne_nil hne
  intro rest heq
  exact hclose text ((List.cons.inj heq).1 ▸ rfl)

section Inner

variable {tailed : Prop} (hfails : ∀ text f more, Fails comments levels text f → f.Settled →
  Fails comments levels (text ++ more) (f.before more))
include hfails

lemma Breaks.append
    (hend : Breaks comments (Denotes Atom comments levels) (Fails comments levels) tailed text f)
    (hsettled : f.Settled) (more : List Char) :
    Breaks comments (Denotes Atom comments levels) (Fails comments levels) tailed (text ++ more)
      (f.before more) := by
  have hne : f.rest ≠ [] := hsettled.ne_nil
  have hafter {after : List Char} (hsuffix : f.rest <:+ after) : after ≠ [] := by
    rintro rfl
    exact hne (List.suffix_nil.1 hsuffix)
  cases hend with
  | item hclose hpoint hf =>
    have hstart := hafter hf.suffix
    refine .item ?_ ?_ ?_
    · rw [skip_append hstart]
      exact not_parenthesis_append hstart hclose more
    · rw [skip_append hstart]
      exact fun htailed => afterPoint?_append_eq_none (hpoint htailed) hstart more
    · rw [skip_append hstart]
      exact hfails _ _ more hf hsettled
  | tail htailed hpoint hf =>
    have hlong := afterPoint?_skip_append hpoint more fun hnil =>
      absurd hnil (hafter hf.suffix)
    exact .tail htailed hlong (hfails _ _ more hf hsettled)
  | close htailed hpoint hgap htail hclose =>
    have hclosing := hafter (gap_skip comments _).suffix
    have hlong := afterPoint?_skip_append hpoint more fun hnil =>
      absurd (List.suffix_nil.1 (hnil ▸ htail.suffix.trans hgap.suffix)) hclosing
    have hskip := skip_append hne more
    rw [Failure.before, ← hskip]
    refine .close htailed hlong (hgap.append htail.ne_nil more)
      (htail.append fun hnil => absurd hnil hclosing) ?_
    rw [hskip]
    exact not_parenthesis_append hne hclose more

lemma Refuses.append
    (hf : Refuses comments (Denotes Atom comments levels) (Fails comments levels) text f)
    (hsettled : f.Settled) (more : List Char) :
    Refuses comments (Denotes Atom comments levels) (Fails comments levels) (text ++ more)
      (f.before more) := by
  have hclose {tailed : Prop} {close : List Char}
      (hend : Breaks comments (Denotes Atom comments levels) (Fails comments levels) tailed close
        f) : close ≠ [] := by
    rintro rfl
    exact hsettled.ne_nil (List.suffix_nil.1 (hend.suffix fun _ _ => Fails.suffix))
  have hitems {items : List Datum} {text close : List Char} (hne : close ≠ [])
      (hitems : Items comments (Denotes Atom comments levels) text items close) :
      Items comments (Denotes Atom comments levels) (text ++ more) items (close ++ more) :=
    hitems.append (fun _ _ _ _ hd hmore => hd.append hmore) (fun _ _ _ => Denotes.ne_nil)
      fun hnil => absurd hnil hne
  cases hf with
  | quote hf => exact .quote (hfails _ _ more hf hsettled)
  | vector hitems' hend =>
    exact .vector (hitems (hclose hend) hitems') (hend.append hfails hsettled more)
  | list hitems' hend =>
    exact .list (hitems (hclose hend) hitems') (hend.append hfails hsettled more)
  | string hf => exact .string (hf.append hsettled.ne_nil more)
  | atom hopening hvector hf =>
    have hatom := hf.append hsettled more
    obtain ⟨x, hx, hdelimiter⟩ := hsettled
    rw [hf.rest_eq] at hx
    obtain ⟨c, text, rfl⟩ := List.exists_cons_of_ne_nil (List.ne_nil_of_mem hx)
    refine .atom hopening ?_ hatom
    rintro ⟨after, hafter⟩
    obtain ⟨rfl, hsecond⟩ := List.cons.inj hafter
    cases text with
    | nil =>
      -- a hash by itself holds no delimiter
      obtain rfl := List.mem_singleton.1 hx
      exact absurd hdelimiter (by decide)
    | cons c text =>
      obtain ⟨rfl, -⟩ := List.cons.inj hsecond
      exact hvector ⟨text, rfl⟩

end Inner

/-- A failure before the end of a text is not mended by more text. -/
theorem Fails.append (hf : Fails comments levels text f) (hsettled : f.Settled)
    (more : List Char) : Fails comments levels (text ++ more) (f.before more) := by
  induction levels generalizing text f more with
  | zero => exact congrArg (Failure.before · more) hf
  | succ levels ih =>
    have hsuffix : f.rest <:+ skip comments text := Refuses.suffix (fun _ _ => Fails.suffix) hf
    have hstart : skip comments text ≠ [] := by
      intro hnil
      exact hsettled.ne_nil (List.suffix_nil.1 (hnil ▸ hsuffix))
    rw [fails_succ_iff, skip_append hstart]
    exact Refuses.append (fun _ _ more hf hsettled => ih hf hsettled more) hf hsettled more

/-! ### A failure at the end can be mended -/

/-- Some text after this one makes it a datum with the given number of levels. If nothing stands
there yet, that text may also follow a token. -/
def Completable (comments : Bool) (levels : Nat) (text : List Char) : Prop :=
  ∃ more start d, Gap comments (text ++ more) start ∧ Denotes Atom comments levels start d [] ∧
    (text = [] → Ends more)

/-- The text does not end in a quote if the failure is one of nesting: behind that quote no level
is left. -/
def Failure.Mendable (f : Failure) (text : List Char) : Prop :=
  f.fault = .tooDeep → text.getLast? ≠ some '\''

lemma Failure.Mendable.of_suffix {start : List Char} (hmend : f.Mendable text)
    (hsuffix : start <:+ text) : f.Mendable start := by
  intro hdeep hquote
  obtain ⟨before, rfl⟩ := hsuffix
  exact hmend hdeep (by rw [List.getLast?_append, hquote]; rfl)

lemma StringFails.completable (hf : StringFails text f) (hend : f.rest = []) :
    ∃ more chars, StringBody (text ++ more) chars [] := by
  induction hf with
  | ended => exact ⟨['"'], [], .close _⟩
  | endedEscape => exact ⟨['n', '"'], ['\n'], .escape (by simp) (.close _)⟩
  | unknown => cases hend
  | escape hletter _ ih =>
    obtain ⟨more, chars, hbody⟩ := ih hend
    obtain ⟨c, hc⟩ := Option.isSome_iff_exists.1 hletter
    exact ⟨more, c :: chars, .escape (unescape?_eq_some_iff.1 hc) hbody⟩
  | plain hquote hbackslash _ ih =>
    obtain ⟨more, chars, hbody⟩ := ih hend
    exact ⟨more, _, .plain hquote hbackslash hbody⟩

/-- A name on a new line is a datum wherever one is missing. -/
lemma completable_of_gap (hgap : Gap comments text []) :
    Completable comments (levels + 1) text := by
  have htoken : IsToken ['x'] := ⟨by simp, by simp only [List.forall_mem_singleton]; rfl⟩
  have hname : Atom ['x'] (sym ⟨String.ofList ['x']⟩) := readToken_iff.1 rfl
  exact ⟨['\n', 'x'], ['x'], _, hgap.append_line ['x'], .atom htoken ends_nil hname,
    fun _ => .of_delimiter rfl⟩

/-- The parenthesis after a tail that a point announces. -/
lemma Close.of_point {inner : List Char → Datum → List Char → Prop} {tailed : Prop}
    {after start : List Char} (htailed : tailed)
    (hpoint : afterPoint? (skip comments text) = some after) (hgap : Gap comments after start)
    (htail : inner start tail close) (hne : start ≠ [])
    (hclose : Gap comments close (')' :: rest)) : Close comments inner tailed text tail rest := by
  have hskip := gap_skip comments text
  obtain ⟨heq, hends⟩ := afterPoint?_eq_some_iff.1 hpoint
  rw [heq] at hskip
  cases after with
  | nil => exact absurd (List.suffix_nil.1 hgap.suffix) hne
  | cons c after => exact .point htailed hskip (hends c rfl) hgap htail hclose

/-- A list that fails at the end of the text can be closed. If the data inside it have levels left,
so can they. -/
lemma Breaks.completable {tailed : Prop}
    (hfails : ∀ text f, Fails comments levels text f → f.rest = [] → f.Mendable text →
      0 < levels → Completable comments levels text)
    (htailed : tailed → 0 < levels)
    (hbreak : Breaks comments (Denotes Atom comments levels) (Fails comments levels) tailed text f)
    (hend : f.rest = []) (hmend : f.Mendable text) :
    ∃ more items close tail,
      Items comments (Denotes Atom comments levels) (text ++ more) items close ∧
      Close comments (Denotes Atom comments levels) tailed close tail [] ∧
      (text = [] → Ends more) := by
  have hskip := gap_skip comments text
  have hclosing : Ends [')'] := .of_delimiter rfl
  have hline : Ends ['\n', ')'] := .of_delimiter rfl
  cases hbreak with
  | item _ _ hf =>
    cases levels with
    | zero =>
      rw [show skip comments text = [] from (congrArg Failure.rest hf).symm.trans hend] at hskip
      exact ⟨['\n', ')'], [], text ++ ['\n', ')'], .nil, .nil _,
        .parenthesis (hskip.append_line [')']), fun _ => hline⟩
    | succ levels =>
      obtain ⟨more, start, d, hgap, hd, hmore⟩ :=
        hfails _ _ (fails_skip_iff.1 hf) hend hmend (Nat.succ_pos _)
      have hlong := hgap.append hd.ne_nil [')']
      rw [List.append_assoc] at hlong
      exact ⟨more ++ [')'], [d], [')'], .nil, .cons hlong (hd.append fun _ => hclosing) (.nil _),
        .parenthesis (.none _), fun hnil => (hmore hnil).append fun _ => hclosing⟩
  | tail hallowed hpoint hf =>
    have hne : text ≠ [] := by
      rintro rfl
      cases hpoint
    have hafter := (afterPoint?_suffix hpoint).trans hskip.suffix
    obtain ⟨more, start, d, hgap, hd, hmore⟩ :=
      hfails _ _ hf hend (hmend.of_suffix hafter) (htailed hallowed)
    have hlong := hgap.append hd.ne_nil [')']
    rw [List.append_assoc] at hlong
    have hpoint' := afterPoint?_skip_append hpoint _ fun hnil =>
      (hmore hnil).append fun _ => hclosing
    refine ⟨more ++ [')'], [], text ++ (more ++ [')']), d, .nil _, ?_, fun hnil => absurd hnil hne⟩
    exact .of_point hallowed hpoint' hlong (hd.append fun _ => hclosing) (by simp [hd.ne_nil])
      (.none _)
  | @close _ _ closing d hallowed hpoint hgap htail =>
    have hne : text ≠ [] := by
      rintro rfl
      cases hpoint
    have hclose := gap_skip comments closing
    rw [show skip comments closing = [] from hend] at hclose
    have hpoint' := afterPoint?_skip_append hpoint _ fun _ => hline
    refine ⟨['\n', ')'], [], text ++ ['\n', ')'], d, .nil _, ?_, fun hnil => absurd hnil hne⟩
    exact .of_point hallowed hpoint' (hgap.append htail.ne_nil _) (htail.append fun _ => hline)
      (by simp [htail.ne_nil]) (hclose.append_line [')'])

/-- A refused text that fails at its end can be completed. -/
lemma Refuses.completable
    (hfails : ∀ text f, Fails comments levels text f → f.rest = [] → f.Mendable text →
      0 < levels → Completable comments levels text)
    (hf : Refuses comments (Denotes Atom comments levels) (Fails comments levels) text f)
    (hend : f.rest = []) (hmend : f.Mendable text) (hne : text ≠ []) :
    ∃ more d, Denotes Atom comments (levels + 1) (text ++ more) d [] := by
  have hitems {items : List Datum} {text close more : List Char}
      (hitems : Items comments (Denotes Atom comments levels) text items close)
      (hmore : close = [] → Ends more) :
      Items comments (Denotes Atom comments levels) (text ++ more) items (close ++ more) :=
    hitems.append (fun _ _ _ _ hd hmore => hd.append hmore) (fun _ _ _ => Denotes.ne_nil) hmore
  cases hf with
  | quote hf =>
    rename_i text
    cases levels with
    | zero =>
      -- the quote stands at the end, and nothing may follow it
      obtain rfl : text = [] := (congrArg Failure.rest hf).symm.trans hend
      exact absurd rfl (hmend (congrArg Failure.fault hf))
    | succ levels =>
      obtain ⟨more, start, d, hgap, hd, -⟩ :=
        hfails _ _ hf hend (hmend.of_suffix (List.suffix_cons _ _)) (Nat.succ_pos _)
      exact ⟨more, _, .quote hgap hd⟩
  | @vector text close items _ hlead hbreak =>
    have hsuffix : close <:+ '#' :: '(' :: text :=
      (hlead.suffix fun _ _ _ => Denotes.suffix).trans
        ((List.suffix_cons _ _).trans (List.suffix_cons _ _))
    obtain ⟨more, others, close', tail, hothers, hclose, hmore⟩ :=
      hbreak.completable hfails False.elim hend (hmend.of_suffix hsuffix)
    cases hclose with
    | parenthesis hclose =>
      exact ⟨more, _, .vector ((hitems hlead hmore).trans hothers) hclose⟩
    | point hallowed => exact hallowed.elim
  | @list text close items _ hlead hbreak =>
    have hsuffix : close <:+ '(' :: text :=
      (hlead.suffix fun _ _ _ => Denotes.suffix).trans (List.suffix_cons _ _)
    have htailed : items ≠ [] → 0 < levels := by
      intro hsome
      cases hlead with
      | nil => exact absurd rfl hsome
      | cons _ hd =>
        cases levels with
        | zero => exact hd.elim
        | succ levels => exact Nat.succ_pos _
    obtain ⟨more, others, close', tail, hothers, hclose, hmore⟩ :=
      hbreak.completable hfails htailed hend (hmend.of_suffix hsuffix)
    refine ⟨more, _, .list ((hitems hlead hmore).trans hothers) (hclose.mono fun hsome => ?_)⟩
    simp [hsome]
  | string hf =>
    obtain ⟨more, chars, hbody⟩ := hf.completable hend
    exact ⟨more, _, .string hbody⟩
  | atom _ _ hf => exact absurd (hf.rest_eq.symm.trans hend) hne

/-- A failure at the end of a text is mended by more text, unless it is a quote that no level is
left for. -/
theorem Fails.completable (hf : Fails comments levels text f) (hend : f.rest = [])
    (hmend : f.Mendable text) (hlevels : 0 < levels) : Completable comments levels text := by
  induction levels generalizing text f with
  | zero => exact absurd hlevels (Nat.lt_irrefl 0)
  | succ levels ih =>
    have hskip := gap_skip comments text
    by_cases hnil : skip comments text = []
    · exact completable_of_gap (hnil ▸ hskip)
    · obtain ⟨more, d, hd⟩ := Refuses.completable (fun _ _ hf => ih hf) hf hend
        (hmend.of_suffix hskip.suffix) hnil
      refine ⟨more, _, d, hskip.append hnil more, hd, ?_⟩
      rintro rfl
      exact absurd rfl hnil

/-! ### Texts of data -/

lemma Stalls.append (hstall : Stalls text f) (hsettled : f.Settled) (more : List Char) :
    Stalls (text ++ more) (f.before more) := by
  obtain ⟨data, close, hlead, hne, hf⟩ := hstall
  have hclose : close ≠ [] := by
    rintro rfl
    exact hne rfl
  have hlong := hf.append hsettled more
  rw [← skip_append hne] at hlong
  refine ⟨data, close ++ more, ?_, ?_, hlong⟩
  · exact hlead.append (fun _ _ _ _ hd hmore => hd.append hmore) (fun _ _ _ => Denotes.ne_nil)
      fun hnil => absurd hnil hclose
  · rw [skip_append hne]
    exact List.append_ne_nil_of_left_ne_nil hne more

lemma Stalls.suffix (hstall : Stalls text f) : f.rest <:+ text := by
  obtain ⟨data, close, hlead, -, hf⟩ := hstall
  have hclose : close <:+ text := hlead.suffix fun _ _ _ => Denotes.suffix
  exact hf.suffix.trans ((gap_skip true close).suffix.trans hclose)

lemma Stalls.completable (hstall : Stalls text f) (hend : f.rest = []) (hmend : f.Mendable text) :
    ∃ more data, readAllChars (text ++ more) = .ok data := by
  obtain ⟨data, close, hlead, hne, hf⟩ := hstall
  have hclose : close ≠ [] := by
    rintro rfl
    exact hne rfl
  have hsuffix : skip true close <:+ text :=
    (gap_skip true close).suffix.trans (hlead.suffix fun _ _ _ => Denotes.suffix)
  obtain ⟨more, start, d, hgap, hd, -⟩ :=
    hf.completable hend (hmend.of_suffix hsuffix) (by decide)
  have hlong := ((gap_skip true close).append hne more).trans hgap
  have hlead' : Leads (text ++ more) data (close ++ more) :=
    hlead.append (fun _ _ _ _ hd hmore => hd.append hmore) (fun _ _ _ => Denotes.ne_nil)
      fun hnil => absurd hnil hclose
  exact ⟨more, data ++ [d],
    readAllChars_iff.2 ⟨[], hlead'.trans (.cons hlong hd (.nil _)), .none _⟩⟩

/-- A text that goes on after a failure before its end is never read. -/
lemma Stalls.not_completable (hstall : Stalls text f) (hsettled : f.Settled) (more : List Char)
    (data : List Datum) : readAllChars (text ++ more) ≠ .ok data := by
  rw [readAllChars_error_iff.2 ⟨_, hstall.append hsettled more, rfl⟩]
  exact nofun

/-! ### Kinds of errors -/

lemma Failure.kind_toError (input : List Char) : (f.toError input).kind =
    if f.fault = .tooDeep then .tooDeeplyNested
    else if (Text.trim f.rest).isEmpty then .incomplete
    else .invalidSyntax := by
  unfold Failure.toError Failure.describe ParseError.at
  split
  · rfl
  · split <;> rfl

lemma Failure.kind_toError_eq_incomplete_iff (input : List Char) :
    (f.toError input).kind = .incomplete ↔
      f.fault ≠ .tooDeep ∧ ∀ c ∈ f.rest, Text.isBlank c = true := by
  rw [Failure.kind_toError, ← Text.trim_eq_nil_iff, ← List.isEmpty_iff]
  split
  case isTrue hdeep => simp [hdeep]
  case isFalse hdeep => split <;> simp_all

lemma readAll_append {text more : String} :
    readAll (text ++ more) = readAllChars (text.toList ++ more.toList) := by
  rw [readAll, String.toList_append]

/-- A text that is reported as not finished can be finished, unless it was a blank other than a
separator that nothing fitted at: such a blank counts as the end of the text, but it is never
skipped, whatever follows. -/
theorem readAll_completable_iff {text : String} {e : ParseError}
    (hread : readAll text = .error e) (hkind : e.kind = .incomplete) :
    (∃ more data, readAll (text ++ more) = .ok data) ↔
      ¬∃ fault c blanks, Stalls text.toList ⟨fault, c :: blanks⟩ ∧ Text.isBlank c = true ∧
        isSeparator c = false := by
  constructor
  · rintro ⟨more, data, hdata⟩ ⟨fault, c, blanks, hstall, hblank, -⟩
    rw [readAll_append] at hdata
    have hsettled : (⟨fault, c :: blanks⟩ : Failure).Settled :=
      ⟨c, List.mem_cons_self, isDelimiter_of_isBlank hblank⟩
    exact hstall.not_completable hsettled _ _ hdata
  · intro hstray
    obtain ⟨f, hstall, rfl⟩ := readAllChars_error_iff.1 hread
    obtain ⟨hfault, hblanks⟩ := (Failure.kind_toError_eq_incomplete_iff _).1 hkind
    have hend : f.rest = [] := by
      by_contra hne
      obtain ⟨c, blanks, hrest⟩ := List.exists_cons_of_ne_nil hne
      have hblank : Text.isBlank c = true := hblanks c (by rw [hrest]; exact List.mem_cons_self)
      have hseparator : isSeparator c = false := by
        obtain ⟨data, close, -, -, hf⟩ := hstall
        exact hf.not_separator hfault c (by rw [hrest]; rfl)
      refine hstray ⟨f.fault, c, blanks, ?_, hblank, hseparator⟩
      rwa [← hrest]
    obtain ⟨more, data, hdata⟩ := hstall.completable hend fun hdeep => absurd hdeep hfault
    exact ⟨String.ofList more, data, by rw [readAll_append, String.toList_ofList, hdata]⟩

/-- The list that begins with `1` is not finished, and no stray blank is why. -/
theorem readAll_completable_iff_list :
    ∃ e, readAll "(1" = .error e ∧ e.kind = .incomplete ∧
      ((∃ more data, readAll ("(1" ++ more) = .ok data) ↔
        ¬∃ fault c blanks, Stalls "(1".toList ⟨fault, c :: blanks⟩ ∧ Text.isBlank c = true ∧
          isSeparator c = false) :=
  ⟨_, rfl, rfl, readAll_completable_iff rfl rfl⟩

/-- After a list, a form feed is reported as the end of the text, and no text can follow it. -/
theorem readAll_form_feed : (∃ e, readAll "(f)\x0c" = .error e ∧ e.kind = .incomplete) ∧
    ∀ more data, readAll ("(f)\x0c" ++ more) ≠ .ok data := by
  have hlist : readFrom true maxLevels ['(', 'f', ')', '\x0c'] =
      .ok (chain [sym ⟨"f"⟩] nil, ['\x0c']) := rfl
  have hblank : readFrom true maxLevels ['\x0c'] = .error ⟨.noToken, ['\x0c']⟩ := rfl
  obtain ⟨start, hgap, hd⟩ := readFrom_iff.1 hlist
  have hstall : Stalls "(f)\x0c".toList ⟨.noToken, ['\x0c']⟩ :=
    ⟨_, ['\x0c'], .cons hgap hd (.nil _), by decide, readFrom_error_iff.1 hblank⟩
  refine ⟨⟨_, rfl, rfl⟩, fun more data hdata => ?_⟩
  rw [readAll_append] at hdata
  exact hstall.not_completable ⟨'\x0c', List.mem_cons_self, rfl⟩ _ _ hdata

/-- A line that could be continued to a text of data is given up exactly if the reader stalls at its
end because no level is left: nesting is measured before the end of the text is seen. -/
theorem readAll_given_up_iff {text : String} (hline : text.toList.getLast? = some '\n') :
    ((∃ more data, readAll (text ++ more) = .ok data) ∧
      ∃ e, readAll text = .error e ∧ e.kind ≠ .incomplete) ↔
        Stalls text.toList ⟨.tooDeep, []⟩ := by
  constructor
  · rintro ⟨⟨more, data, hdata⟩, e, hread, hkind⟩
    rw [readAll_append] at hdata
    obtain ⟨f, hstall, rfl⟩ := readAllChars_error_iff.1 hread
    have hend : f.rest = [] := by
      by_contra hne
      -- what is left ends in the new line, and that is a delimiter
      obtain ⟨before, hbefore⟩ := hstall.suffix
      have hlast := List.getLast?_eq_some_getLast hne
      rw [← hbefore, List.getLast?_append, hlast] at hline
      have hmem : '\n' ∈ f.rest := Option.some.inj hline ▸ List.getLast_mem hne
      exact hstall.not_completable ⟨'\n', hmem, rfl⟩ _ _ hdata
    have hfault : f.fault = .tooDeep := by
      by_contra hfault
      exact hkind ((Failure.kind_toError_eq_incomplete_iff _).2 ⟨hfault, by simp [hend]⟩)
    rwa [show f = ⟨.tooDeep, []⟩ by rw [← hfault, ← hend]] at hstall
  · intro hstall
    have hmend : (⟨.tooDeep, []⟩ : Failure).Mendable text.toList := by
      intro _ hquote
      rw [hline] at hquote
      cases hquote
    obtain ⟨more, data, hdata⟩ := hstall.completable rfl hmend
    refine ⟨⟨String.ofList more, data, ?_⟩, _, readAllChars_error_iff.2 ⟨_, hstall, rfl⟩, ?_⟩
    · rw [readAll_append, String.toList_ofList, hdata]
    · rw [Failure.kind_toError, if_pos rfl]
      exact nofun

/-- As many open parentheses as there are levels, and a new line. -/
def fullDepth : String := String.ofList (List.replicate maxLevels '(' ++ ['\n'])

/-- The theorem applies to a line of open parentheses. -/
theorem readAll_given_up_iff_full_depth : fullDepth.toList.getLast? = some '\n' ∧
    (((∃ more data, readAll (fullDepth ++ more) = .ok data) ∧
      ∃ e, readAll fullDepth = .error e ∧ e.kind ≠ .incomplete) ↔
        Stalls fullDepth.toList ⟨.tooDeep, []⟩) := by
  have hline : fullDepth.toList.getLast? = some '\n' := by
    rw [fullDepth, String.toList_ofList, List.getLast?_concat]
  exact ⟨hline, readAll_given_up_iff hline⟩

/-- Parentheses that open all levels leave none for what has to follow, be it nothing. -/
lemma fails_open (levels : Nat) : Fails comments (levels + 1)
    (List.replicate (levels + 1) '(' ++ ['\n']) ⟨.tooDeep, []⟩ := by
  have hopen (text : List Char) : skip comments ('(' :: text) = '(' :: text :=
    skip_of_begin rfl (by decide)
  induction levels with
  | zero =>
    have hline : skip comments ['\n'] = [] := rfl
    rw [fails_succ_iff, List.replicate_succ, List.cons_append, hopen]
    refine .list (.nil _) (.item ?_ (by simp) ?_)
    · exact fun rest heq => by cases hline.symm.trans heq
    · exact congrArg (Failure.mk .tooDeep) hline.symm
  | succ levels ih =>
    rw [fails_succ_iff, List.replicate_succ, List.cons_append, hopen]
    refine .list (.nil _) (.item ?_ (by simp) (fails_skip_iff.2 ih))
    rw [List.replicate_succ, List.cons_append, hopen]
    simp

/-- A line of open parentheses is given up as too deeply nested, although as many closing ones
make it a datum. -/
theorem readAll_full_depth : fullDepth.toList.getLast? = some '\n' ∧
    (∃ more data, readAll (fullDepth ++ more) = .ok data) ∧
      ∃ e, readAll fullDepth = .error e ∧ e.kind = .tooDeeplyNested := by
  have hlist : fullDepth.toList = List.replicate maxLevels '(' ++ ['\n'] := String.toList_ofList
  have hline : fullDepth.toList.getLast? = some '\n' := by rw [hlist, List.getLast?_concat]
  have hopen : skip true fullDepth.toList = fullDepth.toList := by
    rw [hlist]
    exact skip_of_begin rfl (by decide)
  have hstall : Stalls fullDepth.toList ⟨.tooDeep, []⟩ := by
    refine ⟨[], _, .nil _, ?_, fails_skip_iff.2 ?_⟩
    · rw [hopen, hlist]
      exact List.append_ne_nil_of_right_ne_nil _ (by simp)
    · rw [hlist]
      exact fails_open 63
  obtain ⟨more, data, hdata⟩ := hstall.completable rfl (by simp [Failure.Mendable, hline])
  refine ⟨hline, ⟨String.ofList more, data, ?_⟩, _, readAllChars_error_iff.2 ⟨_, hstall, rfl⟩, ?_⟩
  · rw [readAll_append, String.toList_ofList, hdata]
  · rw [Failure.kind_toError, if_pos rfl]

end HostedLisp.Datum
