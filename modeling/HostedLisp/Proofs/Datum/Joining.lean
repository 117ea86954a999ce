import HostedLisp.Proofs.Datum.Failures

/-!
# Texts one after the other

A new line ends the last token of a text, the gap after it, and a comment in that gap. So two texts
that are read on their own are read as a whole with a new line between them, and to read one datum
is to read all data where there is one. Main statement: `readAll_joined`.
-/

namespace HostedLisp.Datum

variable {text start close more : List Char} {data : List Datum} {d : Datum}

/-- Data up to the end of a text are found after a gap too. -/
lemma exists_leads_of_gap (hgap : Gap true text start) (hlead : Leads start data close)
    (hend : Gap true close []) : ∃ close', Leads text data close' ∧ Gap true close' [] := by
  cases hlead with
  | nil => exact ⟨text, .nil _, hgap.trans hend⟩
  | cons hstart hd hitems => exact ⟨close, .cons (hgap.trans hstart) hd hitems, hend⟩

/-- What leads a text leads every longer one in which a new line comes next. -/
lemma leads_append_line (hlead : Leads text data close) (more : List Char) :
    Leads (text ++ '\n' :: more) data (close ++ '\n' :: more) :=
  hlead.append (fun _ _ _ _ hd hmore => hd.append hmore) (fun _ _ _ => Denotes.ne_nil)
    fun _ => .of_delimiter rfl

lemma readAllChars_append_line {others : List Datum} (hfirst : readAllChars text = .ok data)
    (hsecond : readAllChars more = .ok others) :
    readAllChars (text ++ '\n' :: more) = .ok (data ++ others) := by
  obtain ⟨close, hlead, hend⟩ := readAllChars_iff.1 hfirst
  obtain ⟨close', hlead', hend'⟩ := readAllChars_iff.1 hsecond
  obtain ⟨last, hrest, hlast⟩ := exists_leads_of_gap (hend.append_line more) hlead' hend'
  exact readAllChars_iff.2 ⟨last, (leads_append_line hlead more).trans hrest, hlast⟩

/-- A text is one datum between gaps exactly if it is data of which there is one. -/
lemma sentence_iff_leads :
    Sentence Atom true text d ↔ ∃ close, Leads text [d] close ∧ Gap true close [] := by
  constructor
  · rintro ⟨start, rest, hgap, hd, hend⟩
    exact ⟨rest, .cons hgap hd (.nil _), hend⟩
  · rintro ⟨close, hlead, hend⟩
    cases hlead with
    | cons hgap hd hitems =>
      cases hitems
      exact ⟨_, _, hgap, hd, hend⟩

/-- Reading is compositional. Two texts that are read, with a new line between them, are read as the
data of the first one and then those of the second one. A text is read as one datum exactly if
reading all its data gives this one and no other. -/
theorem readAll_joined :
    (∀ (s t : String) (data others : List Datum), readAll s = .ok data → readAll t = .ok others →
      readAll (s ++ "\n" ++ t) = .ok (data ++ others)) ∧
    ∀ (s : String) (d : Datum), read s = .ok d ↔ readAll s = .ok [d] := by
  constructor
  · intro s t data others hs ht
    have htext : (s ++ "\n" ++ t).toList = s.toList ++ '\n' :: t.toList := by
      rw [String.toList_append, String.toList_append, List.append_assoc]
      rfl
    rw [readAll, htext]
    exact readAllChars_append_line hs ht
  · intro s d
    calc read s = .ok d
      _ ↔ Sentence Atom true s.toList d := readChars_iff
      _ ↔ ∃ close, Leads s.toList [d] close ∧ Gap true close [] := sentence_iff_leads
      _ ↔ readAll s = .ok [d] := readAllChars_iff.symm

/-- A text that ends in a comment and one that begins with a string, on two lines. -/
theorem readAll_joined_comment :
    readAll "a ; b" = .ok [.sym ⟨"a"⟩] ∧ readAll "\"c\"" = .ok [.str "c"] ∧
      readAll ("a ; b" ++ "\n" ++ "\"c\"") = .ok [.sym ⟨"a"⟩, .str "c"] ∧
      read "a ; b" = .ok (.sym ⟨"a"⟩) :=
  ⟨rfl, rfl, readAll_joined.1 "a ; b" "\"c\"" _ _ rfl rfl, (readAll_joined.2 "a ; b" _).2 rfl⟩

end HostedLisp.Datum
