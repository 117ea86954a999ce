import HostedLisp.Proofs.Plan.Requests
import Mathlib.Logic.Relation

/-!
# Plans side by side

Two plans match if they ask the same requests, in states that are related, and end with the same
result, in states that are related too. Carried out side by side they have the same outcome, as
long as the requests that come up are answered alike: `Plan.Matches.execute`.
-/

namespace HostedLisp

variable {α β : Type} {R : State → State → Prop}

namespace Plan

/-- The same requests in states related by `R`, if the answers leave such states behind, and the
same result at the end, with `post`. -/
inductive Matches (R : State → State → Prop) (post : Except Halt α → State → State → Prop) :
    Plan α → Plan α → Prop where
  | stop {result : Except Halt α} {s t : State} (h : post result s t) :
    Matches R post (stop result s) (stop result t)
  | ask {r : Request} {s t : State} {next next' : Except Error Value → State → Plan α}
    (h : R s t) (hnext : ∀ a s t, R s t → Matches R post (next a s) (next' a t)) :
    Matches R post (ask r s next) (ask r t next')

variable {post : Except Halt α → State → State → Prop} {p p' : Plan α}

lemma Matches.post_mono {post' : Except Halt α → State → State → Prop}
    (hp : p.Matches R post p') (h : ∀ a s t, post a s t → post' a s t) :
    p.Matches R post' p' := by
  induction hp with
  | stop hpost => exact .stop (h _ _ _ hpost)
  | ask hr _ ih => exact .ask hr ih

lemma Matches.bind {post' : Except Halt β → State → State → Prop} {f f' : α → Run β}
    (hp : p.Matches R post p')
    (hok : ∀ a s t, post (.ok a) s t → (f a s).Matches R post' (f' a t))
    (herr : ∀ e s t, post (.error e) s t → post' (.error e) s t) :
    (p.bind f).Matches R post' (p'.bind f') := by
  induction hp with
  | @stop result s t hpost =>
    cases result with
    | ok a => exact hok a s t hpost
    | error e => exact .stop (herr e s t hpost)
  | ask hr _ ih => exact .ask hr ih

lemma Matches.attempt {post' : Except Halt (Except Error α) → State → State → Prop}
    (hp : p.Matches R post p') (hok : ∀ a s t, post (.ok a) s t → post' (.ok (.ok a)) s t)
    (herr : ∀ e s t, post (.error (.error e)) s t → post' (.ok (.error e)) s t)
    (hhalt : ∀ e s t, post (.error e) s t → post' (.error e) s t) :
    p.attempt.Matches R post' p'.attempt := by
  induction hp with
  | @stop result s t hpost =>
    match result, hpost with
    | .ok a, hpost => exact .stop (hok a s t hpost)
    | .error (.error e), hpost => exact .stop (herr e s t hpost)
    | .error .fault, hpost => exact .stop (hhalt _ s t hpost)
    | .error .exhausted, hpost => exact .stop (hhalt _ s t hpost)
  | ask hr _ ih => exact .ask hr ih

lemma Matches.atEnd {f : State → State}
    (hp : p.Matches R (fun a s t => post a (f s) (f t)) p') :
    (p.atEnd f).Matches R post (p'.atEnd f) := by
  induction hp with
  | stop hpost => exact .stop hpost
  | ask hr _ ih => exact .ask hr ih

end Plan

namespace Outcome

/-- The same result, and related states. -/
def Matches (post : Except Halt α → State → State → Prop) (o o' : Outcome α) : Prop :=
  o.1 = o'.1 ∧ post o.1 o.2 o'.2

end Outcome

/-- Plans that match have the same outcome if the requests that are asked are answered alike. -/
theorem Plan.Matches.execute {answer answer' : Answer}
    {post : Except Halt α → State → State → Prop} {p p' : Plan α} (hp : p.Matches R post p')
    (hhalt : ∀ e s t, R s t → post (.error e) s t)
    (hanswer : ∀ q u v, p.Asks answer q u → R u v →
      Outcome.Matches (fun _ => R) (answer q u) (answer' q v)) :
    Outcome.Matches post (p.execute answer) (p'.execute answer') := by
  induction hp with
  | stop hpost => exact ⟨rfl, hpost⟩
  | @ask r s t next next' hst _ ih =>
    obtain ⟨hresult, hstates⟩ := hanswer r s t (Or.inl ⟨rfl, rfl⟩) hst
    have hsame : answer' r t = ((answer r s).1, (answer' r t).2) := Prod.ext hresult.symm rfl
    obtain ⟨a, u, hu⟩ | ⟨u, hu⟩ | ⟨u, hu⟩ := (answer r s).cases
    · rw [hu] at hsame hstates
      rw [execute_ask_answered hu, execute_ask_answered hsame]
      exact ih a u _ hstates fun q w w' hq hw =>
        hanswer q w w' (Or.inr ⟨a, u, hu, hq⟩) hw
    · rw [hu] at hsame hstates
      rw [execute_ask_fault hu, execute_ask_fault hsame]
      exact ⟨rfl, hhalt _ _ _ hstates⟩
    · rw [hu] at hsame hstates
      rw [execute_ask_exhausted hu, execute_ask_exhausted hsame]
      exact ⟨rfl, hhalt _ _ _ hstates⟩

/-! ### Runs -/

/-- From related states two runs do the same and end in related states. -/
def Run.Matches (R : State → State → Prop) (x y : Run α) : Prop :=
  ∀ s t, R s t → (x s).Matches R (fun _ => R) (y t)

/-- Related states have the same heap and the same number of evaluations under way, and remain
related when these change in both. -/
structure Coupling (R : State → State → Prop) : Prop where
  heap : ∀ {s t}, R s t → t.heap = s.heap
  depth : ∀ {s t}, R s t → t.depth = s.depth
  setHeap : ∀ {s t}, R s t → ∀ h, R { s with heap := h } { t with heap := h }
  setDepth : ∀ {s t}, R s t → ∀ n, R { s with depth := n } { t with depth := n }

namespace Run.Matches

variable {x y : Run α} {f g : α → Run β}

lemma pure (a : α) : (Pure.pure a : Run α).Matches R (Pure.pure a) := fun _ _ h => .stop h

lemma halt (reason : Halt) : (Run.halt reason : Run α).Matches R (Run.halt reason) :=
  fun _ _ h => .stop h

lemma raise (e : Error) : (Run.raise e : Run α).Matches R (Run.raise e) := halt _

lemma bind (hx : x.Matches R y) (hf : ∀ a, (f a).Matches R (g a)) :
    (x >>= f).Matches R (y >>= g) :=
  fun s t h => (hx s t h).bind (fun a s t h => hf a s t h) fun _ _ _ h => h

lemma view {f : State → α} (hf : ∀ s t, R s t → f t = f s) :
    (Run.view f).Matches R (Run.view f) := by
  intro s t h
  change Plan.Matches R _ (.stop (.ok (f s)) s) (.stop (.ok (f t)) t)
  rw [hf s t h]
  exact .stop h

lemma modify {f g : State → State} (hf : ∀ s t, R s t → R (f s) (g t)) :
    (Run.modify f).Matches R (Run.modify g) :=
  fun s t h => .stop (hf s t h)

lemma request (r : Request) : (Run.request r).Matches R (Run.request r) :=
  fun _ _ h => .ask h fun _ _ _ h => .stop h

lemma attempt (hx : x.Matches R y) : (Run.attempt x).Matches R (Run.attempt y) :=
  fun s t h => (hx s t h).attempt (fun _ _ _ h => h) (fun _ _ _ h => h) fun _ _ _ h => h

variable (hR : Coupling R)

include hR

lemma viewHeap (f : Heap → α) :
    (Run.view (f ·.heap)).Matches R (Run.view (f ·.heap)) :=
  view fun _ _ h => congrArg f (hR.heap h)

lemma changeHeap (f : Heap → Heap) : (Run.changeHeap f).Matches R (Run.changeHeap f) :=
  modify fun s t h => by
    rw [hR.heap h]
    exact hR.setHeap h _

/-- A program of the host sees and changes nothing but the heap. -/
theorem program (p : Program α) : p.run.Matches R p.run := by
  induction p with
  | done a => exact pure a
  | fail e => exact raise e
  | fault => exact halt .fault
  | look next ih =>
    intro s t h
    change ((next s.heap).run s).Matches R _ ((next t.heap).run t)
    rw [hR.heap h]
    exact ih s.heap s t h
  | change c next ih =>
    intro s t h
    change ((next (s.heap.apply c).1).run _).Matches R _ ((next (t.heap.apply c).1).run _)
    rw [hR.heap h]
    exact ih _ _ _ (hR.setHeap h _)
  | ask r next ih => exact bind (request r) ih

end Run.Matches

end HostedLisp
