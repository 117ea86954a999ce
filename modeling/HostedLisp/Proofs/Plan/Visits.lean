import HostedLisp.Interpreter
import HostedLisp.Proofs.Machine.Mirroring

/-!
# Visits

An expression is visited when its evaluation is let in below the limit. The visits of a run are
listed in their order, those of the requests inside other requests among them, whether the run has
a result or is halted: `Interpreter.visits`. Machines that mirror each other make the same visits:
`Machine.Mirrors.visits_execute`.
-/

namespace HostedLisp

variable {α : Type} {R : State → State → Prop}

/-- An expression, and its text at the time of the visit. -/
abbrev Visit := Value × String

namespace Plan

/-- The visits while a plan is carried out, if those made for a single request are `inside` it. -/
def visits (answer : Answer) (inside : Request → State → List Visit) : Plan α → List Visit
  | stop _ _ => []
  | ask r s next =>
    inside r s ++
      match answer r s with
      | (.ok value, t) => (next (.ok value) t).visits answer inside
      | (.error (.error e), t) => (next (.error e) t).visits answer inside
      | (.error _, _) => []

section Ask

variable {answer : Answer} {inside : Request → State → List Visit} {r : Request} {s t : State}
  {next : Except Error Value → State → Plan α}

lemma visits_ask_answered {a : Except Error Value} (h : answer r s = .answered a t) :
    (ask r s next).visits answer inside = inside r s ++ (next a t).visits answer inside := by
  rw [visits, h]
  cases a <;> rfl

lemma visits_ask_fault (h : answer r s = (.error .fault, t)) :
    (ask r s next).visits answer inside = inside r s := by
  rw [visits, h]
  exact List.append_nil _

lemma visits_ask_exhausted (h : answer r s = (.error .exhausted, t)) :
    (ask r s next).visits answer inside = inside r s := by
  rw [visits, h]
  exact List.append_nil _

end Ask

/-- Plans that match make the same visits if the requests that are asked are answered alike and
have the same visits inside them. -/
theorem Matches.visits {answer answer' : Answer} {inside inside' : Request → State → List Visit}
    {post : Except Halt α → State → State → Prop} {p p' : Plan α} (hp : p.Matches R post p')
    (hanswer : ∀ q u v, p.Asks answer q u → R u v →
      Outcome.Matches (fun _ => R) (answer q u) (answer' q v))
    (hinside : ∀ q u v, p.Asks answer q u → R u v → inside q u = inside' q v) :
    p.visits answer inside = p'.visits answer' inside' := by
  induction hp with
  | stop => rfl
  | @ask r s t next next' hst _ ih =>
    obtain ⟨hresult, hstates⟩ := hanswer r s t (Or.inl ⟨rfl, rfl⟩) hst
    have hfirst := hinside r s t (Or.inl ⟨rfl, rfl⟩) hst
    have hsame : answer' r t = ((answer r s).1, (answer' r t).2) := Prod.ext hresult.symm rfl
    obtain ⟨a, u, hu⟩ | ⟨u, hu⟩ | ⟨u, hu⟩ := (answer r s).cases
    · rw [hu] at hsame hstates
      rw [visits_ask_answered hu, visits_ask_answered hsame, hfirst,
        ih a u _ hstates (fun q w w' hq => hanswer q w w' (Or.inr ⟨a, u, hu, hq⟩))
          fun q w w' hq => hinside q w w' (Or.inr ⟨a, u, hu, hq⟩)]
    · rw [hu] at hsame
      rw [visits_ask_fault hu, visits_ask_fault hsame, hfirst]
    · rw [hu] at hsame
      rw [visits_ask_exhausted hu, visits_ask_exhausted hsame, hfirst]

end Plan

namespace Machine

/-- The visit that serving a request begins with: an expression that the limit lets in. -/
def entered (m : Machine) : Request → State → List Visit
  | .eval expr _, s => if s.depth < m.config.maxDepth then [(expr, s.heap.render expr)] else []
  | _, _ => []

/-- The visits while a request is answered, as far as the fuel lasts. -/
def visits (m : Machine) : Nat → Request → State → List Visit
  | 0, _, _ => []
  | fuel + 1, r, s => m.entered r s ++ (m.serve r s).visits (m.perform fuel) (m.visits fuel)

namespace Mirrors

variable {allowed : Request → Prop} {m m' : Machine} (h : Mirrors R allowed m m')

include h

lemma entered {s t : State} (r : Request) (hst : R s t) : m.entered r s = m'.entered r t := by
  cases r with
  | eval expr frame =>
    unfold Machine.entered
    dsimp only
    rw [h.maxDepth, h.coupling.depth hst, h.coupling.heap hst]
  | _ => rfl

/-- Requests have the same visits inside them if all requests inside them are allowed. -/
lemma visits {r : Request} {s t : State} (fuel : Nat)
    (hr : ∀ y, Relation.ReflTransGen m.Asks (r, s) y → allowed y.1) (hst : R s t) :
    m.visits fuel r s = m'.visits fuel r t := by
  induction fuel generalizing r s t with
  | zero => rfl
  | succ fuel ih =>
    have hbelow {q : Request} {u : State} (hq : (m.serve r s).Asks (m.perform fuel) q u) :
        ∀ y, Relation.ReflTransGen m.Asks (q, u) y → allowed y.1 :=
      fun y hy => hr y (hy.head ⟨fuel, hq⟩)
    rw [Machine.visits, Machine.visits, h.entered r hst]
    congr 1
    exact (h.serve (hr _ .refl) s t hst).visits
      (fun q u v hq huv => h.perform fuel (hbelow hq) huv) fun q u v hq huv => ih (hbelow hq) huv

/-- Plans that match make the same visits if all requests that come up are allowed. -/
theorem visits_execute {post : Except Halt α → State → State → Prop} {p p' : Plan α} (fuel : Nat)
    (hp : p.Matches R post p') (hallowed : ∀ y, m.Reaches p y → allowed y.1) :
    p.visits (m.perform fuel) (m.visits fuel) = p'.visits (m'.perform fuel) (m'.visits fuel) := by
  have hbelow {q : Request} {u : State} (hq : p.Asks (m.perform fuel) q u) :
      ∀ y, Relation.ReflTransGen m.Asks (q, u) y → allowed y.1 :=
    fun y hy => hallowed y ⟨_, ⟨fuel, hq⟩, hy⟩
  exact hp.visits (fun q u v hq huv => h.perform fuel (hbelow hq) huv)
    fun q u v hq huv => h.visits fuel (hbelow hq) huv

end Mirrors

end Machine

/-- The visits while a program runs, as far as the fuel lasts. -/
def Interpreter.visits {α : Type} (i : Interpreter) (fuel : Nat) (p : Program α) : List Visit :=
  (p.run i.state).visits (i.machine.perform fuel) (i.machine.visits fuel)

end HostedLisp
