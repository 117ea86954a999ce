import HostedLisp.Proofs.Heap.Chains
import HostedLisp.Proofs.Program.Direct

/-!
# A walk that another one follows

A walk along the tails needs no bound if another one follows it at half its speed: on a chain that
never ends the two are at the same pair some time, and on one that ends they never are. How many
pairs it has visited by then has a bound all the same, so they can be counted in a size:
`Heap.pursueAll_eq`. Main definitions: `Heap.Pursuit`, `Heap.Pursues`. Main statement:
`Heap.pursuit_classifies`.
-/

namespace HostedLisp.Heap

variable {h : Heap} {ids more : List CellId} {id : CellId} {value last : Value}

/-- A walk along the tails, with another one that follows it at half its speed: where both are, how
many pairs the first one has visited, and what these hold. -/
structure Pursuit where
  current : Value
  slow : Value
  steps : Nat
  seen : List Value

namespace Pursuit

def start (value : Value) : Pursuit := ⟨value, value, 0, []⟩

/-- The first walk visits a pair. The other one goes on with every second visit. -/
def advance (h : Heap) (p : Pursuit) (id : CellId) : Pursuit where
  current := (h.cell id).tail
  slow := if (p.steps + 1) % 2 = 0 then h.follow p.slow else p.slow
  steps := p.steps + 1
  seen := p.seen ++ [(h.cell id).head]

/-- Both walks are at the same pair. -/
def meets (p : Pursuit) : Bool :=
  match p.slow, p.current with
  | .pair a, .pair b => a = b
  | _, _ => false

end Pursuit

/-- A walk goes on up to what is no pair, or until the other walk is met. Then it has visited these
heads, and the chain ends in this way. -/
inductive Pursues (h : Heap) : Pursuit → List Value → ChainEnd → Prop
  | ended {p : Pursuit} (hlast : ∀ id, p.current ≠ .pair id) :
      Pursues h p p.seen (.ofLast p.current)
  | met {p : Pursuit} {id : CellId} (hid : p.current = .pair id)
      (hmeets : (p.advance h id).meets = true) : Pursues h p (p.advance h id).seen .circular
  | next {p : Pursuit} {id : CellId} {seen : List Value} {ending : ChainEnd}
      (hid : p.current = .pair id) (hmeets : (p.advance h id).meets = false)
      (hrest : Pursues h (p.advance h id) seen ending) : Pursues h p seen ending

/-- A walk ends in one way. -/
lemma Pursues.unique {p : Pursuit} {seen seen' : List Value} {ending ending' : ChainEnd}
    (hp : h.Pursues p seen ending) (hp' : h.Pursues p seen' ending') :
    seen = seen' ∧ ending = ending' := by
  induction hp with
  | ended hlast =>
    cases hp' with
    | ended => exact ⟨rfl, rfl⟩
    | met hid | next hid => exact absurd hid (hlast _)
  | met hid hmeets =>
    cases hp' with
    | ended hlast => exact absurd hid (hlast _)
    | met hid' =>
      obtain rfl := Value.pair.inj (hid.symm.trans hid')
      exact ⟨rfl, rfl⟩
    | next hid' hmeets' =>
      obtain rfl := Value.pair.inj (hid.symm.trans hid')
      rw [hmeets] at hmeets'
      cases hmeets'
  | next hid hmeets _ ih =>
    cases hp' with
    | ended hlast => exact absurd hid (hlast _)
    | met hid' hmeets' =>
      obtain rfl := Value.pair.inj (hid.symm.trans hid')
      rw [hmeets] at hmeets'
      cases hmeets'
    | next hid' _ hrest' =>
      obtain rfl := Value.pair.inj (hid.symm.trans hid')
      exact ih hrest'

namespace Pursuit

/-- After visiting these pairs. -/
structure Visited (h : Heap) (value : Value) (ids : List CellId) (p : Pursuit) : Prop where
  current : h.Spine ids value p.current
  slow : p.slow = h.follow^[ids.length / 2] value
  steps : p.steps = ids.length
  seen : p.seen = h.heads ids

variable {p : Pursuit}

lemma visited_start (h : Heap) (value : Value) : Visited h value [] (.start value) :=
  ⟨rfl, rfl, rfl, rfl⟩

lemma Visited.advance (hp : Visited h value ids p) (hid : p.current = .pair id) :
    Visited h value (ids ++ [id]) (p.advance h id) where
  current := (hid ▸ hp.current).snoc
  slow := by
    rw [Pursuit.advance, hp.slow, hp.steps, List.length_append, List.length_singleton]
    split
    case isTrue heven =>
      have hhalf : (ids.length + 1) / 2 = ids.length / 2 + 1 := by omega
      rw [hhalf, Function.iterate_succ_apply']
    case isFalse hodd =>
      have hhalf : (ids.length + 1) / 2 = ids.length / 2 := by omega
      rw [hhalf]
  steps := by rw [List.length_append, ← hp.steps]; rfl
  seen := by rw [heads_append, ← hp.seen]; rfl

lemma meets_iff : p.meets = true ↔ ∃ id, p.slow = .pair id ∧ p.current = .pair id := by
  rw [meets]
  cases p.slow <;> cases p.current <;> simp [eq_comm]

/-- The two are at the same pair if the chain has the same pair at two places, one twice as far as
the other. -/
lemma Visited.meets_iff (hp : Visited h value ids p) : p.meets = true ↔
    ∃ id, h.follow^[ids.length / 2] value = .pair id ∧ h.follow^[ids.length] value = .pair id := by
  rw [Pursuit.meets_iff, hp.slow, hp.current.iterate.1]

end Pursuit

/-! ### Walks to the end -/

open Pursuit Program

/-- The loop of the walk. The pairs are counted in a size, of which no more than `most` fit into; it
is at fault if they are not enough, or the rounds. -/
def pursue (h : Heap) (most : Nat) : Nat → Pursuit → Program (List Value × ChainEnd)
  | 0, _ => .fault
  | rounds + 1, p =>
    match p.current with
    | .pair id => (sumUpTo most p.steps 1).bind fun steps =>
      let q := { p.advance h id with steps := steps }
      if q.meets then .done (q.seen, .circular) else h.pursue most rounds q
    | last => .done (p.seen, .ofLast last)

variable {most rounds : Nat} {p : Pursuit}

lemma pursue_last (hlast : ∀ id, p.current ≠ .pair id) :
    h.pursue most (rounds + 1) p = .done (p.seen, .ofLast p.current) := by
  rw [pursue]
  cases hcurrent : p.current with
  | pair id => exact absurd hcurrent (hlast id)
  | _ => rfl

lemma pursue_pair (hid : p.current = .pair id) (hmost : p.steps < most) :
    h.pursue most (rounds + 1) p =
      if (p.advance h id).meets then .done ((p.advance h id).seen, .circular)
      else h.pursue most rounds (p.advance h id) := by
  rw [pursue, hid]
  dsimp only
  rw [sumUpTo_of_le hmost, done_bind]
  rfl

/-- If the loop comes to its end, it has walked as it should. -/
lemma pursues_of_pursue {seen : List Value} {ending : ChainEnd}
    (hdone : h.pursue most rounds p = .done (seen, ending)) : h.Pursues p seen ending := by
  induction rounds generalizing p with
  | zero => cases hdone
  | succ rounds ih =>
    by_cases hlast : ∀ id, p.current ≠ .pair id
    · rw [pursue_last hlast] at hdone
      cases hdone
      exact .ended hlast
    · obtain ⟨id, hid⟩ : ∃ id, p.current = .pair id := by simpa using hlast
      by_cases hmost : p.steps < most
      · rw [pursue_pair hid hmost] at hdone
        cases hmeets : (p.advance h id).meets with
        | true =>
          rw [hmeets, if_pos rfl] at hdone
          cases hdone
          exact .met hid hmeets
        | false =>
          rw [hmeets, if_neg Bool.false_ne_true] at hdone
          exact .next hid hmeets (ih hdone)
      · have hfault : h.pursue most (rounds + 1) p = .fault := by
          rw [pursue, hid]
          dsimp only
          rw [sumUpTo, rely, if_neg (by omega)]
          rfl
        rw [hfault] at hdone
        cases hdone

/-- A walk goes on to the end of a chain that has one, and never meets the other. -/
lemma pursue_of_spine (hp : Visited h value ids p) (hs : h.Spine (ids ++ more) value last)
    (hlast : ∀ id, last ≠ .pair id) (hmost : (ids ++ more).length ≤ most)
    (hrounds : more.length < rounds) :
    h.pursue most rounds p = .done (h.heads (ids ++ more), .ofLast last) := by
  obtain ⟨rounds, rfl⟩ := Nat.exists_eq_add_of_lt hrounds
  induction more generalizing ids p with
  | nil =>
    rw [List.append_nil] at hs ⊢
    have hcurrent : p.current = last := hp.current.iterate.1.symm.trans hs.iterate.1
    rw [← hp.seen, ← hcurrent]
    exact pursue_last (hcurrent ▸ hlast)
  | cons id more ih =>
    have hcurrent : p.current = .pair id := by
      obtain ⟨middle, hmiddle, rfl, -⟩ := spine_append_iff.1 hs
      exact hp.current.iterate.1.symm.trans hmiddle.iterate.1
    have hnext : Visited h value (ids ++ [id]) (p.advance h id) := hp.advance hcurrent
    have happart : (p.advance h id).meets = false := by
      rw [← Bool.not_eq_true, hnext.meets_iff, List.length_append, List.length_singleton]
      rintro ⟨other, hslow, hfast⟩
      exact hs.ne_of_lt hlast (by omega) hslow hfast
    have hsteps : p.steps < most := by
      rw [hp.steps]
      rw [List.length_append, List.length_cons] at hmost
      omega
    rw [List.append_cons] at hs hmost ⊢
    rw [pursue_pair hcurrent hsteps, happart, if_neg Bool.false_ne_true, List.length_cons,
      Nat.add_right_comm]
    exact ih hnext hs hmost (by omega)

/-- On a chain that never ends the two are at the same pair some time, before the first walk has
visited twice as many as there are. -/
lemma Endless.exists_meeting (hv : h.Endless value) :
    ∃ n, 0 < n ∧ n ≤ 2 * h.cells.size ∧ h.follow^[n / 2] value = h.follow^[n] value := by
  obtain ⟨i, j, hij, hj, heq⟩ := hv.exists_repeat
  -- a whole number of rounds apart, the slower walk being just past the first `i` pairs
  let rounds := (j - i) * (i / (j - i) + 1)
  have hpast : i < rounds := Nat.lt_mul_div_succ i (Nat.sub_pos_of_lt hij)
  have hnear : rounds ≤ j := by
    have hdiv : (j - i) * (i / (j - i)) ≤ i := Nat.mul_div_le i (j - i)
    have hrounds : rounds = (j - i) * (i / (j - i)) + (j - i) := Nat.mul_succ _ _
    omega
  have hperiodic : Function.IsPeriodicPt h.follow (j - i) (h.follow^[rounds] value) := by
    have hfrom := (isPeriodicPt_of_repeat hij heq).apply_iterate (rounds - i)
    rwa [← Function.iterate_add_apply, Nat.sub_add_cancel hpast.le] at hfrom
  refine ⟨rounds + rounds, by omega, by omega, ?_⟩
  rw [show (rounds + rounds) / 2 = rounds by omega, Function.iterate_add_apply]
  exact (hperiodic.mul_const (i / (j - i) + 1)).eq.symm

/-- Up to there the walk goes on, unless it has met the other one before. -/
lemma pursue_of_meeting {n : Nat} (hv : h.Endless value)
    (hn : h.follow^[n / 2] value = h.follow^[n] value) (hp : Visited h value ids p)
    (hbefore : ids.length < n) (hmost : n ≤ most) (hrounds : n ≤ ids.length + rounds) :
    ∃ seen, h.pursue most rounds p = .done (seen, .circular) := by
  induction rounds generalizing ids p with
  | zero => omega
  | succ rounds ih =>
    obtain ⟨id, hid⟩ := hv ids p.current hp.current
    have hnext : Visited h value (ids ++ [id]) (p.advance h id) := hp.advance hid
    have hlength : (ids ++ [id]).length = ids.length + 1 := List.length_append
    rw [pursue_pair hid (hp.steps ▸ by omega)]
    cases hmeets : (p.advance h id).meets with
    | true => exact ⟨_, if_pos rfl⟩
    | false =>
      -- the meeting is not at the next step, so it is after that
      have hne : ids.length + 1 ≠ n := by
        rintro rfl
        obtain ⟨-, other, -, -, hother⟩ := hv.iterate (ids.length + 1)
        have hsame : (p.advance h id).meets = true :=
          hnext.meets_iff.2 ⟨other, by rw [hlength, hn, hother], by rw [hlength, hother]⟩
        rw [hmeets] at hsame
        cases hsame
      rw [if_neg Bool.false_ne_true]
      exact ih hnext (by omega) (by omega)

/-- No walk visits more pairs than this. -/
def pursuitBound (h : Heap) : Nat := 2 * h.cells.size + 1

/-- The loop of a walk from the start. -/
def pursueAll (h : Heap) (value : Value) : Program (List Value × ChainEnd) :=
  h.pursue h.pursuitBound (h.pursuitBound + 1) (.start value)

lemma pursueAll_of_spine (hs : h.Spine ids value last) (hlast : ∀ id, last ≠ .pair id) :
    h.pursueAll value = .done (h.heads ids, .ofLast last) := by
  have hlength : ids.length ≤ h.cells.size + 1 := hs.length_le hlast
  exact pursue_of_spine (visited_start h value) hs hlast
    (by rw [List.nil_append, pursuitBound]; omega) (by rw [pursuitBound]; omega)

lemma pursueAll_of_endless (hv : h.Endless value) :
    ∃ seen, h.pursueAll value = .done (seen, .circular) := by
  obtain ⟨n, hpos, hle, hn⟩ := hv.exists_meeting
  exact pursue_of_meeting hv hn (visited_start h value) hpos (by rw [pursuitBound]; omega)
    (by rw [pursuitBound, List.length_nil]; omega)

/-- Counting the pairs on the way stays in range, and tells of every value how the chain of its
tails ends, and of one that ends what it holds. -/
theorem pursueAll_eq (h : Heap) (value : Value) :
    ∃ seen, h.pursueAll value = .done (seen, (h.walk value).2) ∧
      ((h.walk value).2 ≠ .circular → seen = (h.walk value).1) := by
  by_cases hv : h.Endless value
  · obtain ⟨seen, hseen⟩ := pursueAll_of_endless hv
    rw [walk_of_endless hv]
    exact ⟨seen, hseen, fun hne => absurd rfl hne⟩
  · rw [endless_iff, not_not] at hv
    obtain ⟨ids, last, hs, hlast⟩ := hv
    rw [walk_of_spine hs hlast]
    exact ⟨_, pursueAll_of_spine hs hlast, fun _ => rfl⟩

/-! ### What the walk tells -/

/-- The elements of a value along which a walk has seen these heads, if it ended as for a list. -/
def listed (h : Heap) (value : Value) (seen : List Value) : ChainEnd → Except Error (List Value)
  | .proper => .ok seen
  | .improper => .error (.type ("expected a proper list, but got " ++ h.render value))
  | .circular =>
    .error (.type ("expected a proper list, but got a circular list " ++ h.render value))

lemma run_listItems (s : State) (value : Value) : (Program.listItems value).run s = .stop
    ((s.heap.listed value (s.heap.walk value).1 (s.heap.walk value).2).mapError .error) s := by
  rw [Program.listItems, Program.run_look]
  obtain ⟨items, ending⟩ := s.heap.walk value
  cases ending <;> rfl

/-- The walk ends for every value, in one way, and tells how the chain of its tails ends and what it
holds. It tells the same as the bounded one, which so decides what is a list and which elements it
has. -/
theorem pursuit_classifies (h : Heap) (value : Value) :
    (∃ seen ending, h.Pursues (.start value) seen ending ∧
      (∀ seen' ending', h.Pursues (.start value) seen' ending' → seen = seen' ∧ ending = ending') ∧
      h.Classifies value seen ending ∧
      ∀ s : State, (Program.listItems value).run { s with heap := h } =
        .stop ((h.listed value seen ending).mapError .error) { s with heap := h }) ∧
    (h.isList value = true ↔ h.Proper value) ∧
    ∀ items, h.listItems? value = some items ↔ h.Holds value items := by
  refine ⟨?_, isList_iff, fun items => listItems?_eq_some_iff⟩
  by_cases hv : h.Endless value
  · obtain ⟨seen, hdone⟩ := pursueAll_of_endless hv
    have hseen : h.Pursues (.start value) seen .circular := pursues_of_pursue hdone
    refine ⟨seen, .circular, hseen, fun _ _ => hseen.unique, classifies_of_endless hv seen,
      fun s => ?_⟩
    rw [run_listItems, walk_of_endless hv]
    rfl
  · rw [endless_iff, not_not] at hv
    obtain ⟨ids, last, hs, hlast⟩ := hv
    have hwalk : h.Pursues (.start value) (h.heads ids) (.ofLast last) :=
      pursues_of_pursue (pursueAll_of_spine hs hlast)
    refine ⟨_, _, hwalk, fun _ _ => hwalk.unique, classifies_of_spine hs hlast, fun s => ?_⟩
    rw [run_listItems, walk_of_spine hs hlast]

end HostedLisp.Heap
