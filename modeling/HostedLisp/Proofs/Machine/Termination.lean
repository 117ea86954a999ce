import HostedLisp.Proofs.Machine.Standard
import HostedLisp.Proofs.Plan.Requests
import Mathlib.Data.Prod.Lex
import Mathlib.Order.OrderIsoNat

/-!
# When evaluations come to an end

The evaluations under way are limited, and a primitive that calls functions calls them with fewer
arguments than it has itself. The primitives that sort are the exception: one of them can compare
with another, or with itself, over and over without a single evaluation. So an evaluation comes to
its end exactly if it does not descend into calls of these forever: `Interpreter.eval_ends_iff`.
-/

namespace HostedLisp

namespace Machine

open Run

variable {m : Machine} {natives : List Native}

/-- How much is left to ask for: the evaluations that may still begin inside each other, and within
one of them the weight of the request. -/
def rank (limit : Nat) (x : Request × State) : ℕ ×ₗ ℕ :=
  toLex (limit - x.2.depth, x.1.weight)

/-- A request asks only for what ranks below it, or with it if it is a call that sorts. -/
theorem serve_meets (hm : m.Provides natives) (r : Request) (s : State)
    (h : (order (Provided natives)).may r s) :
    (m.serve r s).Meets
      ((order (Provided natives)).within fun q u =>
        rank m.config.maxDepth (q, u) ≤ rank m.config.maxDepth (r, s) ∧
          (¬r.CallsSort → rank m.config.maxDepth (q, u) < rank m.config.maxDepth (r, s)))
      ((order (Provided natives)).gives r s) := by
  obtain ⟨hr, hs⟩ := h
  by_cases heval : ∃ expr frame, r = .eval expr frame
  · obtain ⟨expr, frame, rfl⟩ := heval
    have hbegin : (begin s).Over (Provided natives) ∧ (begin s).depth = s.depth := by
      unfold begin
      split
      · exact ⟨⟨hs.heap, hs.substitute⟩, rfl⟩
      · exact ⟨hs, rfl⟩
    change (m.evaluate expr frame s).Meets _ _
    unfold evaluate
    dsimp only
    split
    · exact ⟨hbegin.1, hbegin.2, nofun⟩
    · next hlimit =>
      rw [hbegin.2] at hlimit ⊢
      refine Plan.Meets.atEnd ?_
      have hinner : State.Over (Provided natives) { begin s with depth := s.depth + 1 } :=
        ⟨hbegin.1.heap, hbegin.1.substitute⟩
      have hkeeps : (m.evalWithin expr frame).Keeps (Provided natives) (s.depth + 1)
          (fun _ => True) (Value.Over (Provided natives)) := evalWithin_keeps hm hr
      refine ((hkeeps _ hinner rfl).widen fun q u hq => ?_).post_mono fun result t ht => ?_
      · have hlt :
            rank m.config.maxDepth (q, u) < rank m.config.maxDepth (.eval expr frame, s) := by
          refine Prod.Lex.toLex_lt_toLex.2 (Or.inl ?_)
          have hdepth : u.depth = s.depth + 1 := hq.2
          dsimp only
          omega
        exact ⟨hlt.le, fun _ => hlt⟩
      · refine ⟨⟨ht.1.heap, ht.1.substitute⟩, ?_, ht.2.2⟩
        change t.depth - 1 = s.depth
        have hdepth : t.depth = s.depth + 1 := ht.2.1
        omega
  · have hne : ∀ expr frame, r ≠ .eval expr frame := by simpa using heval
    refine (serve_keeps hm hr hne s hs rfl).widen fun q u hq => ?_
    obtain ⟨hweight, hdepth⟩ := hq
    have hbound := r.bound_le_weight
    simp only [rank, hdepth]
    constructor
    · refine Prod.Lex.toLex_le_toLex.2 (Or.inr ⟨rfl, ?_⟩)
      exact hweight.trans hbound
    · intro hsort
      refine Prod.Lex.toLex_lt_toLex.2 (Or.inr ⟨rfl, ?_⟩)
      exact hweight.trans_lt (Request.bound_lt_weight hne hsort)

lemma serve_order (hm : m.Provides natives) (r : Request) (s : State)
    (h : (order (Provided natives)).may r s) :
    (m.serve r s).Meets (order (Provided natives)) ((order (Provided natives)).gives r s) :=
  (serve_meets hm r s h).of_within

lemma Asks.rank_le (hm : m.Provides natives) {x y : Request × State} (h : m.Asks x y)
    (hx : (order (Provided natives)).may x.1 x.2) :
    (order (Provided natives)).may y.1 y.2 ∧ rank m.config.maxDepth y ≤ rank m.config.maxDepth x ∧
      (¬x.1.CallsSort → rank m.config.maxDepth y < rank m.config.maxDepth x) := by
  obtain ⟨fuel, h⟩ := h
  have hperform := perform_meets (serve_order hm) fuel
  exact (serve_meets hm x.1 x.2 hx).may_of_asks (fun r s hr => hperform r s hr.1) h

/-- An endless chain of requests inside requests calls primitives that sort from some request
on. -/
theorem endless_chain_sorts (hm : m.Provides natives) {chain : ℕ → Request × State}
    (h0 : (order (Provided natives)).may (chain 0).1 (chain 0).2)
    (hchain : ∀ n, m.Asks (chain n) (chain (n + 1))) :
    ∃ n, ∀ k ≥ n, (chain k).1.CallsSort := by
  have hmay (n : ℕ) : (order (Provided natives)).may (chain n).1 (chain n).2 := by
    induction n with
    | zero => exact h0
    | succ n ih => exact ((hchain n).rank_le hm ih).1
  have hstep (n : ℕ) := ((hchain n).rank_le hm (hmay n)).2
  have hanti : Antitone fun n => rank m.config.maxDepth (chain n) :=
    antitone_nat_of_succ_le fun n => (hstep n).1
  -- Ranks cannot sink forever, and each request that does not sort makes them sink.
  obtain ⟨n, hn⟩ := WellFoundedLT.antitone_chain_condition hanti
  refine ⟨n, fun k hk => ?_⟩
  by_contra hsort
  have hlt := (hstep k).2 hsort
  rw [← hn k hk, ← hn (k + 1) (by omega)] at hlt
  exact lt_irrefl _ hlt

/-- A request of the machine is answered, without a fault, for some stock of fuel, exactly if there
is no endless chain of requests inside it that sort from some request on. -/
theorem answered_iff (hm : m.Provides natives) {r : Request} {s : State}
    (h : (order (Provided natives)).may r s) :
    (∃ fuel result t, m.perform fuel r s = .answered result t) ↔
      ¬∃ chain : ℕ → Request × State, chain 0 = (r, s) ∧
        (∀ n, m.Asks (chain n) (chain (n + 1))) ∧ ∃ n, ∀ k ≥ n, (chain k).1.CallsSort := by
  have hends : (∃ fuel result t, m.perform fuel r s = .answered result t) ↔ m.Ends (r, s) := by
    constructor
    · rintro ⟨fuel, result, t, heq⟩
      exact ⟨fuel, heq ▸ Outcome.answered_ne_exhausted result t⟩
    · rintro ⟨fuel, hfuel⟩
      have hmeets := perform_meets (serve_order hm) fuel r s h
      obtain ⟨result, t, heq⟩ | ⟨t, heq⟩ | ⟨t, heq⟩ := (m.perform fuel r s).cases
      · exact ⟨fuel, result, t, heq⟩
      · rw [heq] at hmeets
        exact hmeets.elim
      · exact absurd (congrArg Prod.fst heq) hfuel
  rw [hends, ← not_iff_not, not_not, not_ends_iff_endless_chain (serve_order hm) h]
  constructor
  · rintro ⟨chain, h0, hchain⟩
    refine ⟨chain, h0, hchain, endless_chain_sorts hm ?_ hchain⟩
    rw [h0]
    exact h
  · rintro ⟨chain, h0, hchain, -⟩
    exact ⟨chain, h0, hchain⟩

end Machine

lemma Program.run_eval (expr : Value) (frame : FrameId) :
    (Program.eval expr frame).run = Run.request (.eval expr frame) :=
  bind_pure (Run.request (.eval expr frame))

namespace Interpreter

lemma eval_result (i : Interpreter) (fuel : Nat) (expr : Value) (frame : FrameId) :
    (i.eval fuel expr frame).1 = (i.machine.perform fuel (.eval expr frame) i.state).1 := by
  rw [eval, run, carryOut, Program.run_eval, Run.request_execute]

lemma eval_state (i : Interpreter) (fuel : Nat) (expr : Value) (frame : FrameId) :
    (i.eval fuel expr frame).2.state =
      (i.machine.perform fuel (.eval expr frame) i.state).2 := by
  rw [eval, run, carryOut, Program.run_eval, Run.request_execute]

/-- With the standard primitives, in any state and whatever the limit is, an evaluation ends in a
value or an error exactly if it does not descend forever into calls of primitives that sort. Every
other chain of requests inside requests is cut off. -/
theorem eval_ends_iff {i : Interpreter} (hi : i.Has standardNatives) {expr : Value}
    (hexpr : expr.Over (Provided standardNatives)) (frame : FrameId) :
    (∃ fuel, ∃ result : Except Error Value,
        (i.eval fuel expr frame).1 = result.mapError Halt.error) ↔
      ¬∃ chain : ℕ → Request × State, chain 0 = (.eval expr frame, i.state) ∧
        (∀ n, i.machine.Asks (chain n) (chain (n + 1))) ∧ ∃ n, ∀ k ≥ n, (chain k).1.CallsSort := by
  have hm : i.machine.Provides standardNatives := hi.provides
  have hmay : (order (Provided standardNatives)).may (.eval expr frame) i.state :=
    ⟨hexpr, hi.state⟩
  rw [← Machine.answered_iff hm hmay]
  simp only [eval_result]
  constructor
  · rintro ⟨fuel, result, h⟩
    exact ⟨fuel, result, _, Prod.ext h rfl⟩
  · rintro ⟨fuel, result, t, h⟩
    exact ⟨fuel, result, congrArg Prod.fst h⟩

end Interpreter

/-! ### A chain that is not cut off -/

/-- The primitive that sorts lists and vectors. -/
def sortPrimitive : Primitive := ⟨67, "sort", .exactly 2, .function⟩

lemma standardNatives_sort :
    standardNatives[67]? = some (Sequence.sorting "sort" Sequence.ofAny) := rfl

lemma sortPrimitive_provided : Provided standardNatives sortPrimitive :=
  ⟨_, standardNatives_sort, rfl⟩

/-- Sorting two items begins with their comparison, the second one first. -/
lemma Sequence.mergeSort_two (less a b : Value) (frame : FrameId) :
    ∃ next, mergeSort less frame [a, b] = .ask (.apply less [b, a] frame) next := by
  have hone (v : Value) : mergeSort less frame [v] = .done [v] := by
    rw [mergeSort]
    rfl
  rw [mergeSort]
  simp only [List.length_cons, List.length_nil, Nat.reduceAdd, Nat.reduceLeDiff, if_false,
    Nat.reduceDiv, List.take, List.drop, hone, Program.done_bind, merge, Program.apply,
    Program.request, Program.bind]
  exact ⟨_, rfl⟩

namespace Machine

open Run

variable {m : Machine}

/-- The call that sorts a vector by the primitive that sorts. -/
def sortCall (id : VectorId) (frame : FrameId) : Request :=
  .apply (.primitive sortPrimitive) [.vector id, .primitive sortPrimitive] frame

/-- If the vector holds that primitive and itself, the comparison is the same call again. -/
lemma serve_sortCall (hm : m.Provides standardNatives) {s : State} {id : VectorId}
    (hv : s.heap.vector id = #[.primitive sortPrimitive, .vector id]) (frame : FrameId) :
    ∃ next, m.serve (sortCall id frame) s = .ask (sortCall id frame) s next := by
  have hbody : m.bodies[sortPrimitive.id]? =
      some (Sequence.sorting "sort" Sequence.ofAny).body := by
    rw [← Array.getElem?_toList, hm.bodies, List.getElem?_map]
    rfl
  have hinvoke : m.serve (sortCall id frame) =
      ((Sequence.sorting "sort" Sequence.ofAny).body
        [.vector id, .primitive sortPrimitive] frame).run := by
    have hserve : m.serve (sortCall id frame) =
        m.invoke sortPrimitive [.vector id, .primitive sortPrimitive] frame := rfl
    rw [hserve, invoke, hbody]
    rfl
  obtain ⟨next, hnext⟩ :=
    Sequence.mergeSort_two (.primitive sortPrimitive) (.primitive sortPrimitive) (.vector id) frame
  rw [hinvoke]
  simp only [Sequence.sorting, Native.function, Sequence.ofAny, Program.view,
    Program.bind_eq_bind, Program.bind, Program.run, hv, Sequence.expectFunction,
    Value.isFunction, if_true, hnext]
  exact ⟨_, rfl⟩

/-- No stock of fuel lasts for sorting a vector that holds the primitive that sorts and itself, by
that primitive. -/
theorem sortCall_exhausted (hm : m.Provides standardNatives) {s : State} {id : VectorId}
    (hv : s.heap.vector id = #[.primitive sortPrimitive, .vector id]) (frame : FrameId)
    (fuel : Nat) : m.perform fuel (sortCall id frame) s = (.error .exhausted, s) := by
  induction fuel with
  | zero => rfl
  | succ fuel ih =>
    obtain ⟨next, hnext⟩ := serve_sortCall hm hv frame
    rw [perform_succ, hnext, Plan.execute_ask_exhausted ih]

end Machine

namespace Interpreter

/-- An interpreter whose programs have made a vector of the primitive that sorts and of the vector
itself, and have written down the call that sorts it by that primitive. -/
def regress : Interpreter :=
  (full .standard).changeHeap fun h =>
    let sort := Value.primitive sortPrimitive
    let vector := Value.vector ⟨0⟩
    ((h.newVector [sort, vector]).2.newChain [sort, vector, sort] .nil).2

lemma regress_has : regress.Has standardNatives := by
  have hsort := Value.over_primitive.2 sortPrimitive_provided
  have hslots : AllOver (Provided standardNatives) [.primitive sortPrimitive, .vector ⟨0⟩] := by
    simp [hsort]
  have hcall : AllOver (Provided standardNatives)
      [.primitive sortPrimitive, .vector ⟨0⟩, .primitive sortPrimitive] := by
    simp [hsort]
  have hheap := ((full_has .standard).state.heap.newVector hslots).newChain hcall Value.over_nil
  exact (full_has .standard).changeHeap hheap.2

/-- The state in which the function of that call is called. -/
def regressInner : State :=
  { regress.state with heap := regress.state.heap.setCode .global (.pair ⟨2⟩), depth := 1 }

lemma regressInner_vector :
    regressInner.heap.vector ⟨0⟩ = #[.primitive sortPrimitive, .vector ⟨0⟩] := rfl

/-- Evaluating that call asks for the comparison of the two elements, which is the same call. -/
lemma regress_asks : regress.machine.Asks (.eval (.pair ⟨2⟩) .global, regress.state)
    (Machine.sortCall ⟨0⟩ .global, regressInner) := by
  have hm : regress.machine.Provides standardNatives := regress_has.provides
  refine ⟨1, Plan.Asks.atEnd ?_⟩
  -- Nothing holds the evaluation up; it is noted in the frame and not traced.
  refine Plan.Asks.bind_right (a := none) rfl ?_
  refine Plan.Asks.bind_right (a := ()) rfl ?_
  refine Plan.Asks.bind_right (a := ()) rfl ?_
  refine Plan.Asks.bind_left (Plan.Asks.attempt ?_)
  -- The function and its operands are values already.
  refine Plan.Asks.bind_right (a := .primitive sortPrimitive) rfl ?_
  refine Plan.Asks.bind_right (a := .primitive sortPrimitive) rfl ?_
  refine Plan.Asks.bind_right (a := .pair ⟨1⟩) rfl ?_
  refine Plan.Asks.bind_right (a := some [.vector ⟨0⟩, .primitive sortPrimitive]) rfl ?_
  refine Plan.Asks.bind_right (a := [.vector ⟨0⟩, .primitive sortPrimitive]) rfl ?_
  have hcall : (regress.machine.serve (Machine.sortCall ⟨0⟩ .global) regressInner).Asks
      (regress.machine.perform 1) (Machine.sortCall ⟨0⟩ .global) regressInner := by
    obtain ⟨next, hnext⟩ := Machine.serve_sortCall hm regressInner_vector .global
    rw [hnext]
    exact Or.inl ⟨rfl, rfl⟩
  exact hcall

/-- No stock of fuel lasts for that evaluation. -/
lemma regress_unanswered : ¬∃ fuel, ∃ result : Except Error Value,
    (regress.eval fuel (.pair ⟨2⟩) .global).1 = result.mapError Halt.error := by
  rintro ⟨fuel, result, h⟩
  rw [eval_result] at h
  have hm : regress.machine.Provides standardNatives := regress_has.provides
  have hresult : result.mapError Halt.error ≠ .error .exhausted := by
    cases result <;> nofun
  cases fuel with
  | zero => exact hresult h.symm
  | succ fuel =>
    have hlasts := regress_asks.lasts (h ▸ hresult)
    rw [Machine.sortCall_exhausted hm regressInner_vector .global fuel] at hlasts
    exact hlasts rfl

/-- Not every evaluation ends: there is one without a user that no stock of fuel lasts for. -/
theorem regress_endless : regress.Has standardNatives ∧
    (Value.pair ⟨2⟩).Over (Provided standardNatives) ∧
    regress.state.debugger.interactive = false ∧
    ¬∃ fuel, ∃ result : Except Error Value,
      (regress.eval fuel (.pair ⟨2⟩) .global).1 = result.mapError Halt.error :=
  ⟨regress_has, Value.over_pair _, rfl, regress_unanswered⟩

/-- An interpreter in which it is written down to sort a new vector of two numbers. -/
def sortedTwo : Interpreter :=
  (full .standard).changeHeap fun h =>
    let vector := h.newChain [.sym ⟨"vector"⟩, .int 2, .int 1] .nil
    (vector.2.newChain [.sym ⟨"sort"⟩, vector.1, .sym ⟨"<"⟩] .nil).2

lemma sortedTwo_has : sortedTwo.Has standardNatives := by
  have hitems : AllOver (Provided standardNatives) [.sym ⟨"vector"⟩, .int 2, .int 1] := by simp
  have hvector := (full_has .standard).state.heap.newChain hitems Value.over_nil
  have hcall : AllOver (Provided standardNatives) [.sym ⟨"sort"⟩, .pair ⟨2⟩, .sym ⟨"<"⟩] := by
    simp
  have hheap := hvector.2.newChain hcall Value.over_nil
  exact (full_has .standard).changeHeap hheap.2

/-- Sorting by the order of numbers, with its operands evaluated inside, ends and descends nowhere
forever. Sorting a vector that holds itself by the primitive that sorts does not end, so it descends
into calls that sort forever. -/
theorem eval_ends_iff_sorting : sortedTwo.Has standardNatives ∧ regress.Has standardNatives ∧
    (Value.pair ⟨5⟩).Over (Provided standardNatives) ∧
    (Value.pair ⟨2⟩).Over (Provided standardNatives) ∧
    (sortedTwo.eval 6 (.pair ⟨5⟩) .global).1 = .ok (.vector ⟨1⟩) ∧
    (¬∃ chain : ℕ → Request × State, chain 0 = (.eval (.pair ⟨5⟩) .global, sortedTwo.state) ∧
      (∀ n, sortedTwo.machine.Asks (chain n) (chain (n + 1))) ∧
        ∃ n, ∀ k ≥ n, (chain k).1.CallsSort) ∧
    ∃ chain : ℕ → Request × State, chain 0 = (.eval (.pair ⟨2⟩) .global, regress.state) ∧
      (∀ n, regress.machine.Asks (chain n) (chain (n + 1))) ∧
        ∃ n, ∀ k ≥ n, (chain k).1.CallsSort := by
  have hsorted : (sortedTwo.eval 6 (.pair ⟨5⟩) .global).1 = .ok (.vector ⟨1⟩) := by decide +kernel
  have hends := eval_ends_iff sortedTwo_has (Value.over_pair ⟨5⟩) .global
  have hendless := eval_ends_iff regress_has (Value.over_pair ⟨2⟩) .global
  refine ⟨sortedTwo_has, regress_has, Value.over_pair _, Value.over_pair _, hsorted,
    hends.1 ⟨6, .ok (.vector ⟨1⟩), hsorted⟩, ?_⟩
  by_contra hchain
  exact regress_unanswered (hendless.2 hchain)

end Interpreter

end HostedLisp
