import HostedLisp.Library.Sequence
import HostedLisp.Proofs.Heap.Vocabulary

/-!
# Programs that stay within a vocabulary

A program speaks a vocabulary if it is never at fault, asks only what it may, spreads only words of
the vocabulary and words its messages in it. `Program.Speaks` is the weakest condition for that and
for a result with `post`, whatever the heap is meanwhile and whatever the answers are. The rules
here cover the steps that the libraries are written in.
-/

namespace HostedLisp

open Vocabulary

variable {V : Vocabulary} {may : Request → Prop} {α β : Type}

/-- All words that a request carries are in the vocabulary. -/
def Request.In (V : Vocabulary) : Request → Prop
  | .eval expr _ => expr.In V
  | .apply func args _ => func.In V ∧ AllIn V args
  | .call func operands _ => func.In V ∧ AllIn V operands
  | .pause _ | .setting .. | .print _ | .isPaused | .depth => True

lemma Request.In.mono {W : Vocabulary} (hVW : V.Within W) {r : Request} (hr : r.In V) :
    r.In W := by
  cases r with
  | eval expr frame => exact Value.In.mono hVW hr
  | apply func args frame | call func args frame => exact ⟨hr.1.mono hVW, hr.2.mono hVW⟩
  | _ => exact trivial

namespace Program

/-- Without faults, asking only what `may` allows, with words of the vocabulary, and ending with
`post` or in an error that is worded as messages may be. -/
def Speaks (V : Vocabulary) (may : Request → Prop) (post : α → Prop) : Program α → Prop
  | done a => post a
  | fail e => e.In V
  | fault => False
  | look next => ∀ h : Heap, h.In V → (next h).Speaks V may post
  | change c next => c.In V ∧ ∀ answer, c.AnswerIn V answer → (next answer).Speaks V may post
  | ask r next => (may r ∧ r.In V) ∧ ∀ v, v.In V → (next v).Speaks V may post

section Rules

variable {post : α → Prop}

@[simp] lemma speaks_done {a : α} : (done a).Speaks V may post ↔ post a := Iff.rfl

@[simp] lemma speaks_fail {e : Error} :
    (fail e : Program α).Speaks V may post ↔ e.In V := Iff.rfl

@[simp] lemma speaks_fault : (fault : Program α).Speaks V may post ↔ False := Iff.rfl

@[simp] lemma speaks_look {next : Heap → Program α} :
    (look next).Speaks V may post ↔ ∀ h : Heap, h.In V → (next h).Speaks V may post := Iff.rfl

@[simp] lemma speaks_view {f : Heap → α} :
    (view f).Speaks V may post ↔ ∀ h : Heap, h.In V → post (f h) := Iff.rfl

@[simp] lemma speaks_request {r : Request} {post : Value → Prop} :
    (request r).Speaks V may post ↔ (may r ∧ r.In V) ∧ ∀ v, v.In V → post v := Iff.rfl

@[simp] lemma speaks_bind {p : Program α} {f : α → Program β} {post : β → Prop} :
    (p.bind f).Speaks V may post ↔ p.Speaks V may fun a => (f a).Speaks V may post := by
  induction p with
  | done | fail | fault => rfl
  | look next ih => exact forall_congr' fun h => imp_congr_right fun _ => ih h
  | change c next ih =>
    exact and_congr_right fun _ => forall_congr' fun a => imp_congr_right fun _ => ih a
  | ask r next ih =>
    exact and_congr_right fun _ => forall_congr' fun v => imp_congr_right fun _ => ih v

lemma Speaks.mono {may' : Request → Prop} {post' : α → Prop} {p : Program α}
    (hp : p.Speaks V may post) (hmay : ∀ r, may r → may' r) (hpost : ∀ a, post a → post' a) :
    p.Speaks V may' post' := by
  induction p with
  | done a => exact hpost a hp
  | fail e => exact hp
  | fault => exact hp
  | look next ih => exact fun h hh => ih h (hp h hh)
  | change c next ih => exact ⟨hp.1, fun a ha => ih a (hp.2 a ha)⟩
  | ask r next ih => exact ⟨⟨hmay r hp.1.1, hp.1.2⟩, fun v hv => ih v (hp.2 v hv)⟩

/-- A weaker end. -/
lemma Speaks.imp {post' : α → Prop} {p : Program α} (hp : p.Speaks V may post)
    (hpost : ∀ a, post a → post' a) : p.Speaks V may post' :=
  hp.mono (fun _ h => h) hpost

lemma speaks_ofExcept {result : Except Error α} (h : ∀ a, result = .ok a → post a)
    (herr : ∀ e, result = .error e → e.In V) : (ofExcept result).Speaks V may post := by
  cases result with
  | ok a => exact h a rfl
  | error e => exact herr e rfl

variable [V.Coherent]

lemma speaks_wrongType {message : String} {value : Value} (hm : V.text message)
    (hv : value.In V) : (wrongType message value : Program α).Speaks V may post :=
  fun _ hh => Coherent.append hm (Coherent.value hh hv)

end Rules

/-! ### Changes -/

section Changes

variable {post : Value → Prop}

lemma speaks_chain {items : List Value} {tail : Value} (hi : AllIn V items) (ht : tail.In V)
    (h : ∀ v, v.In V → post v) : (chain items tail).Speaks V may post :=
  ⟨⟨hi, ht⟩, h⟩

lemma speaks_list {items : List Value} (hi : AllIn V items) (h : ∀ v, v.In V → post v) :
    (list items).Speaks V may post :=
  speaks_chain hi Value.in_nil h

lemma speaks_vector {items : List Value} (hi : AllIn V items) (h : ∀ v, v.In V → post v) :
    (vector items).Speaks V may post :=
  ⟨hi, h⟩

end Changes

/-! ### Lists and evaluations -/

lemma speaks_listItems [V.Coherent] {value : Value} {post : List Value → Prop} (hv : value.In V)
    (h : ∀ items, AllIn V items → post items) : (listItems value).Speaks V may post := by
  rw [listItems, speaks_look]
  intro heap hheap
  have hw := hheap.walkFrom (heap.cells.size + 1) value
  rw [← Heap.walk] at hw
  split
  · next items heq =>
    rw [heq] at hw
    exact h items hw
  · exact speaks_wrongType (Coherent.line (by decide)) hv
  · exact speaks_wrongType (Coherent.line (by decide)) hv

/-- A chain has at least one element. -/
lemma speaks_listItems_pair [V.Coherent] {id : CellId} {post : List Value → Prop}
    (h : ∀ first rest, first.In V → AllIn V rest → post (first :: rest)) :
    (listItems (.pair id)).Speaks V may post := by
  rw [listItems, speaks_look]
  intro heap hheap
  have hrest := hheap.walkFrom heap.cells.size (heap.cell id).tail
  rw [Heap.walk, Heap.walkFrom]
  generalize heap.walkFrom heap.cells.size (heap.cell id).tail = walked at hrest ⊢
  obtain ⟨rest, ending⟩ := walked
  cases ending with
  | proper => exact h _ rest (hheap.head id) hrest
  | improper => exact speaks_wrongType (Coherent.line (by decide)) (Value.in_pair id)
  | circular => exact speaks_wrongType (Coherent.line (by decide)) (Value.in_pair id)

/-- All evaluations that a program may ask for. -/
def Evals (may : Request → Prop) : Prop := ∀ expr frame, may (.eval expr frame)

variable {frame : FrameId}

lemma speaks_eval (heval : Evals may) {expr : Value} {post : Value → Prop} (he : expr.In V)
    (h : ∀ v, v.In V → post v) : (eval expr frame).Speaks V may post :=
  ⟨⟨heval expr frame, he⟩, h⟩

lemma speaks_evalOnto (heval : Evals may) {evaluated exprs : List Value}
    {post : List Value → Prop} (hd : AllIn V evaluated) (he : AllIn V exprs)
    (h : ∀ vs, AllIn V vs → vs.length = evaluated.length + exprs.length → post vs) :
    (evalOnto evaluated frame exprs).Speaks V may post := by
  induction exprs generalizing evaluated with
  | nil => exact h _ (AllIn.reverse_iff.2 hd) (by simp)
  | cons expr rest ih =>
    rw [AllIn.cons_iff] at he
    rw [evalOnto, speaks_bind]
    refine speaks_eval heval he.1 fun v hv => ih (AllIn.cons_iff.2 ⟨hv, hd⟩) he.2 ?_
    intro vs hvs hlen
    refine h vs hvs ?_
    rw [hlen, List.length_cons, List.length_cons]
    omega

/-- As many values are evaluated as there are expressions. -/
lemma speaks_evalAll (heval : Evals may) {exprs : List Value} {post : List Value → Prop}
    (he : AllIn V exprs) (h : ∀ vs, AllIn V vs → vs.length = exprs.length → post vs) :
    (evalAll exprs frame).Speaks V may post :=
  speaks_evalOnto heval AllIn.nil he fun vs hvs hlen => h vs hvs (by simpa using hlen)

lemma speaks_evalBodyFrom (heval : Evals may) {last : Value} {body : List Value}
    (hl : last.In V) (hb : AllIn V body) :
    (evalBodyFrom last frame body).Speaks V may (Value.In V) := by
  induction body generalizing last with
  | nil => exact hl
  | cons expr rest ih =>
    rw [AllIn.cons_iff] at hb
    rw [evalBodyFrom, speaks_bind]
    exact speaks_eval heval hb.1 fun v hv => ih hv hb.2

lemma speaks_evalBody (heval : Evals may) {body : List Value} (hb : AllIn V body) :
    (evalBody body frame).Speaks V may (Value.In V) :=
  speaks_evalBodyFrom heval Value.in_nil hb

/-! ### Calls of closures -/

lemma speaks_bindParams {names : List Symbol} {values : List Value} (hv : AllIn V values) :
    (bindParams frame names values).Speaks V may fun _ => True := by
  induction names generalizing values with
  | nil => exact trivial
  | cons name names ih =>
    cases values with
    | nil => exact trivial
    | cons value values =>
      rw [AllIn.cons_iff] at hv
      rw [bindParams, speaks_bind]
      exact ⟨hv.1, fun _ _ => ih hv.2⟩

/-- Calling a closure evaluates the expressions of its body and nothing else. -/
lemma speaks_enter (heval : Evals may) {c : Closure} {args : List Value} (hc : AllIn V c.body)
    (ha : AllIn V args) : (enter c args).Speaks V may (Value.In V) := by
  rw [enter]
  split
  · exact trivial
  · simp only [bind_eq_bind, speaks_bind]
    refine ⟨trivial, fun inner _ => (speaks_bindParams ha).imp fun _ _ => ?_⟩
    split
    · exact speaks_evalBody heval hc
    · have hrest : AllIn V (args.drop c.params.length) := ha.sublist (List.drop_sublist _ _)
      rw [speaks_bind]
      refine speaks_list hrest fun rest hr => ?_
      exact ⟨hr, fun _ _ => speaks_evalBody heval hc⟩

end Program

end HostedLisp
