import HostedLisp.Interpreter
import HostedLisp.Proofs.Heap.MergedView
import HostedLisp.Proofs.Heap.Shape
import HostedLisp.Proofs.Program.Direct
import HostedLisp.Proofs.Program.Parameters

/-!
# Calls of functions that programs write

A function is made of the parameters that are read from a list, and a call of it makes one frame
inside the one that the function was made in. The frame binds each parameter to its argument and the
rest parameter to a new list of the arguments that are left over. Main definition: `Heap.Entered`.
Main statement: `Machine.call_binds`.
-/

namespace HostedLisp

/-- A function of these parameters can be called with so many arguments. -/
def Form.Params.Takes (p : Form.Params) (count : Nat) : Prop :=
  p.names.length ≤ count ∧ (p.rest = none → count = p.names.length)

namespace Closure

variable {c : Closure}

/-- The parameters of a function as they were read. -/
def signature (c : Closure) : Form.Params := ⟨c.params, c.rest⟩

lemma accepts_iff {count : Nat} : c.arity.accepts count = true ↔ c.signature.Takes count := by
  rw [arity, signature, Form.Params.Takes]
  cases c.rest with
  | none => simp [Arity.accepts]; omega
  | some name => simp [Arity.accepts]

/-- The bindings of parameters to arguments, as far as there are both. -/
def given (c : Closure) (args : List Value) (frame : FrameId) : List Definition :=
  (c.params.zip args).map fun entry => ⟨frame, entry.1, entry.2⟩

end Closure

namespace Heap

variable {h h' : Heap} {c : Closure} {args : List Value}

/-- The frame that is made next. -/
def nextFrame (h : Heap) : FrameId := ⟨h.frames.size⟩

/-- The heap after the parameters of a function are bound in a new frame. -/
def bound (h : Heap) (c : Closure) (args : List Value) : Heap :=
  (h.newFrame c.frame c.label).2.defineEach (c.given args h.nextFrame)

/-- The heap in which the body of a function is evaluated. -/
def enter (h : Heap) (c : Closure) (args : List Value) : Heap :=
  match c.rest with
  | none => h.bound c args
  | some name =>
    let remaining := (h.bound c args).newChain (args.drop c.params.length) .nil
    remaining.2.define h.nextFrame name remaining.1

/-- The second heap has one frame more than the first: one inside the frame that a function was made
in, which binds the parameters of the function to the arguments, the rest parameter to a list of the
remaining arguments in new pairs, and nothing else. Everything that was there is the same. -/
structure Entered (h : Heap) (c : Closure) (args : List Value) (h' : Heap) : Prop where
  size : h'.frames.size = h.frames.size + 1
  parent : (h'.frame h.nextFrame).parent = some c.frame
  label : (h'.frame h.nextFrame).label = c.label
  argument : ∀ (i : Nat) (name : Symbol), c.params[i]? = some name →
    ∃ value, args[i]? = some value ∧ (h'.frame h.nextFrame).bindings.find? name = some value
  all : c.rest = none → args.length = c.params.length
  remaining : ∀ name, c.rest = some name → ∃ value ids,
    (h'.frame h.nextFrame).bindings.find? name = some value ∧ h'.Spine ids value .nil ∧
      h'.heads ids = args.drop c.params.length ∧ h.MadeSince h' ids
  only : ∀ name, name ∉ c.signature.all → (h'.frame h.nextFrame).bindings.find? name = none
  outer : c.frame.index < h.frames.size → ∀ name, name ∉ c.signature.all →
    h'.lookup? h.nextFrame name = h.lookup? c.frame name
  frame : ∀ f : FrameId, f.index < h.frames.size → h'.frame f = h.frame f
  cell : ∀ id : CellId, id.index < h.cells.size → h'.cell id = h.cell id
  vectors : h'.vectors = h.vectors
  closures : h'.closures = h.closures
  objects : h'.objects = h.objects

/-! ### Filling a frame -/

/-- Bindings are made in one frame, and perhaps new pairs; nothing else happens. -/
structure Fills (f : FrameId) (h h' : Heap) : Prop where
  size : h'.frames.size = h.frames.size
  parent : (h'.frame f).parent = (h.frame f).parent
  label : (h'.frame f).label = (h.frame f).label
  frame : ∀ g, g ≠ f → h'.frame g = h.frame g
  pairs : h.Extends h'
  vectors : h'.vectors = h.vectors
  closures : h'.closures = h.closures
  objects : h'.objects = h.objects

namespace Fills

variable {f : FrameId} {h'' : Heap}

lemma refl (f : FrameId) (h : Heap) : Fills f h h :=
  ⟨rfl, rfl, rfl, fun _ _ => rfl, .refl h, rfl, rfl, rfl⟩

lemma trans (first : Fills f h h') (second : Fills f h' h'') : Fills f h h'' where
  size := second.size.trans first.size
  parent := second.parent.trans first.parent
  label := second.label.trans first.label
  frame g hg := (second.frame g hg).trans (first.frame g hg)
  pairs := first.pairs.trans second.pairs
  vectors := second.vectors.trans first.vectors
  closures := second.closures.trans first.closures
  objects := second.objects.trans first.objects

lemma define (f : FrameId) (h : Heap) (name : Symbol) (value : Value) :
    Fills f h (h.define f name value) where
  size := Array.size_modify
  parent := by rw [frame_define]; split <;> rfl
  label := by rw [frame_define]; split <;> rfl
  frame g hg := by
    rw [frame_define, if_neg]
    rintro ⟨heq, -⟩
    cases f
    cases g
    cases heq
    exact hg rfl
  pairs := ⟨le_rfl, fun _ _ => rfl, le_rfl, fun _ _ => rfl⟩
  vectors := rfl
  closures := rfl
  objects := rfl

lemma newCell (f : FrameId) (h : Heap) (head tail : Value) :
    Fills f h (h.newCell head tail).2 :=
  { refl f h with pairs := extends_newCell head tail }

lemma newChain (f : FrameId) (h : Heap) (items : List Value) (tail : Value) :
    Fills f h (h.newChain items tail).2 := by
  induction items with
  | nil => exact refl f h
  | cons item rest ih => exact ih.trans (newCell f _ item _)

lemma defineEach {ds : List Definition} (hds : ∀ d ∈ ds, d.frame = f) (h : Heap) :
    Fills f h (h.defineEach ds) := by
  induction ds generalizing h with
  | nil => exact refl f h
  | cons d ds ih =>
    obtain ⟨rfl, hds⟩ := List.forall_mem_cons.1 hds
    exact (define d.frame h d.name d.value).trans (ih hds _)

end Fills

/-! ### Entering a function -/

lemma frame_of_given : ∀ d ∈ c.given args h.nextFrame, d.frame = h.nextFrame := by
  intro d hd
  obtain ⟨entry, -, rfl⟩ := List.mem_map.1 hd
  rfl

lemma bound_fills (h : Heap) (c : Closure) (args : List Value) :
    Fills h.nextFrame (h.newFrame c.frame c.label).2 (h.bound c args) :=
  .defineEach frame_of_given _

lemma enter_fills (h : Heap) (c : Closure) (args : List Value) :
    Fills h.nextFrame (h.newFrame c.frame c.label).2 (h.enter c args) := by
  have hbound := bound_fills h c args
  unfold enter
  cases c.rest with
  | none => exact hbound
  | some name => exact (hbound.trans (.newChain ..)).trans (.define ..)

lemma nextFrame_lt (h : Heap) (c : Closure) :
    h.nextFrame.index < (h.newFrame c.frame c.label).2.frames.size := by
  change h.frames.size < (h.frames.push _).size
  rw [Array.size_push]
  exact Nat.lt_succ_self _

lemma frame_newFrame_next (parent : FrameId) (label : String) :
    (h.newFrame parent label).2.frame h.nextFrame =
      ⟨.empty, some parent, label, none, (h.frame parent).root, true⟩ :=
  (frame_newFrame ..).trans (if_pos rfl)

/-- The places of the bindings are the new frame with each of the parameters. -/
lemma places_given (hcount : c.params.length ≤ args.length) :
    (c.given args h.nextFrame).map Definition.place =
      c.params.map fun name => (h.nextFrame, name) := by
  rw [Closure.given, List.map_map]
  conv_rhs => rw [← List.map_fst_zip hcount]
  rw [List.map_map]
  rfl

/-- Each parameter is bound to the argument in its place. -/
lemma find?_bound {i : Nat} {name : Symbol} (hnodup : c.params.Nodup)
    (hcount : c.params.length ≤ args.length) (hname : c.params[i]? = some name) :
    ∃ value, args[i]? = some value ∧
      ((h.bound c args).frame h.nextFrame).bindings.find? name = some value := by
  obtain ⟨hi, hget⟩ := List.getElem?_eq_some_iff.1 hname
  have hi' : i < args.length := by omega
  refine ⟨args[i], List.getElem?_eq_getElem hi', ?_⟩
  have hzip : (name, args[i]) ∈ c.params.zip args := by
    rw [← hget, ← List.getElem_zip (h := by rw [List.length_zip]; omega)]
    exact List.getElem_mem _
  have hplaces : ((c.given args h.nextFrame).map Definition.place).Nodup := by
    rw [places_given hcount]
    exact hnodup.map fun _ _ heq => (Prod.mk.inj heq).2
  exact find?_defineEach_of_mem (d := ⟨h.nextFrame, name, args[i]⟩) hplaces
    (List.mem_map_of_mem hzip) (nextFrame_lt h c)

lemma find?_bound_of_notMem {name : Symbol} (hcount : c.params.length ≤ args.length)
    (hname : name ∉ c.params) :
    ((h.bound c args).frame h.nextFrame).bindings.find? name = none := by
  rw [bound, find?_defineEach_of_not, frame_newFrame_next]
  · exact Bindings.find?_empty name
  · rw [places_given hcount]
    rintro ⟨hmem, -⟩
    obtain ⟨other, hother, heq⟩ := List.mem_map.1 hmem
    cases heq
    exact hname hother

lemma find?_enter_of_ne {name : Symbol} (hname : c.rest ≠ some name) :
    ((h.enter c args).frame h.nextFrame).bindings.find? name =
      ((h.bound c args).frame h.nextFrame).bindings.find? name := by
  unfold enter
  cases hrest : c.rest with
  | none => rfl
  | some other =>
    dsimp only
    rw [find?_define, if_neg]
    · rw [frame, frames_newChain, frame]
    · rintro ⟨rfl, -⟩
      exact hname hrest

/-- The rest parameter is bound to the list of the remaining arguments. -/
lemma find?_enter_rest {name : Symbol} (hrest : c.rest = some name) :
    ∃ value ids, ((h.enter c args).frame h.nextFrame).bindings.find? name = some value ∧
      (h.enter c args).Spine ids value .nil ∧
      (h.enter c args).heads ids = args.drop c.params.length ∧
      h.MadeSince (h.enter c args) ids := by
  obtain ⟨-, ids, hspine, hheads, -, hmade⟩ :=
    newChain_spine (h.bound c args) (args.drop c.params.length) .nil
  have hcells : h.cells.size ≤ (h.bound c args).cells.size := (bound_fills h c args).pairs.cells
  have hsize : h.nextFrame.index <
      ((h.bound c args).newChain (args.drop c.params.length) .nil).2.frames.size := by
    rw [frames_newChain, (bound_fills h c args).size]
    exact nextFrame_lt h c
  unfold enter
  rw [hrest]
  dsimp only
  generalize (h.bound c args).newChain (args.drop c.params.length) .nil = made at *
  refine ⟨made.1, ids, ?_, ?_, hheads, fun id hid => ?_⟩
  · rw [find?_define, if_pos ⟨rfl, rfl, hsize⟩]
  · exact (hspine.extend (fun id hid => (hmade id hid).2) (Fills.define ..).pairs).1
  · exact ⟨hcells.trans (hmade id hid).1, (hmade id hid).2⟩

/-- So many arguments as a function takes are bound exactly. -/
theorem entered_enter (hnodup : c.signature.all.Nodup) (htakes : c.signature.Takes args.length) :
    h.Entered c args (h.enter c args) := by
  have hfills := enter_fills h c args
  have hparams : c.params.Nodup := hnodup.of_append_left
  have hnew := frame_newFrame_next (h := h) c.frame c.label
  have hold (f : FrameId) (hf : f.index < h.frames.size) :
      (h.enter c args).frame f = h.frame f := by
    rw [hfills.frame, frame_newFrame, if_neg (Nat.ne_of_lt hf)]
    rintro rfl
    exact lt_irrefl _ hf
  have honly (name : Symbol) (hname : name ∉ c.signature.all) :
      ((h.enter c args).frame h.nextFrame).bindings.find? name = none := by
    have hnames : name ∉ c.params := fun hmem => hname (List.mem_append_left _ hmem)
    rw [find?_enter_of_ne, find?_bound_of_notMem htakes.1 hnames]
    intro hrest
    refine hname (List.mem_append_right _ ?_)
    exact Option.mem_toList.2 hrest
  have hparent : ((h.enter c args).frame h.nextFrame).parent = some c.frame := by
    rw [hfills.parent, hnew]
  exact {
    size := by rw [hfills.size]; exact Array.size_push _
    parent := hparent
    label := by rw [hfills.label, hnew]
    argument := fun i name hname => by
      obtain ⟨value, hvalue, hfind⟩ := find?_bound hparams htakes.1 hname
      refine ⟨value, hvalue, ?_⟩
      rw [find?_enter_of_ne, hfind]
      intro hrest
      have hdisjoint := (List.nodup_append.1 hnodup).2.2
      exact hdisjoint name (List.mem_of_getElem? hname) name (Option.mem_toList.2 hrest) rfl
    all := htakes.2
    remaining := fun name hrest => find?_enter_rest hrest
    only := honly
    outer := fun hframe name hname => by
      have hparent? : (h.enter c args).parent? h.nextFrame = some c.frame := by
        have hlt : c.frame.index < h.nextFrame.index := hframe
        rw [parent?, hparent, Option.filter_some, if_pos (decide_eq_true hlt)]
      rw [lookup?_of_parent (honly name hname) hparent?]
      apply lookup?_congr
      · intro g hg
        rw [parent?, parent?, hold g (by omega)]
      · intro g hg name
        rw [hold g (by omega)]
    frame := hold
    cell := hfills.pairs.cell
    vectors := hfills.vectors
    closures := hfills.closures
    objects := hfills.objects }

end Heap

/-! ### Running a call -/

namespace Program

variable {c : Closure} {args : List Value} {s : State}

lemma bindParams_run (frame : FrameId) (names : List Symbol) (args : List Value) (s : State) :
    (bindParams frame names args).run s = .stop (.ok ()) { s with
      heap := s.heap.defineEach
        ((names.zip args).map fun entry => ⟨frame, entry.1, entry.2⟩) } := by
  induction names generalizing args s with
  | nil => rfl
  | cons name names ih =>
    cases args with
    | nil => rfl
    | cons value args => exact ih args _

/-- A call with as many arguments as the function takes evaluates the body where its parameters are
bound. -/
lemma enter_run (htakes : c.signature.Takes args.length) : (enter c args).run s =
    (evalBody c.body s.heap.nextFrame).run { s with heap := s.heap.enter c args } := by
  have haccepts : c.arity.accepts args.length = true := Closure.accepts_iff.2 htakes
  have hparams := bindParams_run s.heap.nextFrame c.params args
    { s with heap := (s.heap.newFrame c.frame c.label).2 }
  rw [enter, haccepts]
  change ((bindParams s.heap.nextFrame c.params args).bind _).run
    { s with heap := (s.heap.newFrame c.frame c.label).2 } = _
  rw [run_bind, Run.bind_apply, hparams, Plan.bind_stop_ok, Heap.enter]
  cases c.rest with
  | none => rfl
  | some name => rfl

lemma enter_run_of_not (hnot : ¬c.signature.Takes args.length) : (enter c args).run s =
    .stop (.error (.error (.arity c.arity args.length (some c.label)))) s := by
  have hrefused : c.arity.accepts args.length = false := by
    rw [← Bool.not_eq_true, Closure.accepts_iff]
    exact hnot
  rw [enter, hrefused]
  rfl

end Program

/-- A function is made of the parameters that are read. -/
lemma Form.makeClosure_run {p : Form.Params} {parameters : Value} {s : State}
    (hp : Form.Reads s.heap [] parameters (.ok p)) (body : List Value) (frame : FrameId)
    (name : Option Symbol) : (Form.makeClosure parameters body frame name).run s =
      .stop (.ok (.closure ⟨s.heap.closures.size⟩))
        { s with heap := (s.heap.newClosure ⟨p.names, p.rest, body, frame, name⟩).2 } := by
  rw [Form.makeClosure, Program.run_look, Form.reads_iff.1 hp]
  rfl

/-- What is wrong with the parameters is the error of a function that is not made. -/
lemma Form.makeClosure_run_of_fault {fault : Form.ParamsFault} {parameters : Value} {s : State}
    (hfault : Form.Reads s.heap [] parameters (.error fault)) (body : List Value)
    (frame : FrameId) (name : Option Symbol) : (Form.makeClosure parameters body frame name).run s =
      .stop (.error (.error (fault.toError s.heap))) s := by
  rw [Form.makeClosure, Program.run_look, Form.reads_iff.1 hfault]
  rfl

/-- A closure that there was is there later, but for a name that it may have been given. -/
lemma Heap.Develops.closure {h h' : Heap} (hd : h.Develops h') {id : ClosureId}
    (hid : id.index < h.closures.size) : (h.closure id).Keeps (h'.closure id) := by
  have hold : h.closures[id.index]? = some (h.closure id) := by
    simp [Heap.closure, Array.getD, hid]
  obtain ⟨c, hc, hkeeps⟩ := hd.closures _ _ hold
  have hnew : h'.closure id = c := by
    rw [Heap.closure, Array.getD_eq_getD_getElem?, hc, Option.getD_some]
  rwa [hnew]

/-- Reading a list of parameters ends, for every value; it succeeds exactly for a finite chain of
distinct names that ends in the empty list or in one more name, and any fault is the error of the
function that was to be made. Whenever a function that was made of the parameters is called later
with as many arguments as they take, its body is evaluated in one new frame inside the one that it
was made in, which binds the parameters to the arguments and nothing else. With any other number of
arguments the call is an error that leaves the state as it is. -/
theorem Machine.call_binds (m : Machine) (s : State) (parameters : Value) (body : List Value)
    (frame : FrameId) (name : Option Symbol) :
    (∃! r, Form.Reads s.heap [] parameters r) ∧
    (∀ p, Form.Reads s.heap [] parameters (.ok p) ↔
      p.all.Nodup ∧ Form.Lists s.heap p parameters) ∧
    (∀ fault, Form.Reads s.heap [] parameters (.error fault) →
      (Form.makeClosure parameters body frame name).run s =
        .stop (.error (.error (fault.toError s.heap))) s) ∧
    ∀ p, Form.Reads s.heap [] parameters (.ok p) → ∃ id made,
      (Form.makeClosure parameters body frame name).run s = .stop (.ok (.closure id)) made ∧
      ∀ t : State, made.heap.Develops t.heap → ∀ args caller, ∃ c, t.heap.closure id = c ∧
        c.signature = p ∧ c.body = body ∧ c.frame = frame ∧
        (p.Takes args.length → ∃ h', t.heap.Entered c args h' ∧
          m.applyTo (.closure id) args caller t =
            (Program.evalBody body t.heap.nextFrame).run { t with heap := h' }) ∧
        (¬p.Takes args.length → m.applyTo (.closure id) args caller t =
          .stop (.error (.error (.arity c.arity args.length (some c.label)))) t) := by
  refine ⟨⟨_, Form.reads_params s.heap parameters, fun r hr => ?_⟩, fun p => Form.reads_ok_iff,
    fun fault hfault => Form.makeClosure_run_of_fault hfault body frame name, fun p hp => ?_⟩
  · exact hr.unique (Form.reads_params s.heap parameters)
  · refine ⟨_, _, Form.makeClosure_run hp body frame name, fun t hdevelops args caller => ?_⟩
    let made : Closure := ⟨p.names, p.rest, body, frame, name⟩
    let id : ClosureId := ⟨s.heap.closures.size⟩
    have hmade : (s.heap.newClosure made).2.closure id = made :=
      (Heap.closure_newClosure ..).trans (if_pos rfl)
    have hsize : id.index < (s.heap.newClosure made).2.closures.size := by
      change s.heap.closures.size < (s.heap.closures.push made).size
      rw [Array.size_push]
      exact Nat.lt_succ_self _
    have hkeeps : made.Keeps (t.heap.closure id) := hmade ▸ hdevelops.closure hsize
    have hsignature : (t.heap.closure id).signature = p := by
      rw [Closure.signature, hkeeps.params, hkeeps.rest]
    have hrun : m.applyTo (.closure id) args caller t =
      (Program.enter (t.heap.closure id) args).run t := rfl
    refine ⟨t.heap.closure id, rfl, hsignature, hkeeps.body, hkeeps.frame, fun htakes => ?_,
      fun hnot => ?_⟩
    · have hall : (t.heap.closure id).signature.all.Nodup := by
        rw [hsignature]
        exact (Form.reads_ok_iff.1 hp).1
      rw [← hsignature] at htakes
      refine ⟨_, Heap.entered_enter hall htakes, ?_⟩
      rw [hrun, Program.enter_run htakes, hkeeps.body]
    · rw [← hsignature] at hnot
      rw [hrun, Program.enter_run_of_not hnot]

namespace Interpreter

/-- An interpreter with an empty global frame and the parameters `(x . rest)`. -/
def withParameters : Interpreter :=
  (bare .standard).changeHeap fun h => (h.newCell (.sym ⟨"x"⟩) (.sym ⟨"rest"⟩)).2

/-- Of three arguments, a function of the parameters `(x . rest)` binds `x` to the first one and
`rest` to a new list of the two others. It cannot be called without arguments. -/
theorem call_binds_rest : ∃ id made h' value ids, ∃ c : Closure,
    (Form.makeClosure (.pair ⟨0⟩) [.sym ⟨"x"⟩] .global none).run withParameters.state =
      .stop (.ok (.closure id)) made ∧
    withParameters.machine.applyTo (.closure id) [.int 1, .int 2, .int 3] .global made =
      (Program.evalBody [.sym ⟨"x"⟩] made.heap.nextFrame).run { made with heap := h' } ∧
    (h'.frame made.heap.nextFrame).bindings.find? ⟨"x"⟩ = some (.int 1) ∧
    (h'.frame made.heap.nextFrame).bindings.find? ⟨"rest"⟩ = some value ∧
    h'.Spine ids value .nil ∧ h'.heads ids = [.int 2, .int 3] ∧ made.heap.MadeSince h' ids ∧
    withParameters.machine.applyTo (.closure id) [] .global made =
      .stop (.error (.error (.arity c.arity 0 (some c.label)))) made := by
  obtain ⟨-, -, -, hmade⟩ := Machine.call_binds withParameters.machine withParameters.state
    (.pair ⟨0⟩) [.sym ⟨"x"⟩] .global none
  obtain ⟨id, made, hrun, hcall⟩ := hmade ⟨[⟨"x"⟩], some ⟨"rest"⟩⟩
    (Form.reads_iff.2 (by decide +kernel))
  obtain ⟨c, -, hsignature, -, -, hcalled, -⟩ :=
    hcall made (.refl _) [.int 1, .int 2, .int 3] .global
  obtain ⟨c', -, -, -, -, -, hrefused⟩ := hcall made (.refl _) [] .global
  obtain ⟨h', hentered, hbody⟩ := hcalled ⟨by decide, nofun⟩
  have hparams : c.params = [⟨"x"⟩] := congrArg Form.Params.names hsignature
  have hrest : c.rest = some ⟨"rest"⟩ := congrArg Form.Params.rest hsignature
  obtain ⟨one, hone, hx⟩ := hentered.argument 0 ⟨"x"⟩ (by rw [hparams]; rfl)
  cases hone
  obtain ⟨value, ids, hvalue, hspine, hheads, hnew⟩ := hentered.remaining ⟨"rest"⟩ hrest
  rw [hparams] at hheads
  exact ⟨id, made, h', value, ids, c', hrun, hbody, hx, hvalue, hspine, hheads, hnew,
    hrefused fun htakes => Nat.not_succ_le_zero 0 htakes.1⟩

end Interpreter

end HostedLisp
