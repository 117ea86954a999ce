import HostedLisp.Proofs.Plan.Service

/-!
# Code of the host

A host can write a primitive as code of its own instead of as a `Program`. Such code uses the
interpreter as a host does: it can catch the errors of what it asks for, offer a failure, pause, and
change what only a host can change. It can even put another debugger, or another interpreter, in the
place of the one that it was called with. What it does may also depend on things that the machine
knows nothing of, so a request can be served by more than one run. For the same reason loops are
left out: a loop that ends went round so many times. Main definitions: `Replacement`, `HostCode`,
`Serves`.
-/

namespace HostedLisp

/-! ### Other debuggers and interpreters -/

/-- Whether the debugger is in no pause and evaluates no line of one. -/
def Debugger.Controller.isIdle (c : Controller) : Bool := c.paused.isNone && !c.evaluatingLine

/-- Whether no evaluation, no pause and no line of one is under way. -/
def State.isIdle (s : State) : Bool := s.depth == 0 && s.debugger.isIdle

/-- What can be put in the place of what a host is given: a debugger, or an interpreter in some
state. A debugger comes with a terminal, which can be changed besides. -/
inductive Replacement where
  | debugger (c : Debugger.Controller)
  | interpreter (t : State)

namespace Replacement

/-- The state after the replacement. -/
def apply : Replacement → State → State
  | debugger c, s => { s with debugger := c }
  | interpreter t, _ => t

/-- Whether nothing is under way in what is replaced and in what comes in its place. -/
def isIdle : Replacement → State → Bool
  | debugger c, s => s.debugger.isIdle && c.isIdle
  | interpreter t, s => s.isIdle && t.isIdle

variable {r : Replacement} {s : State}

lemma paused_of_isIdle (h : r.isIdle s = true) :
    s.debugger.paused = none ∧ (r.apply s).debugger.paused = none := by
  cases r <;>
    simp_all [isIdle, State.isIdle, Debugger.Controller.isIdle, apply]

end Replacement

/-- Makes the replacement where it is allowed. Elsewhere the host is at fault. -/
def Run.replace (allows : Replacement → State → Bool) (r : Replacement) : Run Unit := fun s =>
  if allows r s then .stop (.ok ()) (r.apply s) else .stop (.error .fault) s

/-- A replacement leads where the ones that are allowed do. -/
lemma Run.Leads.replace {c : Contract} {fit : State → Prop} {rel : State → State → Prop}
    {fails : Prop} {allows : Replacement → State → Bool} {r : Replacement} (hc : c.faults)
    (hrel : ∀ s, allows r s = true → rel s (r.apply s)) :
    (Run.replace allows r).Leads c fit rel fails := by
  intro s _
  unfold Run.replace
  split
  · next hallowed => exact ⟨hrel s hallowed, nofun⟩
  · exact hc

/-! ### What a host can write -/

/-- What code of a host can do with an interpreter. It gets at the heap, the terminal and the
switches of the debugger, but neither at the pause that is under way nor at the number of
evaluations under way, except to look at them; it can only replace what they belong to, where that
is allowed. Another debugger can have another leader. -/
inductive HostCode (allows : Replacement → State → Bool) : {α : Type} → Run α → Prop
  | pure {α : Type} (a : α) : HostCode allows (pure a : Run α)
  | raise {α : Type} (e : Error) : HostCode allows (Run.raise e : Run α)
  | fault {α : Type} : HostCode allows (Run.halt .fault : Run α)
  | bind {α β : Type} {x : Run α} {f : α → Run β} (hx : HostCode allows x)
      (hf : ∀ a, HostCode allows (f a)) : HostCode allows (x >>= f)
  | attempt {α : Type} {x : Run α} (hx : HostCode allows x) : HostCode allows x.attempt
  | view {α : Type} (f : State → α) : HostCode allows (Run.view f)
  | changeHeap (f : Heap → Heap) : HostCode allows (Run.changeHeap f)
  | changeTerminal (f : Debugger.Terminal → Debugger.Terminal) :
      HostCode allows (Run.modify fun s => { s with terminal := f s.terminal })
  | set (which : Debugger.Setting) (on : Bool) :
      HostCode allows (Run.changeDebugger (·.set which on))
  | setInteractive (on : Bool) :
      HostCode allows (Run.changeDebugger fun c => { c with interactive := on })
  | setSingleStep (on : Bool) :
      HostCode allows (Run.changeDebugger fun c => { c with singleStep := on })
  | replace (r : Replacement) : HostCode allows (Run.replace allows r)
  | request (r : Request) : HostCode allows (Run.request r)
  | offer (leader : Char) (e : Error) (frame : FrameId) :
      HostCode allows (Machine.offer leader e frame)
  | converse (leader : Char) (frame : FrameId) : HostCode allows (Machine.converse leader frame)

/-- The runs by which a request can be served: those of the machines that the interpreter may run
on, and any code of the host when a primitive is applied. A primitive whose body asks for nothing
but such a request is code of the host. -/
inductive Serves (allows : Replacement → State → Bool) (runsOn : Machine → Prop) : Service
  | own {m : Machine} (hm : runsOn m) (r : Request) : Serves allows runsOn r (m.serve r)
  | host {x : Run Value} (hx : HostCode allows x) (p : Primitive) (args : List Value)
      (frame : FrameId) : Serves allows runsOn (.apply (.primitive p) args frame) x

end HostedLisp
