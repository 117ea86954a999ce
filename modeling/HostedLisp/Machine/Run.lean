import HostedLisp.Machine.State

/-!
# Runs of the machine

A run passes the state on. It stops with a result or is halted, and on its way it asks requests
whose answers it does not work out itself. From a given state on it is a plan, a tree that branches
on the answers; what the answers are is decided when the plan is carried out. Main definitions:
`Plan`, `Run`, `Run.attempt`, `Program.run`, `Plan.execute`.
-/

namespace HostedLisp

/-- What a run does from some state on. An error is an answer like a value, so that the run can go
on after it; any other halt of a request halts the run too. -/
inductive Plan (α : Type) where
  | stop (result : Except Halt α) (s : State)
  | ask (r : Request) (s : State) (next : Except Error Value → State → Plan α)

/-- A computation that may change the state, may ask requests and may be halted. -/
def Run (α : Type) : Type := State → Plan α

namespace Plan

variable {α β γ : Type}

def bind : Plan α → (α → Run β) → Plan β
  | stop (.ok a) s, f => f a s
  | stop (.error reason) s, _ => stop (.error reason) s
  | ask r s next, f => ask r s fun answer t => (next answer t).bind f

/-- An error as a result, where any other halt remains one. -/
def attempt : Plan α → Plan (Except Error α)
  | stop (.ok a) s => stop (.ok (.ok a)) s
  | stop (.error (.error e)) s => stop (.ok (.error e)) s
  | stop (.error .fault) s => stop (.error .fault) s
  | stop (.error .exhausted) s => stop (.error .exhausted) s
  | ask r s next => ask r s fun answer t => (next answer t).attempt

/-- Changes the state at the end, whatever the end is. -/
def atEnd (f : State → State) : Plan α → Plan α
  | stop result s => stop result (f s)
  | ask r s next => ask r s fun answer t => (next answer t).atEnd f

@[simp] theorem bind_stop_ok (a : α) (s : State) (f : α → Run β) :
    (stop (.ok a) s).bind f = f a s := rfl

@[simp] theorem bind_stop_error (reason : Halt) (s : State) (f : α → Run β) :
    (stop (.error reason) s : Plan α).bind f = stop (.error reason) s := rfl

@[simp] theorem bind_ask (r : Request) (s : State) (next : Except Error Value → State → Plan α)
    (f : α → Run β) :
    (ask r s next).bind f = ask r s fun answer t => (next answer t).bind f := rfl

theorem bind_pure (p : Plan α) : p.bind (fun a s => stop (.ok a) s) = p := by
  induction p with
  | stop result s => cases result <;> rfl
  | ask r s next ih => exact congrArg (ask r s) (funext fun answer => funext fun t => ih answer t)

theorem bind_assoc (p : Plan α) (f : α → Run β) (g : β → Run γ) :
    (p.bind f).bind g = p.bind fun a s => (f a s).bind g := by
  induction p with
  | stop result s => cases result <;> rfl
  | ask r s next ih => exact congrArg (ask r s) (funext fun answer => funext fun t => ih answer t)

end Plan

namespace Run

variable {α β : Type}

def bind (x : Run α) (f : α → Run β) : Run β := fun s => (x s).bind f

instance : Monad Run where
  pure a := fun s => .stop (.ok a) s
  bind := bind

def halt (reason : Halt) : Run α := fun s => .stop (.error reason) s

def raise (error : Error) : Run α := halt (.error error)

/-- What a function sees of the state. -/
def view (f : State → α) : Run α := fun s => .stop (.ok (f s)) s

def modify (f : State → State) : Run Unit := fun s => .stop (.ok ()) (f s)

def changeHeap (f : Heap → Heap) : Run Unit := modify fun s => { s with heap := f s.heap }

def changeDebugger (f : Debugger.Controller → Debugger.Controller) : Run Unit :=
  modify fun s => { s with debugger := f s.debugger }

def display (event : Debugger.Event) : Run Unit :=
  modify fun s => { s with terminal := s.terminal.display event }

def displayLine (text : String) : Run Unit := display (.output (text ++ "\n"))

/-- Records an event that the display has no part in. -/
def record (event : Debugger.Event) : Run Unit :=
  modify fun s => { s with terminal := s.terminal.record event }

def readLine : Run (Option String) := fun s =>
  match s.terminal.readLine with
  | (line, terminal) => .stop (.ok line) { s with terminal := terminal }

def request (r : Request) : Run Value := fun s =>
  .ask r s fun answer t => .stop (answer.mapError .error) t

/-- An error as a result, where any other halt remains one. -/
def attempt (x : Run α) : Run (Except Error α) := fun s => (x s).attempt

/-! ### Equations -/

theorem bind_apply (x : Run α) (f : α → Run β) (s : State) : (x >>= f) s = (x s).bind f := rfl

theorem readLine_apply (s : State) : readLine s =
    .stop (.ok s.terminal.readLine.1) { s with terminal := s.terminal.readLine.2 } := rfl

instance : LawfulMonad Run := LawfulMonad.mk' Run
  (fun x => funext fun s => (x s).bind_pure)
  (fun _ _ => rfl)
  (fun x f g => funext fun s => (x s).bind_assoc f g)

end Run

/-- Carries out a program of the host. -/
def Program.run {α : Type} : Program α → Run α
  | done result => pure result
  | fail error => Run.raise error
  | fault => Run.halt .fault
  | look next => fun s => (next s.heap).run s
  | change c next => fun s =>
    match s.heap.apply c with
    | (result, heap) => (next result).run { s with heap := heap }
  | ask r next => Run.bind (Run.request r) fun value => (next value).run

/-- What comes of a run: its result, or the reason why there is none, and the state then. -/
abbrev Outcome (α : Type) := Except Halt α × State

/-- How requests are answered. -/
abbrev Answer := Request → State → Outcome Value

/-- Carries out a plan. -/
def Plan.execute {α : Type} (answer : Answer) : Plan α → Outcome α
  | stop result s => (result, s)
  | ask r s next =>
    match answer r s with
    | (.ok value, t) => (next (.ok value) t).execute answer
    | (.error (.error e), t) => (next (.error e) t).execute answer
    | (.error reason, t) => (.error reason, t)

end HostedLisp
