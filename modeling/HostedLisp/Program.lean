import HostedLisp.Datum.Reader
import HostedLisp.Debugger.Controller
import HostedLisp.Heap.Chain
import HostedLisp.Heap.Change

/-!
# Programs of the host

What a primitive does is described, not done: it looks at the heap, changes it, asks the evaluator
for something, or ends with a result or an error. The evaluator carries the description out. Since
the descriptions are data, a law of all of them is proved by induction, for primitives that a host
adds later too. Main definitions: `Request`, `Program`, `Body`.
-/

namespace HostedLisp

/-- What a primitive can ask the evaluator for. Every answer is a value. -/
inductive Request where
  | eval (expr : Value) (frame : FrameId)
  /-- The result of a function for arguments that are values already. -/
  | apply (func : Value) (args : List Value) (frame : FrameId)
  /-- The result of a function for operands that are yet to be evaluated. -/
  | call (func : Value) (operands : List Value) (frame : FrameId)
  /-- A pause in the debugger; the answer is what the user resumes with. -/
  | pause (frame : FrameId)
  /-- The state of a setting, after changing it if there is a new one. -/
  | setting (which : Debugger.Setting) (change : Option Bool)
  /-- Output on the terminal of the debugger. -/
  | print (text : String)
  /-- Whether the debugger holds an evaluation. -/
  | isPaused
  /-- The number of evaluations that are under way. -/
  | depth

/-- A computation of the host that ends with an `α`. -/
inductive Program (α : Type) where
  | done (result : α)
  | fail (error : Error)
  /-- The host's own code was used outside its contract. -/
  | fault
  | look (next : Heap → Program α)
  | change (c : Change) (next : c.Answer → Program α)
  | ask (r : Request) (next : Value → Program α)

/-- What a primitive does with its arguments or operands in the frame of the call. -/
abbrev Body := List Value → FrameId → Program Value

namespace Program

/-- Goes on with the result of a computation. -/
def bind {α β : Type} : Program α → (α → Program β) → Program β
  | done a, f => f a
  | fail e, _ => fail e
  | fault, _ => fault
  | look next, f => look fun h => (next h).bind f
  | change c next, f => change c fun answer => (next answer).bind f
  | ask r next, f => ask r fun value => (next value).bind f

instance : Monad Program where
  pure := done
  bind := bind

@[simp] theorem pure_eq_done {α : Type} (a : α) : (pure a : Program α) = done a := rfl

@[simp] theorem bind_eq_bind {α β : Type} (p : Program α) (f : α → Program β) :
    p >>= f = p.bind f := rfl

@[simp] theorem done_bind {α β : Type} (a : α) (f : α → Program β) : (done a).bind f = f a := rfl

@[simp] theorem bind_done {α : Type} (p : Program α) : p.bind done = p := by
  induction p with
  | done | fail | fault => rfl
  | look _ ih | change _ _ ih | ask _ _ ih => simp only [bind, ih]

theorem bind_assoc {α β γ : Type} (p : Program α) (f : α → Program β) (g : β → Program γ) :
    (p.bind f).bind g = p.bind fun a => (f a).bind g := by
  induction p with
  | done | fail | fault => rfl
  | look _ ih | change _ _ ih | ask _ _ ih => simp only [bind, ih]

instance : LawfulMonad Program := LawfulMonad.mk' Program bind_done (fun _ _ => rfl) bind_assoc

/-! ### Single steps -/

/-- What a function sees of the heap. -/
def view {α : Type} (f : Heap → α) : Program α := look fun h => done (f h)

def perform (c : Change) : Program c.Answer := change c done

def request (r : Request) : Program Value := ask r done

def eval (expr : Value) (frame : FrameId) : Program Value := request (.eval expr frame)

/-- The result of a function for evaluated arguments. -/
def apply (func : Value) (args : List Value) (frame : FrameId) : Program Value :=
  request (.apply func args frame)

/-- A new chain of pairs. -/
def chain (items : List Value) (tail : Value) : Program Value := perform (.chain items tail)

def list (items : List Value) : Program Value := chain items .nil

def vector (items : List Value) : Program Value := perform (.vector items)

/-- A result that may be an error. -/
def ofExcept {α : Type} : Except Error α → Program α
  | .ok a => done a
  | .error e => fail e

/-- Fails with a wrong kind of value, which the message shows at its end. -/
def wrongType {α : Type} (message : String) (value : Value) : Program α :=
  look fun h => fail (.type (message ++ h.render value))

def listItems (value : Value) : Program (List Value) :=
  look fun h =>
    match h.walk value with
    | (items, .proper) => done items
    | (_, .improper) => wrongType "expected a proper list, but got " value
    | (_, .circular) => wrongType "expected a proper list, but got a circular list " value

/-! ### Sequences of evaluations -/

/-- The values of expressions from left to right, after those that are `evaluated` in reverse. -/
def evalOnto (evaluated : List Value) (frame : FrameId) : List Value → Program (List Value)
  | [] => done evaluated.reverse
  | expr :: rest => (eval expr frame).bind fun value => evalOnto (value :: evaluated) frame rest

/-- The values of expressions, evaluated from left to right. -/
def evalAll (exprs : List Value) (frame : FrameId) : Program (List Value) :=
  evalOnto [] frame exprs

/-- The value of the last expression of a body, or `last` if there is none. -/
def evalBodyFrom (last : Value) (frame : FrameId) : List Value → Program Value
  | [] => done last
  | expr :: rest => (eval expr frame).bind fun value => evalBodyFrom value frame rest

/-- The value of the last expression of a body, the empty list for an empty body. -/
def evalBody (body : List Value) (frame : FrameId) : Program Value :=
  evalBodyFrom .nil frame body

/-- The value of the last expression of a program text, evaluated in the global frame. The text is
read as a whole before anything is evaluated. -/
def evalText (text : String) : Program Value :=
  match Datum.readAll text with
  | .error e => fail (.parse e)
  | .ok data => (perform (.placeAll data)).bind fun forms => evalBody forms .global

/-! ### Calls of closures -/

/-- Binds parameters to arguments one after the other. -/
def bindParams (frame : FrameId) : List Symbol → List Value → Program Unit
  | name :: names, value :: values =>
    (perform (.define frame name value)).bind fun _ => bindParams frame names values
  | _, _ => done ()

/-- Calls a closure: a new frame inside the captured one binds the parameters, the rest parameter
takes a list of the remaining arguments, and the body is evaluated there. -/
def enter (c : Closure) (args : List Value) : Program Value :=
  if !c.arity.accepts args.length then fail (.arity c.arity args.length (some c.label))
  else do
    let frame ← perform (.frame c.frame c.label)
    bindParams frame c.params args
    match c.rest with
    | none => pure ()
    | some name =>
      let remaining ← list (args.drop c.params.length)
      perform (.define frame name remaining)
    evalBody c.body frame

end Program

end HostedLisp
