import HostedLisp.Numeral
import HostedLisp.Text.Blank

/-!
# Commands of the debugger

A line that starts with the leading character is a command of one letter with an argument; any
other line is an expression to evaluate. Main definitions: `Command.read`, `Refusal.message`,
`Command.helpText`.
-/

namespace HostedLisp.Debugger

/-- What a line tells the debugger to do. -/
inductive Command where
  | help
  | backtrace
  | resume
  | dump
  | breakOnError (on : Bool)
  | frame (index : Nat)
  | quit
  /-- Resume with the value of an expression in place of the paused one. -/
  | resumeWith (source : List Char)
  | step
  | trace (on : Bool)
  | stepOut
  | evaluate (source : List Char)
deriving DecidableEq, Repr

/-- Why a line is not a command. -/
inductive Refusal where
  | missingSwitch
  | badSwitch
  | missingFrame
  | badFrame (text : List Char)
  | missingExpression
  | unknown (line : List Char) (leader : Char)
deriving DecidableEq, Repr

def Refusal.message : Refusal → String
  | missingSwitch => "Missing on/off."
  | badSwitch => "on/off expected."
  | missingFrame => "Missing frame number."
  | badFrame text => "Bad frame number: '" ++ String.ofList text ++ "'."
  | missingExpression => "Missing return expression."
  | unknown line leader =>
    "Unknown command: '" ++ String.ofList line ++ "'. Type '" ++ String.ofList [leader] ++
      "?' for help."

namespace Command

def readSwitch : List Char → Except Refusal Bool
  | [] => .error .missingSwitch
  | ['o', 'n'] => .ok true
  | ['o', 'f', 'f'] => .ok false
  | _ => .error .badSwitch

def readFrame (argument : List Char) : Except Refusal Nat :=
  if argument.isEmpty then .error .missingFrame
  else match Numeral.count? argument with
    | some n => .ok n
    | none => .error (.badFrame argument)

/-- The command of a letter and an argument; `unknown` is the refusal for any other letter. -/
def readLetter (unknown : Refusal) (letter : Char) (argument : List Char) :
    Except Refusal Command :=
  match letter with
  | '?' => .ok help
  | 'b' => .ok backtrace
  | 'c' => .ok resume
  | 'd' => .ok dump
  | 'e' => (readSwitch argument).map breakOnError
  | 'f' => (readFrame argument).map frame
  | 'q' => .ok quit
  | 'r' => if argument.isEmpty then .error .missingExpression else .ok (resumeWith argument)
  | 's' => .ok step
  | 't' => (readSwitch argument).map trace
  | 'u' => .ok stepOut
  | _ => .error unknown

/-- The command that a line gives. -/
def read (leader : Char) (line : List Char) : Except Refusal Command :=
  match Text.trim line with
  | [] => .ok (evaluate [])
  | first :: rest =>
    if first = leader then
      match rest with
      | letter :: argument =>
        readLetter (.unknown (first :: rest) leader) letter (Text.trim argument)
      | [] => .error (.unknown [first] leader)
    else .ok (evaluate (first :: rest))

def helpText (leader : Char) : String :=
  let c := String.ofList [leader]
  "Debugger commands:\n"
    ++ c ++ "?        this help\n"
    ++ c ++ "b        show frame headers\n"
    ++ c ++ "c        continue\n"
    ++ c ++ "d        dump every frame\n"
    ++ c ++ "e on|off break on error\n"
    ++ c ++ "f n      dump frame n\n"
    ++ c ++ "q        quit\n"
    ++ c ++ "r expr   return the value of expr from the paused expression\n"
    ++ c ++ "s        single step\n"
    ++ c ++ "t on|off trace evaluation\n"
    ++ c ++ "u        step out to the enclosing frame\n"
    ++ "anything else is evaluated in the paused frame\n"

end Command

end HostedLisp.Debugger
