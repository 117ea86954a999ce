import HostedLisp.Error

/-!
# Arities as contracts

A host declares an arity by its notation, and numbers of arguments are held against it. Either can
fail. Main definitions: `Arity.read`, `Arity.validate`.
-/

namespace HostedLisp.Arity

/-- The arity that a notation stands for; an error names the notation without the blanks around
it. -/
def read (text : String) : Except Error Arity :=
  match read? text.toList with
  | some arity => .ok arity
  | none =>
    .error (.domain s!"invalid arity spec '{String.ofList (Text.trim text.toList)}'")

/-- Refuses a number of arguments that is not right. -/
def validate (arity : Arity) (count : Nat) : Except Error Unit :=
  if arity.accepts count then .ok () else .error (.arity arity count none)

end HostedLisp.Arity
