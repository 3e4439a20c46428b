namespace CypherLang

/-- What was done with a name that is not declared. -/
inductive NameUse
  | read | write
  deriving DecidableEq

inductive RuntimeError
  | undefinedVariable (name : String) (access : NameUse)
  | arityMismatch (name : String) (expected found : Nat)
  | notCallable (name : String) (kindName : String)
  | divisionByZero
  /-- An operator without a meaning for its operands; a sign has no right operand. -/
  | typeMismatch (op : String) (left : String) (right : Option String)
  | recursionLimit (limit : Nat)
  | stackOverflow (limit : Nat)
  | io (reason : String)
  deriving DecidableEq

namespace RuntimeError

def message : RuntimeError → String
  | undefinedVariable name .read => s!"undefined variable '{name}'"
  | undefinedVariable name .write => s!"assignment to undefined variable '{name}'"
  | arityMismatch name expected found => s!"'{name}' expects {expected} argument(s), got {found}"
  | notCallable name kindName => s!"'{name}' is {kindName}, not a verse"
  | divisionByZero => "division by zero"
  | typeMismatch op left (some right) => s!"cannot apply '{op}' to {left} and {right}"
  | typeMismatch op left none => s!"cannot apply '{op}' to {left}"
  | recursionLimit limit => s!"maximum call depth of {limit} exceeded"
  | stackOverflow limit => s!"evaluation nested deeper than {limit} levels"
  | io reason => s!"i/o error: {reason}"

end RuntimeError

end CypherLang
