import CypherLang.Token

namespace CypherLang

/-- How deep blocks, expressions and operators of a chain may nest. -/
def maxNesting : Nat := 128

inductive Wanted
  | kind (k : Token.Kind)
  | expression
  deriving DecidableEq

def Wanted.phrase : Wanted → String
  | kind k => k.phrase
  | expression => "expression"

inductive SyntaxError
  | unexpectedToken (expected : Wanted) (found : Token.Kind) (line : UInt32)
  | invalidNumber (text : String) (line : UInt32)
  | nestingTooDeep (line : UInt32)
  deriving DecidableEq

namespace SyntaxError

def line : SyntaxError → UInt32
  | unexpectedToken _ _ line => line
  | invalidNumber _ line => line
  | nestingTooDeep line => line

def message : SyntaxError → String
  | unexpectedToken expected found line =>
    s!"expected {expected.phrase}, found {found.phrase} on line {line}"
  | invalidNumber text line => s!"malformed number literal '{text}' on line {line}"
  | nestingTooDeep line => s!"nesting deeper than {maxNesting} levels on line {line}"

end SyntaxError

end CypherLang
