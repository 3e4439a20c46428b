import CypherLang.Diagnostic
import CypherLang.Listing
import CypherLang.Syntax.Grammar
import CypherLang.Token.Lexer
import CypherLang.Value.RuntimeError

namespace CypherLang

def StrayChar.code (_ : StrayChar) : UInt16 := 100

def SyntaxError.code : SyntaxError → UInt16
  | unexpectedToken .. => 200
  | invalidNumber .. => 201
  | nestingTooDeep .. => 202

def RuntimeError.code : RuntimeError → UInt16
  | undefinedVariable _ .read => 300
  | undefinedVariable _ .write => 301
  | arityMismatch .. => 302
  | notCallable .. => 303
  | divisionByZero => 304
  | typeMismatch .. => 305
  | recursionLimit .. => 306
  | io .. => 307
  | stackOverflow .. => 308

inductive Failure
  | lex (e : StrayChar)
  | parse (e : SyntaxError)
  | eval (e : RuntimeError)
  deriving DecidableEq

namespace Failure

def message : Failure → String
  | lex e => e.message
  | parse e => e.message
  | eval e => e.message

def code : Failure → UInt16
  | lex e => e.code
  | parse e => e.code
  | eval e => e.code

/-- The line of the failure; a failure while running has none. -/
def line? : Failure → Option UInt32
  | lex e => some e.line
  | parse e => some e.line
  | eval _ => none

/-- The report of a failure of the program `source`. -/
def report (f : Failure) (source : Listing) : Diagnostic :=
  let d := Diagnostic.ofCode source.name f.code f.message
  match f.line? with
  | some line => d.withLine line ((source.line? line).getD "")
  | none => d

end Failure

/-- Lexes and parses a program text. -/
def Program.parse (source : String) : Except Failure Program :=
  match Token.lex source with
  | .error e => .error (.lex e)
  | .ok tokens =>
    match Program.ofTokens tokens with
    | .error e => .error (.parse e)
    | .ok p => .ok p

end CypherLang
