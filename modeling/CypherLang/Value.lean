import CypherLang.Binary64.Text
import CypherLang.Syntax
import CypherLang.Text.Quoted

namespace CypherLang

/-- The number of a scope in a store. -/
abbrev ScopeId := Nat

/-- The routines that every program finds declared. -/
inductive Builtin
  | flow | listen
  deriving DecidableEq

namespace Builtin

def all : List Builtin := [flow, listen]

def name : Builtin → String
  | flow => outputName
  | listen => "listen"

end Builtin

/-- A declared function and the scope in which it was declared. -/
structure Closure where
  /-- Tells apart functions that look the same. -/
  id : Nat
  name : String
  params : List String
  body : List Stmt
  scope : ScopeId

def Closure.describe (f : Closure) : String :=
  "Function \x7b name: " ++ Text.quoted f.name ++ ", params: " ++ Text.quotedList f.params ++
    ", .. \x7d"

inductive Value
  | int (n : Int64)
  | float (x : Binary64)
  | text (s : String)
  | bool (b : Bool)
  | null
  | verse (f : Closure)
  | builtin (b : Builtin)

namespace Value

def ofLiteral : Literal → Value
  | .int n => int n
  | .float x => float x
  | .text s => text s
  | .bool b => bool b
  | .null => null

def kindName : Value → String
  | int _ => "int"
  | float _ => "float"
  | text _ => "text"
  | bool _ => "bool"
  | null => "null"
  | verse _ => "verse"
  | builtin _ => "builtin"

/-- What a condition makes of a value: zeros, the empty text, `false` and `null` do not hold. -/
def holds : Value → Bool
  | int n => n != 0
  | float x => !x.isZero
  | text s => s != ""
  | bool b => b
  | null => false
  | verse _ => true
  | builtin _ => true

/-- The value as a float, if it is a number. -/
def toBinary64? : Value → Option Binary64
  | int n => some (.ofInt n.toInt)
  | float x => some x
  | _ => none

/-- The declared function that the value is. -/
def closure? : Value → Option Closure
  | verse f => some f
  | _ => none

/-- The text of a value as it is written out. -/
def display : Value → String
  | int n => toString n.toInt
  | float x => x.toText
  | text s => s
  | bool b => if b then "true" else "false"
  | null => "null"
  | verse f => "<verse " ++ f.name ++ ">"
  | builtin b => "<builtin " ++ b.name ++ ">"

/-- Equality of values: an integer and a float are compared as floats, functions by identity, and
values of different kinds are never equal. -/
def equal : Value → Value → Bool
  | int a, int b => a == b
  | int a, float y => (Binary64.ofInt a.toInt).equal y
  | float x, int b => (Binary64.ofInt b.toInt).equal x
  | float x, float y => x.equal y
  | text a, text b => a == b
  | bool a, bool b => a == b
  | null, null => true
  | verse f, verse g => f.id == g.id
  | builtin a, builtin b => a == b
  | _, _ => false

end Value

end CypherLang
