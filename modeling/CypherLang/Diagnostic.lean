namespace CypherLang

inductive Category
  | lexical | grammatical | runtime
  deriving DecidableEq

namespace Category

def name : Category → String
  | lexical => "lexical"
  | grammatical => "syntax"
  | runtime => "runtime"

def all : List Category := [lexical, grammatical, runtime]

def ofName? (name : String) : Option Category := all.find? (·.name == name)

/-- The category of an error code. -/
def ofCode (code : UInt16) : Category :=
  if 100 ≤ code ∧ code ≤ 199 then lexical
  else if 200 ≤ code ∧ code ≤ 299 then grammatical
  else runtime

end Category

structure Diagnostic where
  file : String
  code : UInt16
  category : Category
  message : String
  /-- The line of the failure, counted from 1. -/
  line : Option UInt32
  /-- The text of that line. -/
  sourceLine : Option String
  deriving DecidableEq

namespace Diagnostic

/-- A report without a position; the category follows from the code. -/
def ofCode (file : String) (code : UInt16) (message : String) : Diagnostic :=
  { file, code, category := .ofCode code, message, line := none, sourceLine := none }

def withLine (d : Diagnostic) (line : UInt32) (sourceLine : String) : Diagnostic :=
  { d with line := some line, sourceLine := some sourceLine }

def codeText (code : UInt16) : String := "E" ++ toString code.toNat

def display (d : Diagnostic) : String :=
  let place :=
    match d.line with
    | some line => ":" ++ toString line.toNat
    | none => ""
  d.file ++ place ++ ": " ++ codeText d.code ++ " [" ++ d.category.name ++ "] " ++ d.message

end Diagnostic

end CypherLang
