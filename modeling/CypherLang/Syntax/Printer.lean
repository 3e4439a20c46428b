import CypherLang.Binary64.Text
import CypherLang.Syntax

namespace CypherLang

/-- A character as it stands between double quotes. -/
def escape : Char → List Char
  | '"' => ['\\', '"']
  | '\\' => ['\\', '\\']
  | '\n' => ['\\', 'n']
  | '\t' => ['\\', 't']
  | c => [c]

def quote (text : String) : String :=
  .ofList ('"' :: text.toList.flatMap escape ++ ['"'])

def Literal.print : Literal → String
  | int n => toString n.toInt
  | float x => x.toText
  | text s => quote s
  | bool b => if b then "true" else "false"
  | null => "null"

mutual

def Expr.print : Expr → String
  | .literal l => l.print
  | .identifier name => name
  | .binary l op r => "(" ++ l.print ++ " " ++ op.symbol ++ " " ++ r.print ++ ")"
  | .neg e => "-" ++ e.print
  | .call callee [] => callee ++ "()"
  | .call callee (e :: es) => Expr.printList (callee ++ "(" ++ e.print) es ++ ")"

/-- Adds to `line` the further members of a list, each after a comma. -/
def Expr.printList (line : String) : List Expr → String
  | [] => line
  | e :: es => Expr.printList (line ++ ", " ++ e.print) es

end

/-- The blanks before a statement inside `depth` blocks. -/
def indentation : Nat → String
  | 0 => ""
  | depth + 1 => indentation depth ++ "    "

/-- The statement that is an expression; a call of the output routine has its own form. -/
def Expr.printStatement : Expr → String
  | .call callee args =>
    if callee = outputName then
      match args with
      | [] => "flow"
      | e :: es => Expr.printList ("flow " ++ e.print) es
    else (Expr.call callee args).print
  | e => e.print

/-- A block around its printed statements. -/
def printBlock (depth : Nat) (body : String) : String :=
  "\x7b\n" ++ body ++ indentation depth ++ "\x7d"

mutual

def Stmt.print (depth : Nat) : Stmt → String
  | .spit name value => indentation depth ++ "spit " ++ name ++ " = " ++ value.print ++ "\n"
  | .verse name params body =>
    let header :=
      if isCypherBlock name params then "cypher "
      else "verse " ++ name ++ "(" ++ ", ".intercalate params ++ ") "
    indentation depth ++ header ++ printBlock depth (Stmt.printList (depth + 1) "" body) ++ "\n"
  | .assign name value => indentation depth ++ name ++ " = " ++ value.print ++ "\n"
  | .battle condition thenBranch none =>
    indentation depth ++ "battle (" ++ condition.print ++ ") " ++
      printBlock depth (Stmt.printList (depth + 1) "" thenBranch) ++ "\n"
  | .battle condition thenBranch (some elseBranch) =>
    indentation depth ++ "battle (" ++ condition.print ++ ") " ++
      printBlock depth (Stmt.printList (depth + 1) "" thenBranch) ++ " defeat " ++
      printBlock depth (Stmt.printList (depth + 1) "" elseBranch) ++ "\n"
  | .ret none => indentation depth ++ "return\n"
  | .ret (some value) => indentation depth ++ "return " ++ value.print ++ "\n"
  | .expr e => indentation depth ++ e.printStatement ++ "\n"

/-- Adds to `text` the statements, each on its lines. -/
def Stmt.printList (depth : Nat) (text : String) : List Stmt → String
  | [] => text
  | s :: ss => Stmt.printList depth (text ++ s.print depth) ss

end

def Program.print (p : Program) : String := Stmt.printList 0 "" p

end CypherLang
