import CypherLang.Binary64

namespace CypherLang

inductive BinOp
  | add | sub | mul | div | eq | greater | less
  deriving DecidableEq

def BinOp.symbol : BinOp → String
  | add => "+"
  | sub => "-"
  | mul => "*"
  | div => "/"
  | eq => "=="
  | greater => ">"
  | less => "<"

inductive Literal
  | int (n : Int64)
  | float (x : Binary64)
  | text (s : String)
  | bool (b : Bool)
  | null
  deriving DecidableEq

inductive Expr
  | literal (l : Literal)
  | identifier (name : String)
  | binary (left : Expr) (op : BinOp) (right : Expr)
  | neg (operand : Expr)
  | call (callee : String) (args : List Expr)

inductive Stmt
  /-- Declares a variable: `spit name = value`. -/
  | spit (name : String) (value : Expr)
  /-- Declares a function: `verse name(params)` and a block, or `cypher` and a block. -/
  | verse (name : String) (params : List String) (body : List Stmt)
  /-- Changes a variable that exists: `name = value`. -/
  | assign (name : String) (value : Expr)
  /-- Chooses a branch: `battle (condition)` and a block, with or without `defeat` and a block. -/
  | battle (condition : Expr) (thenBranch : List Stmt) (elseBranch : Option (List Stmt))
  | ret (value : Option Expr)
  /-- An expression run for its effect; `flow a, b` is a call of the output routine. -/
  | expr (e : Expr)

/-- The statements of a program in order. -/
abbrev Program := List Stmt

/-- The name under which a `cypher` block is declared. -/
def entryName : String := "cypher"

/-- The name of the output routine. -/
def outputName : String := "flow"

/-- A declaration without parameters under the name of the entry point is a `cypher` block. -/
def isCypherBlock (name : String) (params : List String) : Bool :=
  name == entryName && params.isEmpty

def Literal.agrees : Literal → Literal → Bool
  | float x, float y => x.equal y
  | a, b => a == b

mutual

def Expr.agrees : Expr → Expr → Bool
  | .literal a, .literal b => a.agrees b
  | .identifier a, .identifier b => a == b
  | .binary l op r, .binary l' op' r' => op == op' && l.agrees l' && r.agrees r'
  | .neg a, .neg b => a.agrees b
  | .call f args, .call g args' => f == g && Expr.allAgree args args'
  | _, _ => false

def Expr.allAgree : List Expr → List Expr → Bool
  | [], [] => true
  | a :: as, b :: bs => a.agrees b && Expr.allAgree as bs
  | _, _ => false

end

mutual

def Stmt.agrees : Stmt → Stmt → Bool
  | .spit x a, .spit y b => x == y && a.agrees b
  | .verse f ps body, .verse g qs body' => f == g && ps == qs && Stmt.allAgree body body'
  | .assign x a, .assign y b => x == y && a.agrees b
  | .battle c t none, .battle c' t' none => c.agrees c' && Stmt.allAgree t t'
  | .battle c t (some e), .battle c' t' (some e') =>
    c.agrees c' && Stmt.allAgree t t' && Stmt.allAgree e e'
  | .ret none, .ret none => true
  | .ret (some a), .ret (some b) => a.agrees b
  | .expr a, .expr b => a.agrees b
  | _, _ => false

def Stmt.allAgree : List Stmt → List Stmt → Bool
  | [], [] => true
  | a :: as, b :: bs => a.agrees b && Stmt.allAgree as bs
  | _, _ => false

end

def Program.agrees (p q : Program) : Bool := Stmt.allAgree p q

end CypherLang
