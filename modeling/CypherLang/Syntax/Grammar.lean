import CypherLang.Binary64.Text
import CypherLang.Syntax
import CypherLang.Syntax.Cursor

namespace CypherLang

/-- The literal written by a number token: an integer if there is no point and it fits, and a
finite float otherwise. -/
def Literal.ofNumber? (text : String) : Option Literal :=
  match if '.' ∈ text.toList then none else Decimal.int64? text with
  | some n => some (.int n)
  | none =>
    match Binary64.ofText? text with
    | some x => if x.isFinite then some (.float x) else none
    | none => none

namespace Parser

def comparisonOp : Token.Kind → Option BinOp
  | .symbol .equals => some .eq
  | .symbol .greater => some .greater
  | .symbol .less => some .less
  | _ => none

def additiveOp : Token.Kind → Option BinOp
  | .symbol .plus => some .add
  | .symbol .minus => some .sub
  | _ => none

def multiplicativeOp : Token.Kind → Option BinOp
  | .symbol .star => some .mul
  | .symbol .slash => some .div
  | _ => none

/-- An operator and one more operand, joined to the operation read so far. -/
def foldStep (count : Counter) (operator : Token.Kind → Option BinOp) (operand : Parser Expr)
    (left : Expr) : Parser (Option Expr) := do
  match operator (← peek) with
  | none => return none
  | some op =>
    descend count
    let _ ← next
    return some (.binary left op (← operand))

/-- One or more operands with operators between them, grouped to the left. Each operator counts one
level until the chain ends. -/
def fold (count : Counter) (operator : Token.Kind → Option BinOp) (operand : Parser Expr) :
    Parser Expr :=
  restoringDepth do iterate (foldStep count operator operand) (← operand)

def chainStep := foldStep .exact

def chain := fold .exact

def expressionOf (primary : Parser Expr) : Parser Expr :=
  deeper (chain comparisonOp (chain additiveOp (chain multiplicativeOp primary)))

def literal (l : Literal) : Parser Expr := do
  let _ ← next
  return .literal l

def number : Parser Expr := do
  let t ← next
  match Literal.ofNumber? t.text with
  | some l => return .literal l
  | none => throw (.invalidNumber t.text t.line)

/-- Arguments in parentheses. -/
def argumentsWith (expression : Parser Expr) : Parser (List Expr) := do
  let _ ← require (.symbol .lparen)
  let args ← commaListUnless (· == .symbol .rparen) expression
  let _ ← require (.symbol .rparen)
  return args

/-- After a name, the arguments if it is called. -/
def callOrName (arguments : Parser (List Expr)) (name : String) : Parser Expr := do
  if (← peek) = .symbol .lparen then return .call name (← arguments) else return .identifier name

/-- An operand, given how to read what it is made of. -/
def primaryWith (count : Counter) (arguments : Parser (List Expr))
    (expression primary : Parser Expr) : Parser Expr := do
  match ← peek with
  | .number => number
  | .string => return .literal (.text (← next).text)
  | .keyword .trueWord => literal (.bool true)
  | .keyword .falseWord => literal (.bool false)
  | .keyword .nullWord => literal .null
  | .identifier => callOrName arguments (← next).text
  | .symbol .lparen =>
    let _ ← next
    let e ← expression
    let _ ← require (.symbol .rparen)
    return e
  | .symbol .minus =>
    let _ ← next
    nested count do return .neg (← primary)
  | _ => refuse .expression

/-- An operand; `levels` bounds how deep operands nest inside each other. -/
def primary : Nat → Parser Expr
  | 0, c => .error (.nestingTooDeep c.token.line) c
  -- With the cursor as an argument a level is unfolded only where it is reached.
  | levels + 1, c =>
    primaryWith .exact (argumentsWith (expressionOf (primary levels)))
      (expressionOf (primary levels)) (primary levels) c

def expression : Parser Expr := expressionOf (primary (maxNesting + 1))

def identifier : Parser String := return (← require .identifier).text

/-- Line breaks and, unless a token of one of the `closing` kinds follows, one more statement. -/
def statementStep (closing : Token.Kind → Bool) (statement : Parser Stmt) (done : List Stmt) :
    Parser (Option (List Stmt)) := do
  skipBreaks
  if closing (← peek) then return none else return some ((← statement) :: done)

/-- Statements up to a token of one of the `closing` kinds, with line breaks around them. -/
def statements (closing : Token.Kind → Bool) (statement : Parser Stmt) : Parser (List Stmt) := do
  let done ← iterate (statementStep closing statement) []
  return done.reverse

/-- A statement, given how to read expressions and blocks. -/
def statementWith (expression : Parser Expr) (block : Parser (List Stmt)) : Parser Stmt := do
  match ← peek with
  | .keyword .spit =>
    let _ ← next
    let name ← identifier
    let _ ← require (.symbol .assign)
    return .spit name (← expression)
  | .keyword .verse =>
    let _ ← next
    let name ← identifier
    let _ ← require (.symbol .lparen)
    let params ← commaListUnless (· == .symbol .rparen) identifier
    let _ ← require (.symbol .rparen)
    return .verse name params (← block)
  | .keyword .cypher =>
    let _ ← next
    return .verse entryName [] (← block)
  | .keyword .flow =>
    let callee := (← next).text
    return .expr (.call callee (← commaListUnless Token.Kind.closesStatement expression))
  | .keyword .battle =>
    let _ ← next
    let _ ← require (.symbol .lparen)
    let condition ← expression
    let _ ← require (.symbol .rparen)
    let thenBranch ← block
    if ← acceptAfterBreaks (.keyword .defeat) then
      return .battle condition thenBranch (some (← block))
    else return .battle condition thenBranch none
  | .keyword .ret =>
    let _ ← next
    if (← peek).closesStatement then return .ret none else return .ret (some (← expression))
  | .identifier =>
    if (← get).secondKind = .symbol .assign then
      let name ← identifier
      let _ ← require (.symbol .assign)
      return .assign name (← expression)
    else return .expr (← expression)
  | _ => return .expr (← expression)

def statementOf (block : Parser (List Stmt)) : Parser Stmt := statementWith expression block

def closesBlock : Token.Kind → Bool
  | .symbol .rbrace | .eof => true
  | _ => false

/-- A block, given how to read a statement. -/
def blockWith (count : Counter) (statement : Parser Stmt) : Parser (List Stmt) := do
  let _ ← require (.symbol .lbrace)
  nested count do
    let body ← statements closesBlock statement
    let _ ← require (.symbol .rbrace)
    return body

/-- A block; `levels` bounds how deep blocks nest inside each other. -/
def block : Nat → Parser (List Stmt)
  | 0, c => .error (.nestingTooDeep c.token.line) c
  | levels + 1, c => blockWith .exact (statementOf (block levels)) c

def statement : Parser Stmt := statementOf (block (maxNesting + 1))

def program : Parser Program := statements (· == .eof) statement

end Parser

/-- The program that a list of tokens spells. Tokens after an end of file are not read. -/
def Program.ofTokens (tokens : List Token) : Except SyntaxError Program :=
  match Parser.program (.ofTokens tokens) with
  | .ok p _ => .ok p
  | .error e _ => .error e

end CypherLang
