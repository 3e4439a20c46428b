import CypherLang.Syntax.SyntaxError

namespace CypherLang

structure Cursor where
  /-- The tokens that are left; none of them is an end of file. -/
  rest : List Token
  /-- The line on which the tokens end. -/
  endLine : UInt32
  /-- The number of tokens at the start. -/
  size : Nat
  /-- The number of open blocks, expressions and operators. -/
  depth : Nat

abbrev Parser := EStateM SyntaxError Cursor

namespace Cursor

/-- The start of a list of tokens. The list ends at its first end of file, or else on the line of
its last token. -/
def ofTokens (tokens : List Token) : Cursor where
  rest := tokens.takeWhile (·.kind != .eof)
  size := tokens.length
  endLine :=
    match tokens.find? (·.kind == .eof) with
    | some t => t.line
    | none => (tokens.getLast?.map Token.line).getD 1
  depth := 0

/-- The next token; after the last one, an end of file. -/
def token (c : Cursor) : Token := c.rest.headD ⟨.eof, "", c.endLine⟩

def kind (c : Cursor) : Token.Kind := c.token.kind

/-- The kind of the token after the next. -/
def secondKind (c : Cursor) : Token.Kind := ({ c with rest := c.rest.tail } : Cursor).kind

end Cursor

namespace Parser

def peek : Parser Token.Kind := return (← get).kind

/-- Takes the next token. -/
def next : Parser Token :=
  modifyGet fun c => (c.token, { c with rest := c.rest.tail })

def refuse (expected : Wanted) : Parser α := do
  let t := (← get).token
  throw (.unexpectedToken expected t.kind t.line)

def require (kind : Token.Kind) : Parser Token := do
  if (← peek) = kind then next else refuse (.kind kind)

/-- Takes the next token if it is of the given kind, and tells whether it did. -/
def accept (kind : Token.Kind) : Parser Bool := do
  if (← peek) = kind then
    let _ ← next
    return true
  else return false

def skipBreaks : Parser Unit :=
  modify fun c => { c with rest := c.rest.dropWhile (·.kind == .newline) }

/-- Takes a token of the given kind that follows after any number of line breaks, and the breaks
with it; takes nothing if another token follows. -/
def acceptAfterBreaks (kind : Token.Kind) : Parser Bool := do
  let c ← get
  let ahead : Cursor := { c with rest := c.rest.dropWhile (·.kind == .newline) }
  if ahead.kind = kind then
    set ({ ahead with rest := ahead.rest.tail } : Cursor)
    return true
  else return false

/-- A count of levels. Only its steps between zero and the limit are laid down. -/
structure Counter where
  up : Nat → Nat
  down : Nat → Nat
  up_eq : ∀ n < maxNesting, up n = n + 1
  down_eq : ∀ n < maxNesting, down (n + 1) = n

/-- The program's own count. -/
def Counter.exact : Counter where
  up n := n + 1
  down n := n - 1
  up_eq _ _ := rfl
  down_eq _ _ := rfl

/-- Goes one level deeper. -/
def descend (count : Counter) : Parser Unit := do
  let c ← get
  if c.depth < maxNesting then set { c with depth := count.up c.depth }
  else throw (.nestingTooDeep c.token.line)

def enter : Parser Unit := descend .exact

/-- Changes the depth that a parser leaves behind, whether it succeeds or fails. -/
def leaving (depth : Cursor → Nat) (p : Parser α) : Parser α := fun c =>
  match p c with
  | .ok a c => .ok a { c with depth := depth c }
  | .error e c => .error e { c with depth := depth c }

/-- Runs a parser one level deeper. -/
def nested (count : Counter) (p : Parser α) : Parser α := do
  descend count
  leaving (fun c => count.down c.depth) p

def deeper (p : Parser α) : Parser α := nested .exact p

/-- Runs a parser and then returns to the depth before it. -/
def restoringDepth (p : Parser α) : Parser α := fun c =>
  leaving (fun _ => c.depth) p c

/-- Repeats a step, at most `n` times, until it gives no value. -/
def repeatUpTo (step : α → Parser (Option α)) : Nat → α → Parser α
  | 0, a => return a
  | n + 1, a => do
    match ← step a with
    | some b => repeatUpTo step n b
    | none => return a

/-- Repeats a step until it gives no value. Each step takes a token, so there are no more steps
than tokens. -/
def iterate (step : α → Parser (Option α)) (a : α) : Parser α := do
  repeatUpTo step (← get).size a

/-- A comma and one more item, put before the items read so far. -/
def commaStep (item : Parser α) (items : List α) : Parser (Option (List α)) := do
  if ← accept (.symbol .comma) then return some ((← item) :: items) else return none

/-- One or more items with commas between them. -/
def commaList (item : Parser α) : Parser (List α) := do
  let items ← iterate (commaStep item) [← item]
  return items.reverse

/-- Nothing if the next token is of one of the `closing` kinds, and a list with commas otherwise. -/
def commaListUnless (closing : Token.Kind → Bool) (item : Parser α) : Parser (List α) := do
  if closing (← peek) then return [] else commaList item

end Parser

end CypherLang
