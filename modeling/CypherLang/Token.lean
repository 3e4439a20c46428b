namespace CypherLang

/-- The reserved words. No statement starts with or contains `versus` or `loop`. -/
inductive Keyword
  | spit | verse | cypher | flow | battle | versus | defeat | ret | loop
  | trueWord | falseWord | nullWord
  deriving DecidableEq

namespace Keyword

def all : List Keyword :=
  [spit, verse, cypher, flow, battle, versus, defeat, ret, loop, trueWord, falseWord, nullWord]

def text : Keyword → String
  | spit => "spit"
  | verse => "verse"
  | cypher => "cypher"
  | flow => "flow"
  | battle => "battle"
  | versus => "versus"
  | defeat => "defeat"
  | ret => "return"
  | loop => "loop"
  | trueWord => "true"
  | falseWord => "false"
  | nullWord => "null"

/-- The reserved word spelled `word`, if there is one. -/
def ofText? (word : String) : Option Keyword :=
  all.find? fun k => k.text == word

theorem ofText?_text (k : Keyword) : ofText? k.text = some k := by
  cases k <;> decide

end Keyword

inductive Symbol
  | plus | minus | star | slash | assign | equals | greater | less
  | lparen | rparen | lbrace | rbrace | comma
  deriving DecidableEq

namespace Symbol

def text : Symbol → String
  | plus => "+"
  | minus => "-"
  | star => "*"
  | slash => "/"
  | assign => "="
  | equals => "=="
  | greater => ">"
  | less => "<"
  | lparen => "("
  | rparen => ")"
  | lbrace => "\x7b"
  | rbrace => "\x7d"
  | comma => ","

/-- The symbol of one character. -/
def ofChar? : Char → Option Symbol
  | '+' => some plus
  | '-' => some minus
  | '*' => some star
  | '/' => some slash
  | '=' => some assign
  | '>' => some greater
  | '<' => some less
  | '(' => some lparen
  | ')' => some rparen
  | '{' => some lbrace
  | '}' => some rbrace
  | ',' => some comma
  | _ => none

end Symbol

inductive Token.Kind
  | string
  | number
  | keyword (k : Keyword)
  | symbol (s : Symbol)
  | identifier
  | newline
  | eof
  deriving DecidableEq

namespace Token.Kind

def name : Kind → String
  | string => "string"
  | number => "number"
  | keyword k => k.text
  | symbol s => s.text
  | identifier => "identifier"
  | newline => "newline"
  | eof => "end of file"

/-- How messages mention the kind: a fixed spelling is quoted, a class of tokens is named. -/
def phrase : Kind → String
  | keyword k => "'" ++ k.text ++ "'"
  | symbol s => "'" ++ s.text ++ "'"
  | kind => kind.name

def isReserved : Kind → Bool
  | keyword _ => true
  | _ => false

/-- The kinds before which the operand of `return` and `flow` is left out. -/
def closesStatement : Kind → Bool
  | newline | symbol .rbrace | eof => true
  | _ => false

end Token.Kind

structure Token where
  kind : Token.Kind
  /-- The characters of the token; for a string, what it stands for. -/
  text : String
  /-- Lines are counted from 1 and in 32 bits, and so again from 0 after the last number. -/
  line : UInt32
  deriving DecidableEq

end CypherLang
