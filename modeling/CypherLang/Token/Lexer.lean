import CypherLang.Text.Letter
import CypherLang.Text.Numeral
import CypherLang.Token

namespace CypherLang

/-- A character that starts no token. -/
structure StrayChar where
  char : Char
  line : UInt32
  deriving DecidableEq

def StrayChar.message (e : StrayChar) : String :=
  s!"unexpected character '{e.char}' on line {e.line}"

namespace Token

def startsName (c : Char) : Bool := Text.isLetter c || c == '_'

def continuesName (c : Char) : Bool := Text.isLetter c || Text.isNumeral c || c == '_'

def continuesNumber (c : Char) : Bool := c.isDigit || c == '.'

/-- Drops blanks, and a comment up to the end of its line. -/
def dropBlanks : List Char → List Char
  | [] => []
  | '/' :: '/' :: cs => cs.dropWhile (· != '\n')
  | c :: cs => if c = ' ' ∨ c = '\t' ∨ c = '\r' then dropBlanks cs else c :: cs

/-- The character that a backslash and `c` stand for. -/
def unescape : Char → Char
  | 'n' => '\n'
  | 't' => '\t'
  | c => c

/-- One token's worth of input: what was read and where reading goes on. -/
structure Lexeme where
  kind : Kind
  text : String
  rest : List Char
  /-- The line of the first character of `rest`. -/
  line : UInt32

def nextLine (c : Char) (line : UInt32) : UInt32 := if c = '\n' then line + 1 else line

/-- Reads the inside of a string after its opening quote. A string that is not closed ends with the
input. The characters read so far are in `read`, last first. -/
def readString (quote : Char) (read : List Char) (line : UInt32) : List Char → Lexeme
  | [] => ⟨.string, .ofList read.reverse, [], line⟩
  | c :: cs =>
    if c = quote then ⟨.string, .ofList read.reverse, cs, line⟩
    else if c = '\\' then
      match cs with
      | [] => ⟨.string, .ofList read.reverse, [], line⟩
      | e :: cs => readString quote (unescape e :: read) (nextLine e line) cs
    else readString quote (c :: read) (nextLine c line) cs

/-- The keyword spelled by a word, and an identifier otherwise. -/
def wordKind (word : String) : Kind :=
  match Keyword.ofText? word with
  | some k => .keyword k
  | none => .identifier

/-- The token that starts with `c`. -/
def readLexeme (line : UInt32) (c : Char) (cs : List Char) : Except StrayChar Lexeme :=
  if c = '\n' then .ok ⟨.newline, "\n", cs, line + 1⟩
  else if c = '"' ∨ c = '\'' then .ok (readString c [] line cs)
  else if c.isDigit then
    .ok ⟨.number, .ofList (c :: cs.takeWhile continuesNumber), cs.dropWhile continuesNumber, line⟩
  else if startsName c then
    let word := String.ofList (c :: cs.takeWhile continuesName)
    .ok ⟨wordKind word, word, cs.dropWhile continuesName, line⟩
  else
    match c, cs with
    | '=', '=' :: cs => .ok ⟨.symbol .equals, "==", cs, line⟩
    | c, cs =>
      match Symbol.ofChar? c with
      | some s => .ok ⟨.symbol s, s.text, cs, line⟩
      | none => .error ⟨c, line⟩

theorem dropBlanks_length_le (cs : List Char) : (dropBlanks cs).length ≤ cs.length := by
  fun_induction dropBlanks cs with
  | case1 => simp
  | case2 cs =>
    have := (List.dropWhile_suffix (l := cs) (· != '\n')).length_le
    simp only [List.length_cons]
    omega
  | case3 c cs _ _ ih => simp only [List.length_cons]; omega
  | case4 => simp

theorem readString_length_le (quote : Char) (read : List Char) (line : UInt32) (cs : List Char) :
    (readString quote read line cs).rest.length ≤ cs.length := by
  fun_induction readString quote read line cs <;> simp_all <;> omega

theorem readLexeme_length_le {line : UInt32} {c : Char} {cs : List Char} {x : Lexeme}
    (h : readLexeme line c cs = .ok x) : x.rest.length ≤ cs.length := by
  have drop (p : Char → Bool) : (cs.dropWhile p).length ≤ cs.length :=
    (List.dropWhile_suffix p).length_le
  have string := readString_length_le c [] line cs
  unfold readLexeme at h
  split at h
  · cases h; simp
  split at h
  · cases h; exact string
  split at h
  · cases h; exact drop _
  split at h
  · cases h; exact drop _
  split at h
  · cases h; simp
  split at h
  · cases h; simp
  · cases h

/-- Lexes what is left of the input after the tokens in `done`. -/
def lexFrom (done : Array Token) (line : UInt32) (cs : List Char) :
    Except StrayChar (Array Token) :=
  match _ : dropBlanks cs with
  | [] => .ok (done.push ⟨.eof, "", line⟩)
  | c :: r =>
    match _ : readLexeme line c r with
    | .error e => .error e
    | .ok x => lexFrom (done.push ⟨x.kind, x.text, line⟩) x.line x.rest
termination_by cs.length
decreasing_by
  rename_i blanks lexeme
  have := dropBlanks_length_le cs
  have := readLexeme_length_le lexeme
  simp only [blanks, List.length_cons] at *
  omega

/-- The tokens of a program, with one end of file as the last. -/
def lex (source : String) : Except StrayChar (List Token) :=
  (lexFrom #[] 1 source.toList).map Array.toList

end Token

end CypherLang
