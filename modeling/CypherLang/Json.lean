import CypherLang.JsonLibrary

namespace CypherLang

/-- A JSON value as far as its text determines it. -/
inductive Json
  | null
  | bool (b : Bool)
  /-- A number, with its value if it is written in digits alone. -/
  | number (natural : Option Nat)
  /-- A string, unless one of its escapes is half of a surrogate pair. -/
  | string (text : Option String)
  | array (items : List Json)
  | object (members : List (Option String × Json))

namespace Json

/-- The two lowest hexadecimal digits of a number. -/
def hexByte (n : Nat) : List Char := [Nat.digitChar (n / 16 % 16), Nat.digitChar (n % 16)]

/-- A character as it is written inside a string. -/
def escape (c : Char) : List Char :=
  match c with
  | '"' => ['\\', '"']
  | '\\' => ['\\', '\\']
  | '\x08' => ['\\', 'b']
  | '\t' => ['\\', 't']
  | '\n' => ['\\', 'n']
  | '\x0c' => ['\\', 'f']
  | '\r' => ['\\', 'r']
  | c => if c.toNat < 32 then '\\' :: 'u' :: '0' :: '0' :: hexByte c.toNat else [c]

def quote (s : String) : String :=
  .ofList ('"' :: s.toList.flatMap escape ++ ['"'])

def hexDigit? (c : Char) : Option Nat :=
  if '0' ≤ c ∧ c ≤ '9' then some (c.toNat - '0'.toNat)
  else if 'a' ≤ c ∧ c ≤ 'f' then some (c.toNat - 'a'.toNat + 10)
  else if 'A' ≤ c ∧ c ≤ 'F' then some (c.toNat - 'A'.toNat + 10)
  else none

/-- The code unit written by four hexadecimal digits. -/
def codeUnit? (a b c d : Char) : Option Nat := do
  return (((← hexDigit? a) * 16 + (← hexDigit? b)) * 16 + (← hexDigit? c)) * 16 + (← hexDigit? d)

/-- The character that a backslash and `c` stand for. -/
def unescape? : Char → Option Char
  | '"' => some '"'
  | '\\' => some '\\'
  | '/' => some '/'
  | 'b' => some '\x08'
  | 'f' => some '\x0c'
  | 'n' => some '\n'
  | 'r' => some '\r'
  | 't' => some '\t'
  | _ => none

/-- The code points and code units of a string after its opening quote, and what follows its
closing quote. Those read so far are in `read`, last first. -/
def readUnits (read : List Nat) : List Char → Option (List Nat × List Char)
  | '"' :: cs => some (read.reverse, cs)
  | '\\' :: 'u' :: a :: b :: c :: d :: cs =>
    match codeUnit? a b c d with
    | some u => readUnits (u :: read) cs
    | none => none
  | '\\' :: c :: cs =>
    match unescape? c with
    | some c => readUnits (c.toNat :: read) cs
    | none => none
  | c :: cs => if c.toNat < 32 then none else readUnits (c.toNat :: read) cs
  | [] => none

def isHighSurrogate (u : Nat) : Bool := 0xD800 ≤ u && u ≤ 0xDBFF

def isLowSurrogate (u : Nat) : Bool := 0xDC00 ≤ u && u ≤ 0xDFFF

/-- Joins surrogate pairs; fails at a surrogate without its other half. -/
def joinUnits (read : List Char) : List Nat → Option (List Char)
  | [] => some read.reverse
  | u :: us =>
    if isHighSurrogate u then
      match us with
      | v :: us =>
        if isLowSurrogate v then
          joinUnits (.ofNat (0x10000 + (u - 0xD800) * 0x400 + (v - 0xDC00)) :: read) us
        else none
      | [] => none
    else if isLowSurrogate u then none
    else joinUnits (.ofNat u :: read) us

/-- Reads a string after its opening quote. -/
def readString (cs : List Char) : Option (Option String × List Char) :=
  (readUnits [] cs).map fun (units, rest) => ((joinUnits [] units).map .ofList, rest)

/-- Digits and what follows them; there must be one. -/
def readDigits (cs : List Char) : Option (List Char × List Char) :=
  match cs.takeWhile Char.isDigit with
  | [] => none
  | digits => some (digits, cs.dropWhile Char.isDigit)

/-- The whole part of a number, which has no zero in front. -/
def readWhole : List Char → Option (List Char × List Char)
  | '0' :: cs => if (cs.head?.map Char.isDigit).getD false then none else some (['0'], cs)
  | cs => readDigits cs

/-- What follows a fraction; the flag tells whether there was one. -/
def readFraction : List Char → Option (Bool × List Char)
  | '.' :: cs => (readDigits cs).map fun (_, rest) => (true, rest)
  | cs => some (false, cs)

/-- What follows an exponent; the flag tells whether there was one. -/
def readExponent (cs : List Char) : Option (Bool × List Char) :=
  match cs with
  | c :: rest =>
    if c = 'e' ∨ c = 'E' then
      let digits :=
        match rest with
        | '+' :: r => r
        | '-' :: r => r
        | r => r
      (readDigits digits).map fun (_, rest) => (true, rest)
    else some (false, cs)
  | [] => some (false, [])

def readNumber (cs : List Char) : Option (Json × List Char) := do
  let (negative, cs) :=
    match cs with
    | '-' :: cs => (true, cs)
    | cs => (false, cs)
  let (whole, cs) ← readWhole cs
  let (hasFraction, cs) ← readFraction cs
  let (hasExponent, cs) ← readExponent cs
  let natural := Nat.ofDigitChars 10 whole 0
  return (number (if negative || hasFraction || hasExponent then none else some natural), cs)

def skipBlanks (cs : List Char) : List Char :=
  cs.dropWhile fun c => c == ' ' || c == '\t' || c == '\n' || c == '\r'

mutual

/-- Reads a value. Every value inside it is shorter, so its length is fuel enough. -/
def readValue : (fuel : Nat) → List Char → Option (Json × List Char)
  | 0, _ => none
  | fuel + 1, cs =>
    match skipBlanks cs with
    | 'n' :: 'u' :: 'l' :: 'l' :: r => some (null, r)
    | 't' :: 'r' :: 'u' :: 'e' :: r => some (bool true, r)
    | 'f' :: 'a' :: 'l' :: 's' :: 'e' :: r => some (bool false, r)
    | '"' :: r => (readString r).map fun (s, r) => (string s, r)
    | '[' :: r =>
      match skipBlanks r with
      | ']' :: r => some (array [], r)
      | _ => (readItems fuel [] r).map fun (items, r) => (array items, r)
    | '{' :: r =>
      match skipBlanks r with
      | '}' :: r => some (object [], r)
      | _ => (readMembers fuel [] r).map fun (members, r) => (object members, r)
    | r => readNumber r

/-- Reads the items of an array up to its end, after those in `read`, last first. -/
def readItems : (fuel : Nat) → (read : List Json) → List Char → Option (List Json × List Char)
  | 0, _, _ => none
  | fuel + 1, read, cs =>
    match readValue fuel cs with
    | none => none
    | some (item, r) =>
      match skipBlanks r with
      | ']' :: r => some ((item :: read).reverse, r)
      | ',' :: r => readItems fuel (item :: read) r
      | _ => none

/-- Reads the members of an object up to its end, after those in `read`, last first. -/
def readMembers : (fuel : Nat) → (read : List (Option String × Json)) → List Char →
    Option (List (Option String × Json) × List Char)
  | 0, _, _ => none
  | fuel + 1, read, cs =>
    match skipBlanks cs with
    | '"' :: r =>
      match readString r with
      | none => none
      | some (key, r) =>
        match skipBlanks r with
        | ':' :: r =>
          match readValue fuel r with
          | none => none
          | some (value, r) =>
            match skipBlanks r with
            | '}' :: r => some (((key, value) :: read).reverse, r)
            | ',' :: r => readMembers fuel ((key, value) :: read) r
            | _ => none
        | _ => none
    | _ => none

end

/-- Reads a text that is one value with blanks around it. -/
def ofText? (text : String) : Option Json :=
  match readValue (text.length + 1) text.toList with
  | some (value, rest) => if (skipBlanks rest).isEmpty then some value else none
  | none => none

/-- An object on one line, or with one member a line, from the texts of its values. -/
def objectText (pretty : Bool) (members : List (String × String)) : String :=
  if members.isEmpty then "\x7b\x7d"
  else if pretty then
    "\x7b\n" ++ ",\n".intercalate (members.map fun (k, v) => "  " ++ quote k ++ ": " ++ v) ++
      "\n\x7d"
  else "\x7b" ++ ",".intercalate (members.map fun (k, v) => quote k ++ ":" ++ v) ++ "\x7d"

def text? : Json → Option String
  | string text => text
  | _ => none

/-- A number below `size`. -/
def natural? (size : Nat) : Json → Option Nat
  | number (some n) => if n < size then some n else none
  | _ => none

/-- A variant is its name, or an object with that name and null. -/
def variant? (names : List String) (value : Json) : Option String :=
  let name :=
    match value with
    | string name => name
    | object [(name, null)] => name
    | _ => none
  name.filter (names.contains ·)

def keys? : Json → Option (List String)
  | object members => members.mapM Prod.fst
  | _ => none

/-- The value of a member that may be missing, but not be there twice. -/
def member? (members : List (Option String × Json)) (name : String) : Option (Option Json) :=
  match members.filter (·.1 == some name) with
  | [] => some none
  | [(_, value)] => some (some value)
  | _ => none

/-- The values of an object, in which other members are ignored, or those of an array in order. -/
def fields? (names : List String) : Json → Option (List (Option Json))
  | object members =>
    if members.all (·.1.isSome) then names.mapM (member? members) else none
  | array items => if items.length = names.length then some (items.map some) else none
  | _ => none

/-- A value that may be missing or null. -/
def optional? (read : Json → Option α) : Option Json → Option (Option α)
  | none => some none
  | some null => some none
  | some value => (read value).map some

def library : JsonLibrary where
  Value := Json
  string := quote
  u16 n := toString n.toNat
  u32 n := toString n.toNat
  variant := quote
  record pretty fields := objectText pretty (JsonLibrary.present fields)
  parse? := ofText?
  keys? := keys?
  fields? := fields?
  string? := text?
  u16? value := (natural? UInt16.size value).map .ofNat
  u32? value := (natural? UInt32.size value).map .ofNat
  variant? := variant?
  optional? := optional?

end Json

end CypherLang
