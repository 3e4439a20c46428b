namespace CypherLang

structure Options where
  /-- The program to run; the built-in sample if there is none. -/
  input : Option String := none
  json : Bool := false
  maxDepth : Option Nat := none
  verbosity : Nat := 0

inductive Command
  | run (options : Options)
  | version
  | help
  | usageError

namespace Command

/-- A number of at most 64 bits in digits, with or without a plus sign. -/
def readSize? (text : String) : Option Nat :=
  let digits :=
    match text.toList with
    | '+' :: cs => cs
    | cs => cs
  if digits.isEmpty || !digits.all Char.isDigit then none
  else
    let n := Nat.ofDigitChars 10 digits 0
    if n < UInt64.size then some n else none

def setDepth (o : Options) (text : String) : Option Options :=
  match o.maxDepth, readSize? text with
  | none, some n => some { o with maxDepth := some n }
  | _, _ => none

def setInput (o : Options) (text : String) : Option Options :=
  if o.input.isSome || text.isEmpty then none else some { o with input := some text }

/-- The arguments after a lone `--`, which name files whatever they look like. -/
def readFiles (o : Options) : List String → Command
  | [] => .run o
  | arg :: args =>
    match setInput o arg with
    | some o => readFiles o args
    | none => .usageError

/-- Single-letter flags written together: the options after them, or the command that one of them
decides on. -/
def readFlags (o : Options) : List Char → Except Command Options
  | [] => .ok o
  | 'v' :: cs => readFlags { o with verbosity := o.verbosity + 1 } cs
  | 'V' :: _ => .error .version
  | 'h' :: _ => .error .help
  | _ :: _ => .error .usageError

/-- An argument that is neither an option by name nor the value of one. -/
def readArgument (o : Options) (arg : String) : Except Command Options :=
  match arg.toList with
  | '-' :: '-' :: cs =>
    match (String.ofList cs).splitOn "=" with
    | "max-depth" :: value :: more =>
      match setDepth o ("=".intercalate (value :: more)) with
      | some o => .ok o
      | none => .error .usageError
    | _ => .error .usageError
  | '-' :: c :: cs => readFlags o (c :: cs)
  | _ =>
    match setInput o arg with
    | some o => .ok o
    | none => .error .usageError

/-- Whether an argument is read as an option, so that it cannot be the value of one. -/
def isOption (arg : String) : Bool :=
  match arg.toList with
  | '-' :: _ :: _ => true
  | _ => false

def readFrom (o : Options) : List String → Command
  | [] => .run o
  | "--" :: args => readFiles o args
  | "--json" :: args => if o.json then .usageError else readFrom { o with json := true } args
  | "--verbose" :: args => readFrom { o with verbosity := o.verbosity + 1 } args
  | "--version" :: _ => .version
  | "--help" :: _ => .help
  | ["--max-depth"] => .usageError
  | "--max-depth" :: value :: args =>
    if isOption value then .usageError
    else
      match setDepth o value with
      | some o => readFrom o args
      | none => .usageError
  | arg :: args =>
    match readArgument o arg with
    | .ok o => readFrom o args
    | .error command => command

def ofArguments (args : List String) : Command := readFrom {} args

end Command

end CypherLang
