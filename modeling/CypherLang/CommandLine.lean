import CypherLang.CommandLine.Arguments
import CypherLang.CommandLine.DefaultProgram
import CypherLang.CommandLine.Files
import CypherLang.Console
import CypherLang.Diagnostic.Json
import CypherLang.Json
import CypherLang.Session

namespace CypherLang.CommandLine

structure Result where
  stdout : String
  /-- The log, which goes to the standard error. -/
  log : List String := []
  exit : UInt32

def version : String := "cypher-cli 0.1.0"

def help : String := "\n".intercalate [
  "Run a Cypher program",
  "",
  "Usage: cypher [OPTIONS] [INPUT]",
  "",
  "Arguments:",
  "  [INPUT]  Program to run. Runs a built-in sample when omitted",
  "",
  "Options:",
  "      --json                   Print failures as JSON diagnostics",
  "      --max-depth <MAX_DEPTH>  Maximum depth of nested function calls [default: 200]",
  "  -v, --verbose...             Log more (repeat for more detail)",
  "  -h, --help                   Print help",
  "  -V, --version                Print version"]

/-- The level of detail that a number of `-v` flags asks for. -/
def detail : Nat → Option Level
  | 0 => none
  | 1 => some .info
  | 2 => some .debug
  | _ => some .trace

/-- The pieces of some bytes between line feeds. -/
def splitBytes (bytes : List UInt8) : List (List UInt8) :=
  bytes.foldr
    (fun b pieces =>
      if b = 10 then [] :: pieces
      else
        match pieces with
        | [] => [[b]]
        | piece :: rest => (b :: piece) :: rest)
    [[]]

def decode (bytes : List UInt8) : Except String String :=
  match String.fromUTF8? ⟨bytes.toArray⟩ with
  | some text => .ok text
  | none => .error ReadError.notText.message

/-- A line that ended in a line feed, without the carriage return before it. -/
def stripReturn (line : List UInt8) : List UInt8 :=
  if line.getLast? = some 13 then line.dropLast else line

/-- The lines of the standard input. After the last line feed there is a line only if something
follows. -/
def inputLines (bytes : ByteArray) : List (Except String String) :=
  let pieces := splitBytes bytes.toList
  let last := (pieces.getLast?.getD [])
  (pieces.dropLast.map fun line => decode (stripReturn line)) ++
    (if last.isEmpty then [] else [decode last])

/-- Whether a program text names the routine that reads a line. -/
def asksForInput (text : String) : Bool :=
  match Token.lex text with
  | .ok tokens => tokens.any (·.text == Builtin.listen.name)
  | .error _ => false

def failureText (options : Options) (source : Listing) (f : Failure) : String :=
  if options.json then (f.report source).toPrettyJson Json.library ++ "\n"
  else "Error: " ++ f.message ++ "\n"

def runSource (options : Options) (source : Listing) (stdin : ByteArray) : Result :=
  let base : Limits := {}
  let limits := { base with calls := options.maxDepth.getD base.calls }
  let log : Log := { level := detail options.verbosity }
  let log := if options.input.isNone then log.add .defaultChosen else log
  let log := log.add (.loaded source.name source.numLines)
  let console : Console := { input := inputLines stdin }
  let outcome := CypherLang.runSource source.text limits console log
  let written := String.join (outcome.host.output.toList.map (· ++ "\n"))
  match outcome.result with
  | .ok none => { stdout := written, log := outcome.log.lines, exit := 0 }
  | .ok (some v) =>
    { stdout := written, log := (outcome.log.add (.finished v.display)).lines, exit := 0 }
  | .error f =>
    { stdout := written ++ failureText options source f, log := outcome.log.lines, exit := 1 }

/-- The source of a program from the bytes of its file. -/
def sourceOf (name : String) (content : Except ReadError ByteArray) : Except ReadError Listing := do
  match String.fromUTF8? (← content) with
  | some text => .ok ⟨name, text⟩
  | none => .error .notText

/-- Runs the program that the options name, once `read` has given its content. -/
def runOptions (options : Options) (read : String → Except ReadError ByteArray)
    (stdin : ByteArray) : Result :=
  match options.input with
  | none => runSource options defaultProgram stdin
  | some name =>
    match sourceOf name (read name) with
    | .ok source => runSource options source stdin
    | .error e =>
      { stdout := "Error: could not read " ++ name ++ ": " ++ e.message ++ "\n", exit := 1 }

def execute (args : List String) (read : String → Except ReadError ByteArray)
    (stdin : ByteArray) : Result :=
  match Command.ofArguments args with
  | .run options => runOptions options read stdin
  | .version => { stdout := version ++ "\n", exit := 0 }
  | .help => { stdout := help ++ "\n", exit := 0 }
  | .usageError => { stdout := "", exit := 2 }

end CypherLang.CommandLine
