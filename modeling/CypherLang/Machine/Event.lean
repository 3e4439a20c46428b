namespace CypherLang

/-- How much detail a log holds. -/
inductive Level
  | info | debug | trace
  deriving DecidableEq

namespace Level

def rank : Level → Nat
  | info => 0
  | debug => 1
  | trace => 2

def name : Level → String
  | info => "INFO"
  | debug => "DEBUG"
  | trace => "TRACE"

end Level

inductive Event
  | defaultChosen
  | loaded (name : String) (lines : Nat)
  | running (bytes : Nat)
  | lexed (tokens : Nat) (lines : UInt32)
  | parsed (statements : Nat)
  | executing (statements : Nat)
  | topLevelReturn
  | noEntryPoint
  | dispatching
  | call (name : String) (args depth : Nat)
  | builtin (name : String) (args : Nat)
  | finished (value : String)
  deriving DecidableEq

namespace Event

def level : Event → Level
  | defaultChosen | finished _ => .info
  | call .. | builtin .. => .trace
  | _ => .debug

def text : Event → String
  | defaultChosen => "no input file, running the built-in sample"
  | loaded name lines => s!"running {name} ({lines} lines)"
  | running bytes => s!"running {bytes} bytes of source"
  | lexed tokens lines => s!"lexed {tokens} tokens over {lines} lines"
  | parsed statements => s!"parsed {statements} top-level statements"
  | executing statements => s!"executing {statements} top-level statements"
  | topLevelReturn => "top-level return, skipping entry point"
  | noEntryPoint => "no entry point declared"
  | dispatching => "dispatching entry point"
  | call name args depth => s!"call {name}({args} args) at depth {depth}"
  | builtin name args => s!"builtin {name} with {args} args"
  | finished value => s!"program returned {value}"

end Event

/-- The events up to a level of detail, oldest first. -/
structure Log where
  level : Option Level := none
  events : Array Event := #[]

namespace Log

def add (log : Log) (e : Event) : Log :=
  match log.level with
  | some level =>
    if e.level.rank ≤ level.rank then { log with events := log.events.push e } else log
  | none => log

def lines (log : Log) : List String :=
  log.events.toList.map fun e => e.level.name ++ " " ++ e.text

end Log

end CypherLang
