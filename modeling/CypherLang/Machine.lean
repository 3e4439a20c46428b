import CypherLang.Host
import CypherLang.Machine.Event
import CypherLang.Store.Collect
import CypherLang.Value.RuntimeError

namespace CypherLang

structure Limits where
  /-- How many calls of functions may be active at once. -/
  calls : Nat := 200
  /-- How many expressions and blocks may be under evaluation at once. -/
  levels : Nat := 1024

structure Machine (H : Type) where
  store : Store
  globals : ScopeId
  host : H
  /-- The number of active calls. -/
  calls : Nat
  /-- The number of expressions and blocks under evaluation. -/
  levels : Nat
  /-- The scopes of calls and branches that have not been released, oldest first. -/
  tracked : Array ScopeId
  log : Log

/-- Why a run ends without a result. -/
inductive Halt
  | error (e : RuntimeError)
  /-- The bound on the recursion of the evaluator was too small for the limits. -/
  | outOfFuel

abbrev Run (H : Type) := EStateM Halt (Machine H)

variable {H : Type}

namespace Machine

/-- The machine before any program: the global scope binds the built-in routines. -/
def start (host : H) (log : Log := {}) : Machine H :=
  let (globals, store) := Store.empty.newRoot
  { store := Builtin.all.foldl (fun st b => st.bind globals b.name (.builtin b)) store
    globals, host, calls := 0, levels := 0, tracked := #[], log }

/-- Releases those of the scopes tracked since `mark` to which neither the function `held` nor an
older scope leads. -/
def collect (mark : Nat) (held : Option Closure) (m : Machine H) : Machine H :=
  let group := (m.tracked.extract mark).toList
  let all := m.store.references (m.globals :: m.tracked.toList) ++ ⟨[], held.toList⟩
  let (live, store) := m.store.collect all group
  { m with store, tracked := m.tracked.take mark ++ live }

/-- Clears every scope the machine still tracks, and the global one. -/
def shutdown (m : Machine H) : Machine H :=
  { m with store := (m.store.resetAll m.tracked.toList).reset m.globals, tracked := #[] }

end Machine

namespace Run

def fail (e : RuntimeError) : Run H α := throw (.error e)

def ofExcept : Except RuntimeError α → Run H α
  | .ok a => return a
  | .error e => fail e

def log (e : Event) : Run H Unit := modify fun m => { m with log := m.log.add e }

/-- Does `after` to the machine that a step leaves behind, whether it succeeds or fails. -/
def ensuring (after : Option α → Machine H → Machine H) (step : Run H α) : Run H α := fun m =>
  match step m with
  | .ok a m => .ok a (after (some a) m)
  | .error e m => .error e (after none m)

def lookup (s : ScopeId) (name : String) : Run H Value := do
  match (← get).store.get? s name with
  | some v => return v
  | none => fail (.undefinedVariable name .read)

def declareValue (s : ScopeId) (name : String) (value : Value) : Run H Unit :=
  modify fun m => { m with store := m.store.bind s name value }

def assign (s : ScopeId) (name : String) (value : Value) : Run H Unit := fun m =>
  match m.store.owner? s name with
  | some o => .ok () { m with store := m.store.bind o name value }
  | none => .error (.error (.undefinedVariable name .write)) m

/-- Declares a function in the scope `s`. -/
def declareVerse (s : ScopeId) (name : String) (params : List String) (body : List Stmt) :
    Run H Unit :=
  modify fun m =>
    let (f, store) := m.store.capture name params body s
    { m with store := store.bind s name (.verse f) }

/-- A new scope inside `parent`, tracked until it is released. -/
def openScope (parent : ScopeId) : Run H ScopeId :=
  modifyGet fun m =>
    let (s, store) := m.store.newChild parent
    (s, { m with store, tracked := m.tracked.push s })

/-- Runs a step one level deeper. -/
def deeper (limits : Limits) (step : Run H α) : Run H α := do
  if limits.levels ≤ (← get).levels then fail (.stackOverflow limits.levels)
  modify fun m => { m with levels := m.levels + 1 }
  ensuring (fun _ m => { m with levels := m.levels - 1 }) step

def hostCall (f : H → Except String α × H) : Run H α := fun m =>
  match f m.host with
  | (.ok a, host) => .ok a { m with host }
  | (.error reason, host) => .error (.error (.io reason)) { m with host }

end Run

end CypherLang
