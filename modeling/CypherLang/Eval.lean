import CypherLang.Machine
import CypherLang.Value.Operator

namespace CypherLang

/-- How a statement or a block ends when it does not fail. -/
inductive Completion
  | normal
  | returned (v : Value)

namespace Completion

def closure? : Completion → Option Closure
  | normal => none
  | returned v => v.closure?

/-- The value of a call that ends this way. -/
def value : Completion → Value
  | normal => .null
  | returned v => v

end Completion

structure Evaluator (H : Type) where
  expr : Expr → ScopeId → Run H Value
  block : List Stmt → ScopeId → Run H Completion

namespace Eval

variable {H : Type}

def routine [Host H] (b : Builtin) (args : List Value) : Run H Value := do
  Run.log (.builtin b.name args.length)
  match b with
  | .flow =>
    Run.hostCall fun h => Host.write h (" ".intercalate (args.map Value.display))
    return .null
  | .listen =>
    if !args.isEmpty then Run.fail (.arityMismatch b.name 0 args.length)
    match ← Run.hostCall Host.read with
    | some line => return .text line
    | none => return .null

/-- Runs the body of a function in a new scope that binds the parameters, and then releases what
the call has left behind. -/
def activate (limits : Limits) (below : Evaluator H) (f : Closure) (args : List Value) :
    Run H Completion := do
  let m ← get
  let calls := m.calls
  let mark := m.tracked.size
  if limits.calls ≤ calls then Run.fail (.recursionLimit limits.calls)
  Run.log (.call f.name args.length calls)
  let scope ← Run.openScope f.scope
  (f.params.zip args).forM fun (param, arg) => Run.declareValue scope param arg
  modify fun m => { m with calls := m.calls + 1 }
  let leave (c : Option Completion) (m : Machine H) : Machine H :=
    { m with calls := m.calls - 1 }.collect mark (c.bind Completion.closure?)
  Run.ensuring leave (below.block f.body scope)

def call [Host H] (limits : Limits) (below : Evaluator H) (name : String) (args : List Expr)
    (s : ScopeId) : Run H Value := do
  match ← Run.lookup s name with
  | .builtin b => routine b (← args.mapM fun e => below.expr e s)
  | .verse f =>
    if args.length ≠ f.params.length then
      Run.fail (.arityMismatch name f.params.length args.length)
    let values ← args.mapM fun e => below.expr e s
    return (← activate limits below f values).value
  | v => Run.fail (.notCallable name v.kindName)

def expr [Host H] (limits : Limits) (below : Evaluator H) (e : Expr) (s : ScopeId) :
    Run H Value := do
  match e with
  | .literal l => return .ofLiteral l
  | .identifier name => Run.lookup s name
  | .binary left op right =>
    let a ← below.expr left s
    let b ← below.expr right s
    Run.ofExcept (a.apply op b)
  | .neg operand => Run.ofExcept (← below.expr operand s).minus
  | .call name args => call limits below name args s

def stmt (below : Evaluator H) (x : Stmt) (s : ScopeId) : Run H Completion := do
  match x with
  | .spit name value =>
    Run.declareValue s name (← below.expr value s)
    return .normal
  | .verse name params body =>
    Run.declareVerse s name params body
    return .normal
  | .assign name value =>
    Run.assign s name (← below.expr value s)
    return .normal
  | .battle condition thenBranch elseBranch =>
    let branch := if (← below.expr condition s).holds then some thenBranch else elseBranch
    match branch with
    | some body => below.block body (← Run.openScope s)
    | none => return .normal
  | .ret none => return .returned .null
  | .ret (some value) => return .returned (← below.expr value s)
  | .expr e =>
    let _ ← below.expr e s
    return .normal

/-- Runs statements in order up to the first that returns. -/
def stmts (below : Evaluator H) (s : ScopeId) : List Stmt → Run H Completion
  | [] => return .normal
  | x :: xs => do
    match ← stmt below x s with
    | .normal => stmts below s xs
    | .returned v => return .returned v

end Eval

variable {H : Type} [Host H]

/-- The evaluator for at most `fuel` levels. -/
def evaluator (limits : Limits) : (fuel : Nat) → Evaluator H
  | 0 => ⟨fun _ _ => throw .outOfFuel, fun _ _ => throw .outOfFuel⟩
  | fuel + 1 =>
    { expr := fun e s => Run.deeper limits (Eval.expr limits (evaluator limits fuel) e s)
      block := fun body s => Run.deeper limits (Eval.stmts (evaluator limits fuel) s body) }

/-- Runs a program on a machine: its statements in the global scope, and then the entry point
unless a statement returns. No node is evaluated below the limit on levels, so one more level of
fuel is enough. -/
def Program.exec (limits : Limits) (p : Program) : Run H (Option Value) := do
  let eval := evaluator limits (limits.levels + 1)
  Run.log (.executing p.length)
  let globals := (← get).globals
  match ← eval.block p globals with
  | .returned v =>
    Run.log .topLevelReturn
    return some v
  | .normal =>
    match (← get).store.get? globals entryName with
    | some (.verse f) =>
      Run.log .dispatching
      match ← Eval.activate limits eval f [] with
      | .returned v => return some v
      | .normal => return none
    | _ =>
      Run.log .noEntryPoint
      return none

end CypherLang
