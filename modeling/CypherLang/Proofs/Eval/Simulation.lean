import CypherLang.Proofs.Eval.Steps

namespace CypherLang

variable {H : Type} [Host H]

/-- A relation between a run under the limits `l` and one under `l'` that passes through all that
an evaluation is made of. -/
structure Simulation (l l' : Limits) (R : ∀ {α : Type}, Run H α → Run H α → Prop) : Prop where
  primitive : ∀ {α : Type} {x : Run H α}, x.Primitive → R x x
  bind : ∀ {α β : Type} {x x' : Run H α} {f f' : α → Run H β},
    R x x' → (∀ a, R (f a) (f' a)) → R (x >>= f) (x' >>= f')
  deeper : ∀ {α : Type} {x x' : Run H α}, R x x' → R (Run.deeper l x) (Run.deeper l' x')
  activate : ∀ {below below' : Evaluator H} (f : Closure) (args : List Value),
    (∀ body s, R (below.block body s) (below'.block body s)) →
      R (Eval.activate l below f args) (Eval.activate l' below' f args)

/-- Two evaluators whose runs are related at every node. -/
structure Evaluator.Related (R : ∀ {α : Type}, Run H α → Run H α → Prop)
    (below below' : Evaluator H) : Prop where
  expr : ∀ e s, R (below.expr e s) (below'.expr e s)
  block : ∀ body s, R (below.block body s) (below'.block body s)

/-- What a program does after its statements: it calls the entry point unless one of them has
returned. -/
def Program.finish (limits : Limits) (globals : ScopeId) : Completion → Run H (Option Value)
  | .returned v => do
    Run.log .topLevelReturn
    return some v
  | .normal => do
    match ← Run.find globals entryName with
    | some (.verse f) =>
      Run.log .dispatching
      match ← Eval.activate limits (evaluator limits (limits.levels + 1)) f [] with
      | .returned v => return some v
      | .normal => return none
    | _ =>
      Run.log .noEntryPoint
      return none

namespace Simulation

variable {l l' : Limits} {R : ∀ {α : Type}, Run H α → Run H α → Prop}
  {below below' : Evaluator H}

theorem step_then (sim : Simulation l l' R) {x : Run H α} {f f' : α → Run H β} (hx : x.Primitive)
    (hf : ∀ a, R (f a) (f' a)) : R (x >>= f) (x >>= f') :=
  sim.bind (sim.primitive hx) hf

theorem fail_if (sim : Simulation l l' R) {c : Prop} [Decidable c] {e : RuntimeError}
    {f f' : Unit → Run H α} (hf : ∀ u, R (f u) (f' u)) :
    R (if c then (Run.fail e : Run H Unit) >>= f else f ())
      (if c then (Run.fail e : Run H Unit) >>= f' else f' ()) := by
  by_cases h : c
  · rw [if_pos h, if_pos h]
    exact sim.step_then (.fail e) hf
  · rw [if_neg h, if_neg h]
    exact hf ()

theorem mapM (sim : Simulation l l' R) {f f' : α → Run H β} (hf : ∀ a, R (f a) (f' a))
    (as : List α) : R (as.mapM f) (as.mapM f') := by
  induction as with
  | nil => exact sim.primitive (.pure [])
  | cons a as ih =>
    rw [List.mapM_cons, List.mapM_cons]
    apply sim.bind (hf a)
    intro b
    apply sim.bind ih
    intro bs
    exact sim.primitive (.pure (b :: bs))

theorem routine (sim : Simulation l l' R) (b : Builtin) (args : List Value) :
    R (Eval.routine b args) (Eval.routine b args) := by
  unfold Eval.routine
  apply sim.step_then (.log _)
  intro _
  cases b with
  | flow =>
    apply sim.step_then (.write _)
    intro _
    exact sim.primitive (.pure Value.null)
  | listen =>
    apply sim.fail_if
    intro _
    apply sim.step_then .read
    intro line
    cases line with
    | none => exact sim.primitive (.pure Value.null)
    | some line => exact sim.primitive (.pure (Value.text line))

theorem call (sim : Simulation l l' R) (related : Evaluator.Related R below below')
    (name : String) (args : List Expr) (s : ScopeId) :
    R (Eval.call l below name args s) (Eval.call l' below' name args s) := by
  have values := sim.mapM (fun e => related.expr e s) args
  unfold Eval.call
  apply sim.step_then (.lookup s name)
  intro callee
  cases callee with
  | builtin b => exact sim.bind values fun vs => sim.routine b vs
  | verse f =>
    apply sim.fail_if
    intro _
    apply sim.bind values
    intro vs
    apply sim.bind (sim.activate f vs related.block)
    intro c
    exact sim.primitive (.pure c.value)
  | _ => exact sim.primitive (.fail _)

theorem expr (sim : Simulation l l' R) (related : Evaluator.Related R below below') (e : Expr)
    (s : ScopeId) : R (Eval.expr l below e s) (Eval.expr l' below' e s) := by
  cases e with
  | literal lit => exact sim.primitive (.pure _)
  | identifier name => exact sim.primitive (.lookup s name)
  | binary left op right =>
    apply sim.bind (related.expr left s)
    intro a
    apply sim.bind (related.expr right s)
    intro b
    exact sim.primitive (.ofExcept _)
  | neg operand =>
    apply sim.bind (related.expr operand s)
    intro a
    exact sim.primitive (.ofExcept _)
  | call name args => exact sim.call related name args s

theorem stmt (sim : Simulation l l' R) (related : Evaluator.Related R below below') (x : Stmt)
    (s : ScopeId) : R (Eval.stmt below x s) (Eval.stmt below' x s) := by
  have normal : R (pure .normal : Run H Completion) (pure .normal) := sim.primitive (.pure _)
  cases x with
  | spit name value =>
    apply sim.bind (related.expr value s)
    intro v
    exact sim.step_then (.declareValue s name v) fun _ => normal
  | verse name params body => exact sim.step_then (.declareVerse s name params body) fun _ => normal
  | assign name value =>
    apply sim.bind (related.expr value s)
    intro v
    exact sim.step_then (.assign s name v) fun _ => normal
  | battle condition thenBranch elseBranch =>
    apply sim.bind (related.expr condition s)
    intro v
    dsimp only
    generalize (if v.holds then some thenBranch else elseBranch) = branch
    cases branch with
    | none => exact normal
    | some body => exact sim.step_then (.openScope s) fun scope => related.block body scope
  | ret value =>
    cases value with
    | none => exact sim.primitive (.pure _)
    | some value => exact sim.bind (related.expr value s) fun v => sim.primitive (.pure _)
  | expr e => exact sim.bind (related.expr e s) fun _ => normal

theorem stmts (sim : Simulation l l' R) (related : Evaluator.Related R below below') (s : ScopeId)
    (body : List Stmt) : R (Eval.stmts below s body) (Eval.stmts below' s body) := by
  induction body with
  | nil => exact sim.primitive (.pure _)
  | cons x xs ih =>
    apply sim.bind (sim.stmt related x s)
    intro c
    cases c with
    | normal => exact ih
    | returned v => exact sim.primitive (.pure _)

/-- Related evaluators stay related with a level put on top of them. -/
theorem evaluator_succ (sim : Simulation l l' R) {n n' : Nat}
    (related : Evaluator.Related R (evaluator l n) (evaluator l' n')) :
    Evaluator.Related R (evaluator l (n + 1)) (evaluator l' (n' + 1)) where
  expr e s := sim.deeper (sim.expr related e s)
  block body s := sim.deeper (sim.stmts related s body)

/-- Of the machine itself a program reads the global scope and, at its end, the entry point. -/
theorem exec_eq (p : Program) : (p.exec l : Run H (Option Value)) = (do
    Run.log (.executing p.length)
    let globals ← Run.globals
    let c ← (evaluator l (l.levels + 1)).block p globals
    Program.finish l globals c) := by
  rfl

theorem finish (sim : Simulation l l' R)
    (related : Evaluator.Related R (evaluator l (l.levels + 1)) (evaluator l' (l'.levels + 1)))
    (globals : ScopeId) (c : Completion) :
    R (Program.finish l globals c) (Program.finish l' globals c) := by
  cases c with
  | returned v => exact sim.step_then (.log _) fun _ => sim.primitive (.pure (some v))
  | normal =>
    apply sim.step_then (.find globals entryName)
    intro found
    have without : R (Run.log .noEntryPoint >>= fun _ => pure none : Run H (Option Value))
        (Run.log .noEntryPoint >>= fun _ => pure none) :=
      sim.step_then (.log _) fun _ => sim.primitive (.pure none)
    cases found with
    | none => exact without
    | some v =>
      cases v with
      | verse f =>
        apply sim.step_then (.log _)
        intro _
        apply sim.bind (sim.activate f [] related.block)
        intro c
        cases c with
        | returned v => exact sim.primitive (.pure (some v))
        | normal => exact sim.primitive (.pure none)
      | _ => exact without

/-- Programs run alike on evaluators that are related. -/
theorem exec (sim : Simulation l l' R)
    (related : Evaluator.Related R (evaluator l (l.levels + 1)) (evaluator l' (l'.levels + 1)))
    (p : Program) : R (p.exec l) (p.exec l') := by
  rw [exec_eq, exec_eq]
  apply sim.step_then (.log _)
  intro _
  apply sim.step_then .globals
  intro globals
  exact sim.bind (related.block p globals) fun c => sim.finish related globals c

end Simulation

end CypherLang
