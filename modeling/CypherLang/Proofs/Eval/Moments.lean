import CypherLang.Proofs.Eval.Simulation

namespace CypherLang

variable {H : Type}

/-- What an evaluator does. -/
inductive Task
  /-- An expression, on a level of its own. -/
  | expr (e : Expr) (s : ScopeId)
  /-- An expression, on the level that has been opened for it. -/
  | node (e : Expr) (s : ScopeId)
  | arguments (es : List Expr) (s : ScopeId)
  | call (name : String) (args : List Expr) (s : ScopeId)
  /-- A call of a function with the values of its arguments. -/
  | activation (f : Closure) (args : List Value)
  /-- Statements, on a level of their own. -/
  | block (body : List Stmt) (s : ScopeId)
  /-- Statements, on the level that has been opened for them. -/
  | stmts (body : List Stmt) (s : ScopeId)
  | stmt (x : Stmt) (s : ScopeId)

namespace Task

abbrev Result : Task → Type
  | expr .. | node .. | call .. => Value
  | arguments .. => List Value
  | activation .. | block .. | stmts .. | stmt .. => Completion

/-- Does a task with the given fuel for the levels below it; an expression and a block spend some
of it on their own level. -/
def run [Host H] (limits : Limits) (fuel : Nat) : (t : Task) → Run H t.Result
  | expr e s => (evaluator limits fuel).expr e s
  | node e s => Eval.expr limits (evaluator limits fuel) e s
  | arguments es s => es.mapM fun e => (evaluator limits fuel).expr e s
  | call name args s => Eval.call limits (evaluator limits fuel) name args s
  | activation f args => Eval.activate limits (evaluator limits fuel) f args
  | block body s => (evaluator limits fuel).block body s
  | stmts body s => Eval.stmts (evaluator limits fuel) s body
  | stmt x s => Eval.stmt (evaluator limits fuel) x s

/-- How many levels a task opens for the tasks it starts. -/
def ownLevels : Task → Nat
  | expr .. | block .. => 1
  | _ => 0

/-- How many calls a task opens for the tasks it starts. -/
def ownCalls : Task → Nat
  | activation .. => 1
  | _ => 0

end Task

/-- Tasks are done alike on evaluators that are related. -/
theorem Simulation.task [Host H] {l l' : Limits} {R : ∀ {α : Type}, Run H α → Run H α → Prop}
    {n n' : Nat} (sim : Simulation l l' R)
    (related : Evaluator.Related R (evaluator l n) (evaluator l' n')) (t : Task) :
    R (t.run l n) (t.run l' n') := by
  cases t with
  | expr e s => exact related.expr e s
  | node e s => exact sim.expr related e s
  | arguments es s => exact sim.mapM (fun e => related.expr e s) es
  | call name args s => exact sim.call related name args s
  | activation f args => exact sim.activate f args related.block
  | block body s => exact related.block body s
  | stmts body s => exact sim.stmts related s body
  | stmt x s => exact sim.stmt related x s

/-- The expression that a statement evaluates first. -/
def Stmt.operand? : Stmt → Option Expr
  | spit _ e | assign _ e | battle e .. | ret (some e) | expr e => some e
  | verse .. | ret none => none

/-- What a statement does with the value of that expression. -/
def Eval.conclude (below : Evaluator H) (s : ScopeId) (v : Value) : Stmt → Run H Completion
  | .spit name _ => do
    Run.declareValue s name v
    return .normal
  | .assign name _ => do
    Run.assign s name v
    return .normal
  | .battle _ thenBranch elseBranch =>
    match if v.holds then some thenBranch else elseBranch with
    | some body => do below.block body (← Run.openScope s)
    | none => return .normal
  | .ret _ => return .returned v
  | .verse .. | .expr _ => return .normal

theorem Eval.stmt_eq {below : Evaluator H} {x : Stmt} {e : Expr} (s : ScopeId)
    (h : x.operand? = some e) :
    Eval.stmt below x s = below.expr e s >>= fun v => Eval.conclude below s v x := by
  cases x with
  | verse => cases h
  | ret value =>
    cases value with
    | none => cases h
    | some e =>
      cases h
      rfl
  | _ =>
    cases h
    rfl

/-- A value that can be called with some number of arguments. -/
def Value.Accepts : Value → Nat → Prop
  | builtin _, _ => True
  | verse f, n => n = f.params.length
  | _, _ => False

namespace Machine

/-- The machine one level deeper. -/
def descend (m : Machine H) : Machine H := { m with levels := m.levels + 1 }

/-- The machine with a new scope inside `parent`. -/
def withScope (m : Machine H) (parent : ScopeId) : Machine H :=
  { m with store := (m.store.newChild parent).2, tracked := m.tracked.push m.store.scopes.size }

end Machine

/-- A task that starts on a machine. -/
structure Moment (H : Type) where
  fuel : Nat
  task : Task
  machine : Machine H

namespace Moment

variable [Host H]

/-- The machine when the task ends. -/
def final (limits : Limits) (p : Moment H) : Machine H :=
  (p.task.run limits p.fuel).final p.machine

/-- Why the task fails, if it does. -/
def halt? (limits : Limits) (p : Moment H) : Option Halt :=
  (p.task.run limits p.fuel).halt? p.machine

/-- Why the task fails, if it does, and the host that it leaves behind. -/
def fault? (limits : Limits) (p : Moment H) : Option (Halt × H) :=
  (p.task.run limits p.fuel).fault? p.machine

/-- The first moment starts the second one. -/
inductive Calls (limits : Limits) : Moment H → Moment H → Prop
  | exprLevel {n : Nat} {e : Expr} {s : ScopeId} {m : Machine H} :
      m.levels < limits.levels → Calls limits ⟨n + 1, .expr e s, m⟩ ⟨n, .node e s, m.descend⟩
  | left {n : Nat} {l r : Expr} {op : BinOp} {s : ScopeId} {m : Machine H} :
      Calls limits ⟨n, .node (.binary l op r) s, m⟩ ⟨n, .expr l s, m⟩
  | right {n : Nat} {l r : Expr} {op : BinOp} {s : ScopeId} {m m' : Machine H} {a : Value} :
      (evaluator limits n).expr l s m = .ok a m' →
        Calls limits ⟨n, .node (.binary l op r) s, m⟩ ⟨n, .expr r s, m'⟩
  | operand {n : Nat} {e : Expr} {s : ScopeId} {m : Machine H} :
      Calls limits ⟨n, .node (.neg e) s, m⟩ ⟨n, .expr e s, m⟩
  | call {n : Nat} {name : String} {args : List Expr} {s : ScopeId} {m : Machine H} :
      Calls limits ⟨n, .node (.call name args) s, m⟩ ⟨n, .call name args s, m⟩
  | arguments {n : Nat} {name : String} {args : List Expr} {s : ScopeId} {m : Machine H}
      {v : Value} :
      m.store.get? s name = some v → v.Accepts args.length →
        Calls limits ⟨n, .call name args s, m⟩ ⟨n, .arguments args s, m⟩
  | firstArgument {n : Nat} {e : Expr} {es : List Expr} {s : ScopeId} {m : Machine H} :
      Calls limits ⟨n, .arguments (e :: es) s, m⟩ ⟨n, .expr e s, m⟩
  | moreArguments {n : Nat} {e : Expr} {es : List Expr} {s : ScopeId} {m m' : Machine H}
      {a : Value} :
      (evaluator limits n).expr e s m = .ok a m' →
        Calls limits ⟨n, .arguments (e :: es) s, m⟩ ⟨n, .arguments es s, m'⟩
  | activation {n : Nat} {name : String} {args : List Expr} {s : ScopeId} {m m' : Machine H}
      {f : Closure} {vs : List Value} :
      m.store.get? s name = some (.verse f) → args.length = f.params.length →
        (Task.arguments args s).run limits n m = .ok vs m' →
          Calls limits ⟨n, .call name args s, m⟩ ⟨n, .activation f vs, m'⟩
  | body {n : Nat} {f : Closure} {vs : List Value} {m : Machine H} :
      m.calls < limits.calls → Calls limits ⟨n, .activation f vs, m⟩
        ⟨n, .block f.body m.store.scopes.size, m.enter f vs⟩
  | blockLevel {n : Nat} {body : List Stmt} {s : ScopeId} {m : Machine H} :
      m.levels < limits.levels →
        Calls limits ⟨n + 1, .block body s, m⟩ ⟨n, .stmts body s, m.descend⟩
  | first {n : Nat} {x : Stmt} {xs : List Stmt} {s : ScopeId} {m : Machine H} :
      Calls limits ⟨n, .stmts (x :: xs) s, m⟩ ⟨n, .stmt x s, m⟩
  | more {n : Nat} {x : Stmt} {xs : List Stmt} {s : ScopeId} {m m' : Machine H} :
      (Task.stmt x s).run limits n m = .ok .normal m' →
        Calls limits ⟨n, .stmts (x :: xs) s, m⟩ ⟨n, .stmts xs s, m'⟩
  | value {n : Nat} {x : Stmt} {e : Expr} {s : ScopeId} {m : Machine H} :
      x.operand? = some e → Calls limits ⟨n, .stmt x s, m⟩ ⟨n, .expr e s, m⟩
  | branch {n : Nat} {c : Expr} {thenBranch body : List Stmt} {elseBranch : Option (List Stmt)}
      {s : ScopeId} {m m' : Machine H} {v : Value} :
      (evaluator limits n).expr c s m = .ok v m' →
        (if v.holds then some thenBranch else elseBranch) = some body →
          Calls limits ⟨n, .stmt (.battle c thenBranch elseBranch) s, m⟩
            ⟨n, .block body m'.store.scopes.size, m'.withScope s⟩

/-- The moments of the run that starts with the first one. -/
def Reaches (limits : Limits) : Moment H → Moment H → Prop :=
  Relation.ReflTransGen (Calls limits)

end Moment

/-- The place of a task among those that are done with the same fuel. -/
def Task.rank : Task → Nat
  | expr .. | block .. => 0
  | activation .. | stmt .. => 1
  | arguments es _ => 1 + es.length
  | call _ args _ => 2 + args.length
  | node (.call _ args) _ => 3 + args.length
  | node .. => 1
  | stmts body _ => 2 + body.length

namespace Moment

variable [Host H] {limits : Limits}

theorem Calls.lt {p q : Moment H} (h : Calls limits p q) :
    q.fuel < p.fuel ∨ q.fuel = p.fuel ∧ q.task.rank < p.task.rank := by
  cases h with
  | exprLevel | blockLevel => exact .inl (Nat.lt_succ_self _)
  | _ =>
    refine .inr ⟨rfl, ?_⟩
    simp only [Task.rank, List.length_cons]
    omega

/-- A property that passes from the moments that a moment starts to the moment itself. -/
theorem induction (limits : Limits) {P : Moment H → Prop}
    (step : ∀ p, (∀ q, Calls limits p q → P q) → P p) (p : Moment H) : P p :=
  step p fun q _ => induction limits step q
termination_by (p.fuel, p.task.rank)
decreasing_by
  rename_i h
  rcases h.lt with lt | ⟨same, lt⟩
  · exact .left _ _ lt
  · rw [same]
    exact .right _ lt

end Moment

namespace Halt

/-- A limit has ended the run. -/
def Limited : Halt → Prop
  | error (.recursionLimit _) | error (.stackOverflow _) | outOfFuel => True
  | _ => False

/-- Neither a limit nor the host has ended the run, but what the program says. -/
def Complaint : Halt → Prop
  | error (.io _) => False
  | h => ¬ h.Limited

end Halt

/-- A call of the routine with the given values is a request that the host `c` does not serve,
which then becomes the host `c'`. -/
def Builtin.Refused [Host H] (c : H) (reason : String) (c' : H) : Builtin → List Value → Prop
  | flow, vs => Host.write c (" ".intercalate (vs.map Value.display)) = (.error reason, c')
  | listen, vs => vs = [] ∧ Host.read c = (.error reason, c')

namespace Run

/-- The run fails only because of what the program says. -/
def Complains (x : Run H α) : Prop := ∀ m w, x.fault? m = some w → w.1.Complaint

theorem Complains.fail {e : RuntimeError} (he : Halt.Complaint (.error e)) :
    (fail e : Run H α).Complains := by
  rintro m w failed
  cases failed
  exact he

theorem Complains.pure (a : α) : (pure a : Run H α).Complains := by
  intro m w failed
  cases failed

theorem complains_lookup (s : ScopeId) (name : String) :
    (lookup s name : Run H Value).Complains := by
  intro m w failed
  cases found : m.store.get? s name with
  | some v =>
    rw [fault?, lookup_of_some found] at failed
    cases failed
  | none =>
    rw [fault?, lookup_of_none found] at failed
    cases failed
    exact id

theorem complains_assign (s : ScopeId) (name : String) (v : Value) :
    (assign s name v : Run H Unit).Complains := by
  intro m w failed
  cases owner : m.store.owner? s name with
  | some o =>
    rw [fault?, assign_of_some v owner] at failed
    cases failed
  | none =>
    rw [fault?, assign_of_none v owner] at failed
    cases failed
    exact id

/-- A call of the host fails if the request is not served. -/
theorem fault?_hostCall {f : H → Except String α × H} {m : Machine H}
    {w : Halt × H} (failed : (hostCall f).fault? m = some w) :
    ∃ reason, f m.host = (.error reason, w.2) ∧ w.1 = .error (.io reason) := by
  rcases result : f m.host with ⟨reason | a, host⟩
  · rw [fault?, hostCall_of_error result] at failed
    cases failed
    exact ⟨reason, rfl, rfl⟩
  · rw [fault?, hostCall_of_ok result] at failed
    cases failed

end Run

namespace Eval

theorem complains_apply (op : BinOp) (a b : Value) :
    (Run.ofExcept (a.apply op b) : Run H Value).Complains := by
  have computed := Value.computed_apply op a b
  cases result : a.apply op b with
  | ok v => exact .pure v
  | error e =>
    rw [result] at computed
    rcases computed with rfl | rfl
    · exact .fail id
    · exact .fail id

theorem complains_minus (a : Value) : (Run.ofExcept a.minus : Run H Value).Complains := by
  rcases a.minus_cases with ⟨v, result, -⟩ | result
  · rw [result]
    exact .pure v
  · rw [result]
    exact .fail id

/-- A routine fails if the host does not serve it, or if it is called with too many values. -/
theorem fault?_routine [Host H] {b : Builtin} {vs : List Value} {m : Machine H} {w : Halt × H}
    (failed : (routine b vs).fault? m = some w) :
    (∃ reason, b.Refused m.host reason w.2 vs ∧ w.1 = .error (.io reason)) ∨ w.1.Complaint := by
  rcases Run.fault?_bind failed with none | ⟨_, m', logged, failed⟩
  · cases none
  cases logged
  cases b with
  | flow =>
    rcases Run.fault?_bind failed with refused | ⟨_, _, -, none⟩
    · exact .inl (Run.fault?_hostCall refused)
    · cases none
  | listen =>
    cases vs with
    | cons v vs =>
      rcases Run.fault?_bind failed with mismatch | ⟨_, _, none, -⟩
      · cases mismatch
        exact .inr id
      · cases none
    | nil =>
      rcases Run.fault?_bind failed with refused | ⟨line, _, -, none⟩
      · obtain ⟨reason, read, same⟩ := Run.fault?_hostCall refused
        exact .inl ⟨reason, ⟨rfl, read⟩, same⟩
      · cases line <;> cases none

end Eval

namespace Moment

/-- The limit that stops the task before it starts another one. -/
def Raises (limits : Limits) (p : Moment H) (h : Halt) : Prop :=
  match p.task with
  | .expr .. | .block .. =>
    p.fuel = 0 ∧ h = .outOfFuel ∨
      limits.levels ≤ p.machine.levels ∧ h = .error (.stackOverflow limits.levels)
  | .activation .. =>
    limits.calls ≤ p.machine.calls ∧ h = .error (.recursionLimit limits.calls)
  | _ => False

theorem Raises.limited {limits : Limits} {p : Moment H} {h : Halt} (raises : p.Raises limits h) :
    h.Limited := by
  unfold Raises at raises
  split at raises
  · rcases raises with ⟨-, rfl⟩ | ⟨-, rfl⟩ <;> trivial
  · rcases raises with ⟨-, rfl⟩ | ⟨-, rfl⟩ <;> trivial
  · obtain ⟨-, rfl⟩ := raises
    trivial
  · exact raises.elim

variable {limits : Limits} {n : Nat} {s : ScopeId} {m : Machine H} {w : Halt × H}

theorem fault?_ensuring {x : Run H α} {after : Option α → Machine H → Machine H}
    (failed : (Run.ensuring after x).fault? m = some w)
    (keeps : ∀ c last, (after c last).host = last.host) : x.fault? m = some w := by
  unfold Run.fault? Run.ensuring at *
  cases result : x m with
  | ok a last =>
    rw [result] at failed
    cases failed
  | error e last =>
    rw [result] at failed
    rw [← failed]
    exact congrArg (fun c => some (e, c)) (keeps none last).symm

/-- What is inside a level fails, or there is no room for the level. -/
theorem fault?_deeper {x : Run H α} (failed : (Run.deeper limits x).fault? m = some w) :
    (limits.levels ≤ m.levels ∧ w.1 = .error (.stackOverflow limits.levels)) ∨
      m.levels < limits.levels ∧ x.fault? m.descend = some w := by
  by_cases room : limits.levels ≤ m.levels
  · rw [Run.fault?, Run.deeper_of_le room] at failed
    cases failed
    exact .inl ⟨room, rfl⟩
  · have lt := Nat.not_le.1 room
    rw [Run.fault?, Run.deeper_of_lt lt] at failed
    change (Run.ensuring _ x).fault? m.descend = some w at failed
    exact .inr ⟨lt, fault?_ensuring failed fun _ _ => rfl⟩

theorem halt?_deeper {x : Run H α} {h : Halt} (failed : (Run.deeper limits x).halt? m = some h) :
    (limits.levels ≤ m.levels ∧ h = .error (.stackOverflow limits.levels)) ∨
      m.levels < limits.levels ∧ x.halt? m.descend = some h := by
  obtain ⟨c, failed⟩ := Run.halt?_eq_some_iff.1 failed
  rcases fault?_deeper failed with full | ⟨room, inner⟩
  · exact .inl full
  · exact .inr ⟨room, Run.halt?_eq_some_iff.2 ⟨c, inner⟩⟩

variable [Host H]

/-- The task calls the routine `b` with the values `vs`, and `c` is the host then. -/
def Asks (limits : Limits) (p : Moment H) (b : Builtin) (vs : List Value) (c : H) : Prop :=
  ∃ name args s m', p.task = .call name args s ∧
    p.machine.store.get? s name = some (.builtin b) ∧
    (Task.arguments args s).run limits p.fuel p.machine = .ok vs m' ∧ m'.host = c

/-- The task itself fails, and not one that it starts: it reaches a limit, its call of a routine is
not served, or what the program says is wrong. -/
inductive Faults (limits : Limits) (p : Moment H) (w : Halt × H) : Prop
  | raised : p.Raises limits w.1 → Faults limits p w
  | refused {b : Builtin} {vs : List Value} {c : H} {reason : String} :
      p.Asks limits b vs c → b.Refused c reason w.2 vs → w.1 = .error (.io reason) →
        Faults limits p w
  | complaint : w.1.Complaint → Faults limits p w

/-- The task itself fails, or it has started one that fails alike. -/
def Blamed (limits : Limits) (p : Moment H) (w : Halt × H) : Prop :=
  p.Faults limits w ∨ ∃ q, Calls limits p q ∧ q.fault? limits = some w

theorem blamed_expr {e : Expr} (failed : fault? limits ⟨n, .expr e s, m⟩ = some w) :
    Blamed limits ⟨n, .expr e s, m⟩ w := by
  cases n with
  | zero =>
    cases failed
    exact .inl (.raised (.inl ⟨rfl, rfl⟩))
  | succ n =>
    rcases fault?_deeper failed with full | ⟨room, inner⟩
    · exact .inl (.raised (.inr full))
    · exact .inr ⟨_, .exprLevel room, inner⟩

theorem blamed_node {e : Expr} (failed : fault? limits ⟨n, .node e s, m⟩ = some w) :
    Blamed limits ⟨n, .node e s, m⟩ w := by
  cases e with
  | literal => cases failed
  | identifier name => exact .inl (.complaint (Run.complains_lookup s name m w failed))
  | binary l op r =>
    rcases Run.fault?_bind failed with left | ⟨a, m', hl, failed⟩
    · exact .inr ⟨_, .left, left⟩
    rcases Run.fault?_bind failed with right | ⟨b, m'', -, failed⟩
    · exact .inr ⟨_, .right hl, right⟩
    · exact .inl (.complaint (Eval.complains_apply op a b m'' w failed))
  | neg e =>
    rcases Run.fault?_bind failed with inner | ⟨a, m', -, failed⟩
    · exact .inr ⟨_, .operand, inner⟩
    · exact .inl (.complaint (Eval.complains_minus a m' w failed))
  | call name args => exact .inr ⟨_, .call, failed⟩

theorem blamed_arguments {es : List Expr}
    (failed : fault? limits ⟨n, .arguments es s, m⟩ = some w) :
    Blamed limits ⟨n, .arguments es s, m⟩ w := by
  cases es with
  | nil => cases failed
  | cons e es =>
    change Run.fault? (List.mapM _ (e :: es)) m = some w at failed
    rw [List.mapM_cons] at failed
    rcases Run.fault?_bind failed with first | ⟨a, m', he, failed⟩
    · exact .inr ⟨_, .firstArgument, first⟩
    rcases Run.fault?_bind failed with more | ⟨as, m'', -, failed⟩
    · exact .inr ⟨_, .moreArguments he, more⟩
    · cases failed

theorem blamed_call {name : String} {args : List Expr}
    (failed : fault? limits ⟨n, .call name args s, m⟩ = some w) :
    Blamed limits ⟨n, .call name args s, m⟩ w := by
  rcases Run.fault?_bind failed with missing | ⟨v, m', found, failed⟩
  · exact .inl (.complaint (Run.complains_lookup s name m w missing))
  obtain ⟨bound, rfl⟩ : m.store.get? s name = some v ∧ m = m' := Run.lookup_ok found
  cases v with
  | builtin b =>
    rcases Run.fault?_bind failed with inner | ⟨vs, m', values, failed⟩
    · exact .inr ⟨_, .arguments bound trivial, inner⟩
    rcases Eval.fault?_routine failed with ⟨reason, refused, same⟩ | complaint
    · exact .inl (.refused ⟨name, args, s, m', rfl, bound, values, rfl⟩ refused same)
    · exact .inl (.complaint complaint)
  | verse f =>
    dsimp only at failed
    split at failed
    · rcases Run.fault?_bind failed with mismatch | ⟨u, m', ok, -⟩
      · exact .inl (.complaint (Run.Complains.fail id m w mismatch))
      · cases ok
    · rename_i arity
      have arity := Decidable.not_not.1 arity
      rcases Run.fault?_bind failed with inner | ⟨vs, m', values, failed⟩
      · exact .inr ⟨_, .arguments bound arity, inner⟩
      rcases Run.fault?_bind failed with inner | ⟨c, m'', -, failed⟩
      · exact .inr ⟨_, .activation bound arity values, inner⟩
      · cases failed
  | _ => exact .inl (.complaint (Run.Complains.fail id m w failed))

theorem blamed_activation {f : Closure} {vs : List Value}
    (failed : fault? limits ⟨n, .activation f vs, m⟩ = some w) :
    Blamed limits ⟨n, .activation f vs, m⟩ w := by
  change Run.fault? (Eval.activate limits _ f vs) m = some w at failed
  by_cases room : limits.calls ≤ m.calls
  · rw [Run.fault?, Eval.activate_of_le room] at failed
    cases failed
    exact .inl (.raised ⟨room, rfl⟩)
  · have lt := Nat.not_le.1 room
    rw [Run.fault?, Eval.activate_of_lt lt] at failed
    refine .inr ⟨_, .body lt, ?_⟩
    change Run.fault? (Run.ensuring m.leave _) _ = some w at failed
    exact fault?_ensuring failed fun _ _ => rfl

theorem blamed_block {body : List Stmt} (failed : fault? limits ⟨n, .block body s, m⟩ = some w) :
    Blamed limits ⟨n, .block body s, m⟩ w := by
  cases n with
  | zero =>
    cases failed
    exact .inl (.raised (.inl ⟨rfl, rfl⟩))
  | succ n =>
    rcases fault?_deeper failed with full | ⟨room, inner⟩
    · exact .inl (.raised (.inr full))
    · exact .inr ⟨_, .blockLevel room, inner⟩

theorem blamed_stmts {body : List Stmt} (failed : fault? limits ⟨n, .stmts body s, m⟩ = some w) :
    Blamed limits ⟨n, .stmts body s, m⟩ w := by
  cases body with
  | nil => cases failed
  | cons x xs =>
    rcases Run.fault?_bind failed with first | ⟨c, m', hx, failed⟩
    · exact .inr ⟨_, .first, first⟩
    cases c with
    | normal => exact .inr ⟨_, .more hx, failed⟩
    | returned v => cases failed

theorem blamed_stmt {x : Stmt} (failed : fault? limits ⟨n, .stmt x s, m⟩ = some w) :
    Blamed limits ⟨n, .stmt x s, m⟩ w := by
  cases operand : x.operand? with
  | none =>
    cases x with
    | verse name params body => cases failed
    | ret value =>
      cases value with
      | none => cases failed
      | some e => cases operand
    | _ => cases operand
  | some e =>
    change (Eval.stmt _ x s).fault? m = some w at failed
    rw [Eval.stmt_eq s operand] at failed
    rcases Run.fault?_bind failed with inner | ⟨v, m', hv, failed⟩
    · exact .inr ⟨_, .value operand, inner⟩
    cases x with
    | assign name e =>
      rcases Run.fault?_bind failed with missing | ⟨u, m'', -, failed⟩
      · exact .inl (.complaint (Run.complains_assign s name v m' w missing))
      · cases failed
    | battle c thenBranch elseBranch =>
      cases operand
      dsimp only [Eval.conclude] at failed
      split at failed
      · rename_i body chosen
        exact .inr ⟨_, .branch hv chosen, failed⟩
      · cases failed
    | _ => cases failed

theorem blamed {p : Moment H} (failed : p.fault? limits = some w) : p.Blamed limits w := by
  obtain ⟨n, t, m⟩ := p
  cases t with
  | expr => exact blamed_expr failed
  | node => exact blamed_node failed
  | arguments => exact blamed_arguments failed
  | call => exact blamed_call failed
  | activation => exact blamed_activation failed
  | block => exact blamed_block failed
  | stmts => exact blamed_stmts failed
  | stmt => exact blamed_stmt failed

/-- A run that fails has a moment at which the task itself fails, and nothing that is done on the
way out changes the host. -/
theorem exists_faults : ∀ p : Moment H, p.fault? limits = some w →
    ∃ q, Reaches limits p q ∧ q.Faults limits w := by
  refine induction limits ?_
  intro p ih failed
  rcases blamed failed with faults | ⟨q, calls, failed⟩
  · exact ⟨p, .refl, faults⟩
  · obtain ⟨r, reaches, faults⟩ := ih q calls failed
    exact ⟨r, .head calls reaches, faults⟩

/-- A run that a limit ends has a moment at which the limit is reached. -/
theorem exists_raises {h : Halt} (limited : h.Limited) (p : Moment H)
    (failed : p.halt? limits = some h) : ∃ q, Reaches limits p q ∧ q.Raises limits h := by
  obtain ⟨c, failed⟩ := Run.halt?_eq_some_iff.1 failed
  obtain ⟨q, reaches, faults⟩ := exists_faults p failed
  cases faults with
  | raised raises => exact ⟨q, reaches, raises⟩
  | refused _ _ io =>
    cases io
    exact limited.elim
  | complaint complaint =>
    refine absurd limited ?_
    unfold Halt.Complaint at complaint
    split at complaint
    · exact complaint.elim
    · exact complaint

end Moment

namespace Program

variable [Host H]

/-- What a program starts on a machine: its statements, and after them the entry point. -/
inductive Starts (limits : Limits) (p : Program) (m : Machine H) : Moment H → Prop
  | statements : Starts limits p m
      ⟨limits.levels + 1, .block p m.globals, { m with log := m.log.add (.executing p.length) }⟩
  | entry {f : Closure} {m' : Machine H} :
      (Task.block p m.globals).run limits (limits.levels + 1)
        { m with log := m.log.add (.executing p.length) } = .ok .normal m' →
      m'.store.get? m.globals entryName = some (.verse f) → Starts limits p m
        ⟨limits.levels + 1, .activation f [], { m' with log := m'.log.add .dispatching }⟩

variable {limits : Limits} {p : Program} {m : Machine H}

/-- A program fails with one of the tasks it starts. -/
theorem fault?_exec {w : Halt × H} (failed : (p.exec limits).fault? m = some w) :
    ∃ q, Starts limits p m q ∧ q.fault? limits = some w := by
  rw [Simulation.exec_eq] at failed
  rcases Run.fault?_bind failed with none | ⟨_, m₁, first, failed⟩
  · cases none
  cases first
  rcases Run.fault?_bind failed with none | ⟨_, m₁, first, failed⟩
  · cases none
  cases first
  rcases Run.fault?_bind failed with inner | ⟨c, m', ran, failed⟩
  · exact ⟨_, .statements, inner⟩
  cases c with
  | returned v => cases failed
  | normal =>
    unfold finish at failed
    rcases Run.fault?_bind failed with none | ⟨found, m₁, first, failed⟩
    · cases none
    cases first
    split at failed
    · rename_i f bound
      rcases Run.fault?_bind failed with none | ⟨_, m₁, first, failed⟩
      · cases none
      cases first
      rcases Run.fault?_bind failed with inner | ⟨c, m'', -, failed⟩
      · exact ⟨_, .entry ran bound, inner⟩
      · cases c <;> cases failed
    · cases failed

theorem halt?_exec {h : Halt} (failed : (p.exec limits).halt? m = some h) :
    ∃ q, Starts limits p m q ∧ q.halt? limits = some h := by
  obtain ⟨c, failed⟩ := Run.halt?_eq_some_iff.1 failed
  obtain ⟨q, starts, failed⟩ := fault?_exec failed
  exact ⟨q, starts, Run.halt?_eq_some_iff.2 ⟨c, failed⟩⟩

end Program

end CypherLang
