import CypherLang.Proofs.Eval.Counters
import CypherLang.Proofs.Eval.Provenance
import CypherLang.Proofs.Syntax.Levels

namespace CypherLang

variable {H : Type}

mutual

/-- The number of blocks and expressions inside each other. The body of a function that is declared
counts nothing: it is executed where the function is called. -/
def Stmt.nesting : Stmt → Nat
  | .spit _ e | .assign _ e | .ret (some e) | .expr e => e.levels 1
  | .verse .. | .ret none => 0
  | .battle condition thenBranch none =>
    max (condition.levels 1) (1 + Stmt.nestingAll thenBranch)
  | .battle condition thenBranch (some elseBranch) =>
    max (condition.levels 1)
      (max (1 + Stmt.nestingAll thenBranch) (1 + Stmt.nestingAll elseBranch))

/-- The largest nesting of the statements. -/
def Stmt.nestingAll : List Stmt → Nat
  | [] => 0
  | x :: xs => max x.nesting (Stmt.nestingAll xs)

end

/-- The nesting of statements as a block. -/
def blockNesting (body : List Stmt) : Nat := 1 + Stmt.nestingAll body

mutual

/-- The bodies of all functions declared in a statement, also inside each other. -/
def Stmt.bodies : Stmt → List (List Stmt)
  | .verse _ _ body => body :: Stmt.bodiesAll body
  | .battle _ thenBranch none => Stmt.bodiesAll thenBranch
  | .battle _ thenBranch (some elseBranch) =>
    Stmt.bodiesAll thenBranch ++ Stmt.bodiesAll elseBranch
  | _ => []

def Stmt.bodiesAll : List Stmt → List (List Stmt)
  | [] => []
  | x :: xs => x.bodies ++ Stmt.bodiesAll xs

end

/-- The largest nesting of the top level of a program and of a function body in it. -/
def Program.largestNesting (p : Program) : Nat :=
  ((p :: Stmt.bodiesAll p).map blockNesting).foldr max 0

theorem Program.nesting_le_largest {p : Program} {body : List Stmt}
    (h : body ∈ p :: Stmt.bodiesAll p) : blockNesting body ≤ p.largestNesting := by
  unfold largestNesting
  generalize p :: Stmt.bodiesAll p = blocks at h
  induction blocks with
  | nil => cases h
  | cons b blocks ih =>
    rw [List.map_cons, List.foldr_cons]
    rcases List.mem_cons.1 h with rfl | h
    · exact Nat.le_max_left _ _
    · exact Nat.le_trans (ih h) (Nat.le_max_right _ _)

section Bodies

variable {depth : Nat}

/-- No function declared in the statement has a body that is deeper. -/
def Stmt.Shallow (depth : Nat) (x : Stmt) : Prop := ∀ body ∈ x.bodies, blockNesting body ≤ depth

theorem shallow_of_bodiesAll {body : List Stmt}
    (h : ∀ b ∈ Stmt.bodiesAll body, blockNesting b ≤ depth) : ∀ x ∈ body, x.Shallow depth := by
  induction body with
  | nil => exact nofun
  | cons x xs ih =>
    rw [Stmt.bodiesAll, List.forall_mem_append] at h
    exact List.forall_mem_cons.2 ⟨h.1, ih h.2⟩

/-- Neither the body of the function nor that of one declared in it is deeper. -/
structure Closure.Shallow (depth : Nat) (f : Closure) : Prop where
  body : blockNesting f.body ≤ depth
  inner : ∀ x ∈ f.body, x.Shallow depth

theorem declares_shallow (depth : Nat) :
    Declares (Closure.Shallow depth) (Stmt.Shallow depth) where
  verse h := by
    unfold Stmt.Shallow at h
    rw [Stmt.bodies, List.forall_mem_cons] at h
    exact ⟨h.1, shallow_of_bodiesAll h.2⟩
  body h := h.inner
  branch {c thenBranch elseBranch} h := by
    unfold Stmt.Shallow at h
    cases elseBranch with
    | none =>
      rw [Stmt.bodies] at h
      exact ⟨shallow_of_bodiesAll h, nofun⟩
    | some body =>
      rw [Stmt.bodies, List.forall_mem_append] at h
      refine ⟨shallow_of_bodiesAll h.1, ?_⟩
      rintro _ ⟨⟩
      exact shallow_of_bodiesAll h.2

end Bodies

namespace Task

/-- How far the levels may fall short of two for each call when the task starts. -/
def shortfall : Task → Nat
  | node .. | arguments .. | call .. | activation .. => 0
  | expr .. | stmts .. | stmt .. => 1
  | block .. => 2

/-- How many levels a task opens inside each other before the next call. -/
def need : Task → Nat
  | expr e _ => e.levels 1
  | node e _ => e.levels 1 - 1
  | arguments es _ | call _ es _ => Expr.listLevels 1 es
  | activation .. => 0
  | block body _ => blockNesting body
  | stmts body _ => Stmt.nestingAll body
  | stmt x _ => x.nesting

end Task

theorem Expr.one_le_levels (e : Expr) : 1 ≤ e.levels 1 := by
  cases e <;> simp only [Expr.levels] <;> omega

theorem Stmt.operand_le_nesting {x : Stmt} {e : Expr} (h : x.operand? = some e) :
    e.levels 1 ≤ x.nesting := by
  cases x with
  | battle c thenBranch elseBranch =>
    cases h
    cases elseBranch <;> exact Nat.le_max_left _ _
  | ret value =>
    cases value with
    | none => cases h
    | some value =>
      cases h
      exact Nat.le_refl _
  | verse => cases h
  | _ =>
    cases h
    exact Nat.le_refl _

theorem Stmt.branch_le_nesting (c : Expr) {thenBranch body : List Stmt}
    {elseBranch : Option (List Stmt)} {holds : Bool}
    (h : (if holds then some thenBranch else elseBranch) = some body) :
    blockNesting body ≤ (battle c thenBranch elseBranch).nesting := by
  cases elseBranch with
  | none =>
    cases holds with
    | false => cases h
    | true =>
      cases h
      exact Nat.le_max_right _ _
  | some elseBranch =>
    simp only [Stmt.nesting, blockNesting]
    cases holds with
    | false =>
      cases h
      omega
    | true =>
      cases h
      omega

namespace Moment

variable {limits : Limits} {depth : Nat} {p q : Moment H}

theorem Calls.fuel [Host H] (h : Calls limits p q) : q.fuel + p.task.ownLevels = p.fuel := by
  cases h <;> rfl

theorem Calls.shortfall [Host H] (h : Calls limits p q) :
    2 * p.task.ownCalls + p.task.shortfall ≤ p.task.ownLevels + q.task.shortfall := by
  cases h <;> simp [Task.ownCalls, Task.ownLevels, Task.shortfall]

/-- A task needs what it opens itself and what the tasks it starts need; a call may need as much
as there is in the body of a function. -/
theorem Calls.need [Host H] (h : Calls limits p q)
    (body : ∀ f args, p.task = .activation f args → blockNesting f.body ≤ depth) :
    p.task.ownLevels + q.task.need ≤ p.task.need + p.task.ownCalls * depth := by
  cases h with
  | @exprLevel _ e =>
    have positive := e.one_le_levels
    simp only [Task.ownLevels, Task.ownCalls, Task.need]
    omega
  | body =>
    simp only [Task.ownLevels, Task.ownCalls, Task.need]
    have enough := body _ _ rfl
    omega
  | value operand =>
    have enough := Stmt.operand_le_nesting operand
    simp only [Task.ownLevels, Task.ownCalls, Task.need]
    omega
  | @branch _ c _ _ _ _ _ _ _ _ chosen =>
    have enough := Stmt.branch_le_nesting c chosen
    simp only [Task.ownLevels, Task.ownCalls, Task.need]
    omega
  | _ =>
    simp only [Task.ownLevels, Task.ownCalls, Task.need, Expr.levels, Expr.listLevels,
      blockNesting, Stmt.nestingAll]
    omega

/-- How calls and levels are related when a task starts, if no function is deeper than `depth`. -/
structure Bounded (limits : Limits) (depth : Nat) (p : Moment H) : Prop where
  fuel : p.fuel + p.machine.levels = limits.levels + 1
  calls : p.machine.calls ≤ limits.calls
  levels : p.machine.levels ≤ limits.levels
  /-- There are two levels for each call. -/
  twice : 2 * p.machine.calls ≤ p.machine.levels + p.task.shortfall
  /-- There are at most `depth` levels for each call and for the top level. -/
  deep : p.machine.levels + p.task.need ≤ (p.machine.calls + 1) * depth

theorem Bounded.calls_step [Host H] (h : p.Bounded limits depth) (calls : Calls limits p q)
    (body : ∀ f args, p.task = .activation f args → blockNesting f.body ≤ depth) :
    q.Bounded limits depth := by
  obtain ⟨sameCalls, sameLevels⟩ := calls.counters
  obtain ⟨callsLe, levelsLe⟩ := calls.counters_le
  have fuel := calls.fuel
  have shortfall := calls.shortfall
  have need := calls.need body
  have product : (q.machine.calls + 1) * depth =
      (p.machine.calls + 1) * depth + p.task.ownCalls * depth := by
    rw [sameCalls, ← Nat.add_mul, Nat.add_right_comm]
  obtain ⟨fuel', calls', levels', twice', deep'⟩ := h
  constructor <;> omega

theorem Bounded.reaches [Host H] (h : p.Bounded limits depth) (reaches : Reaches limits p q)
    (hp : (provenance (Closure.Shallow depth) (Stmt.Shallow depth)).Allows p) :
    q.Bounded limits depth := by
  have kept := provenance_kept (H := H) (declares_shallow depth)
  induction reaches with
  | refl => exact h
  | tail reaches calls ih =>
    apply ih.calls_step calls
    intro f args task
    obtain ⟨⟨-, permitted⟩, -⟩ := kept.reaches reaches hp
    rw [task] at permitted
    exact (permitted.1 f rfl).body

theorem Raises.outOfFuel (raised : p.Raises limits .outOfFuel) : p.fuel = 0 := by
  obtain ⟨n, t, m⟩ := p
  cases t with
  | expr | block =>
    rcases raised with ⟨empty, -⟩ | ⟨-, wrong⟩
    · exact empty
    · cases wrong
  | activation => cases raised.2
  | _ => exact raised.elim

/-- Only a call reaches the limit on calls. -/
theorem Raises.recursionLimit {k : Nat} (raised : p.Raises limits (.error (.recursionLimit k))) :
    limits.calls ≤ p.machine.calls ∧ p.task.shortfall = 0 := by
  obtain ⟨n, t, m⟩ := p
  cases t with
  | expr | block => rcases raised with ⟨-, wrong⟩ | ⟨-, wrong⟩ <;> cases wrong
  | activation => exact ⟨raised.1, rfl⟩
  | _ => exact raised.elim

/-- Only a task that needs a level reaches the limit on levels. -/
theorem Raises.stackOverflow {k : Nat} (raised : p.Raises limits (.error (.stackOverflow k))) :
    limits.levels ≤ p.machine.levels ∧ 1 ≤ p.task.need := by
  obtain ⟨n, t, m⟩ := p
  cases t with
  | expr e =>
    rcases raised with ⟨-, wrong⟩ | ⟨full, -⟩
    · cases wrong
    · exact ⟨full, e.one_le_levels⟩
  | block body =>
    rcases raised with ⟨-, wrong⟩ | ⟨full, -⟩
    · cases wrong
    · exact ⟨full, Nat.le_add_right 1 _⟩
  | activation => cases raised.2
  | _ => exact raised.elim

/-- No task runs out of fuel before it is out of levels. -/
theorem Bounded.not_outOfFuel (h : p.Bounded limits depth) : ¬ p.Raises limits .outOfFuel := by
  intro raised
  have empty := raised.outOfFuel
  have fuel := h.fuel
  have levels := h.levels
  omega

/-- With fewer than two levels for each call, the levels are used up first. -/
theorem Bounded.not_recursionLimit (h : p.Bounded limits depth)
    (few : limits.levels < 2 * limits.calls) (k : Nat) :
    ¬ p.Raises limits (.error (.recursionLimit k)) := by
  intro raised
  obtain ⟨full, even⟩ := raised.recursionLimit
  have levels := h.levels
  have twice := h.twice
  omega

/-- With `depth` levels for each call and for the top level, the calls are used up first. -/
theorem Bounded.not_stackOverflow (h : p.Bounded limits depth)
    (many : (limits.calls + 1) * depth ≤ limits.levels) (k : Nat) :
    ¬ p.Raises limits (.error (.stackOverflow k)) := by
  intro raised
  obtain ⟨full, needs⟩ := raised.stackOverflow
  have room : p.machine.levels + p.task.need ≤ limits.levels :=
    calc p.machine.levels + p.task.need
      _ ≤ (p.machine.calls + 1) * depth := h.deep
      _ ≤ (limits.calls + 1) * depth := Nat.mul_le_mul_right depth (Nat.succ_le_succ h.calls)
      _ ≤ limits.levels := many
  omega

end Moment

namespace Program

variable [Host H] {limits : Limits} {p : Program} {q : Moment H} {host : H} {log : Log}

theorem bounded_of_starts (h : p.Starts limits (.start host log) q) :
    q.Bounded limits p.largestNesting := by
  cases h with
  | statements =>
    have top : blockNesting p ≤ p.largestNesting := nesting_le_largest List.mem_cons_self
    constructor
    · rfl
    · exact Nat.zero_le _
    · exact Nat.zero_le _
    · exact Nat.zero_le _
    · change 0 + blockNesting p ≤ (0 + 1) * p.largestNesting
      omega
  | entry ran _ =>
    -- The entry point is called without an expression around it: no call and no level is open.
    obtain ⟨calls, levels⟩ := (Moment.balanced_task limits _ (.block p _)).of_ok ran
    constructor
    · exact congrArg (limits.levels + 1 + ·) levels
    · exact Nat.le_trans (Nat.le_of_eq calls) (Nat.zero_le _)
    · exact Nat.le_trans (Nat.le_of_eq levels) (Nat.zero_le _)
    · exact Nat.le_trans (Nat.le_of_eq (congrArg (2 * ·) calls)) (Nat.zero_le _)
    · exact Nat.le_trans (Nat.le_of_eq levels) (Nat.zero_le _)

/-- A program that a limit stops comes to a moment at which the limit is reached, within bounds. -/
theorem exists_bounded_raises {h : Halt}
    (failed : (p.exec limits).halt? (.start host log) = some h) (limited : h.Limited) :
    ∃ q : Moment H, q.Bounded limits p.largestNesting ∧ q.Raises limits h := by
  have kept := provenance_kept (H := H) (declares_shallow p.largestNesting)
  have shallow : ∀ x ∈ p, x.Shallow p.largestNesting :=
    shallow_of_bodiesAll fun b hb => nesting_le_largest (List.mem_cons_of_mem _ hb)
  obtain ⟨first, starts, failed⟩ := halt?_exec failed
  obtain ⟨q, reaches, raised⟩ := Moment.exists_raises limited first failed
  have allowed := (kept.starts starts (Machine.functions_start host log _) trivial shallow).1
  exact ⟨q, (bounded_of_starts starts).reaches reaches allowed, raised⟩

end Program

namespace Session

theorem halt?_of_run [Host H] {limits : Limits} {m : Machine H} {p : Program} {e : RuntimeError}
    (h : (run ⟨limits, m⟩ p).1 = .error e) :
    (p.exec limits).halt? m = some (.error e) ∨
      (p.exec limits).halt? m = some .outOfFuel ∧ e = .stackOverflow limits.levels := by
  unfold Run.halt?
  cases result : p.exec limits m with
  | ok v last =>
    simp only [run, result] at h
    cases h
  | error halt last =>
    cases halt with
    | error e' =>
      simp only [run, result] at h
      cases h
      exact .inl rfl
    | outOfFuel =>
      simp only [run, result] at h
      cases h
      exact .inr ⟨rfl, rfl⟩

/-- With fewer than two levels for each call, a program is never stopped by the limit on calls.
With as many levels for each call, and for the top level, as its deepest block has, it is never
stopped by the limit on levels. -/
theorem limits_bound_each_other [Host H] (limits : Limits) (host : H) (log : Log) (p : Program) :
    let result := (run ⟨limits, .start host log⟩ p).1
    (limits.levels < 2 * limits.calls → ∀ k, result ≠ .error (.recursionLimit k)) ∧
    ((limits.calls + 1) * p.largestNesting ≤ limits.levels →
      ∀ k, result ≠ .error (.stackOverflow k)) := by
  constructor
  · intro few k failed
    rcases halt?_of_run failed with halted | ⟨-, wrong⟩
    · obtain ⟨q, bounded, raised⟩ := Program.exists_bounded_raises halted trivial
      exact bounded.not_recursionLimit few k raised
    · cases wrong
  · intro many k failed
    rcases halt?_of_run failed with halted | ⟨halted, -⟩
    · obtain ⟨q, bounded, raised⟩ := Program.exists_bounded_raises halted trivial
      exact bounded.not_stackOverflow many k raised
    · obtain ⟨q, bounded, raised⟩ := Program.exists_bounded_raises halted trivial
      exact bounded.not_outOfFuel raised

/-- The same program is stopped by the one limit and by the other one. -/
theorem limits_bound_each_other_endless :
    endless.largestNesting = 4 ∧
      (run ⟨⟨3, 5⟩, .start ({} : Console)⟩ endless).1 = .error (.stackOverflow 5) ∧
      (∀ k, (run ⟨⟨3, 5⟩, .start ({} : Console)⟩ endless).1 ≠ .error (.recursionLimit k)) ∧
      (run ⟨⟨1, 8⟩, .start ({} : Console)⟩ endless).1 = .error (.recursionLimit 1) ∧
      ∀ k, (run ⟨⟨1, 8⟩, .start ({} : Console)⟩ endless).1 ≠ .error (.stackOverflow k) := by
  have nesting : endless.largestNesting = 4 := by cbv
  refine ⟨nesting, by cbv, ?_, by cbv, ?_⟩
  · exact (limits_bound_each_other ⟨3, 5⟩ ({} : Console) {} endless).1 (by decide)
  · apply (limits_bound_each_other ⟨1, 8⟩ ({} : Console) {} endless).2
    exact Nat.le_of_eq (congrArg (2 * ·) nesting)

end Session

end CypherLang
