import CypherLang.Proofs.Eval.Depths

namespace CypherLang

variable {H : Type}

/-- The equations of evaluation: what lies below a node is evaluated by the same evaluator. -/
structure Evaluator.Solves [Host H] (limits : Limits) (E : Evaluator H) : Prop where
  expr : ∀ e s, E.expr e s = Run.deeper limits (Eval.expr limits E e s)
  block : ∀ body s, E.block body s = Run.deeper limits (Eval.stmts E s body)

/-- How many more levels there may be on a machine. -/
def Machine.levelsLeft (limits : Limits) (m : Machine H) : Nat := limits.levels - m.levels

namespace Moment

variable {limits : Limits} {p q : Moment H}

/-- The levels that are left, and then what is left to do on the level. -/
def measure (limits : Limits) (p : Moment H) : Nat × Nat :=
  (p.machine.levelsLeft limits, p.task.rank)

/-- A task takes a level, or it starts one with less to do on the same level. -/
theorem Calls.measure_lt [Host H] (h : Calls limits p q) :
    Prod.Lex (· < ·) (· < ·) (q.measure limits) (p.measure limits) := by
  have levels := h.counters.2
  have room := h.counters_le.2
  have fuel := h.fuel
  unfold measure Machine.levelsLeft
  rcases h.lt with taken | ⟨same, less⟩
  · exact .left _ _ (by omega)
  · have same : limits.levels - q.machine.levels = limits.levels - p.machine.levels := by omega
    rw [same]
    exact .right _ less

/-- There is more fuel than there are levels left. -/
def Fueled (limits : Limits) (p : Moment H) : Prop := p.machine.levelsLeft limits < p.fuel

theorem Fueled.calls [Host H] (h : p.Fueled limits) (calls : Calls limits p q) :
    q.Fueled limits := by
  have levels := calls.counters.2
  have room := calls.counters_le.2
  have fuel := calls.fuel
  unfold Fueled Machine.levelsLeft at *
  rcases calls.lt with taken | ⟨same, -⟩
  · omega
  · omega

theorem Fueled.reaches [Host H] (h : p.Fueled limits) (reaches : Reaches limits p q) :
    q.Fueled limits := by
  induction reaches with
  | refl => exact h
  | tail _ calls ih => exact ih.calls calls

/-- With more fuel than levels, the levels are used up first. -/
theorem Fueled.halt?_ne [Host H] (h : p.Fueled limits) : p.halt? limits ≠ some .outOfFuel := by
  intro failed
  have limited : Halt.outOfFuel.Limited := trivial
  obtain ⟨q, reaches, raised⟩ := exists_raises limited p failed
  have fueled := h.reaches reaches
  rw [Fueled, raised.outOfFuel] at fueled
  exact Nat.not_lt_zero _ fueled

end Moment

namespace Run

/-- The two runs are the same unless the first one is out of fuel. -/
def Refines (x x' : Run H α) : Prop := ∀ m, x m = x' m ∨ ∃ last, x m = .error .outOfFuel last

theorem Refines.eq {x x' : Run H α} {m : Machine H} (h : Refines x x')
    (fueled : x.halt? m ≠ some .outOfFuel) : x m = x' m := by
  rcases h m with same | ⟨last, empty⟩
  · exact same
  · rw [halt?, empty] at fueled
    exact absurd rfl fueled

theorem refines_outOfFuel (x : Run H α) : Refines (throw .outOfFuel) x := fun m => .inr ⟨m, rfl⟩

theorem Refines.bind {x x' : Run H α} {f f' : α → Run H β} (hx : Refines x x')
    (hf : ∀ a, Refines (f a) (f' a)) : Refines (x >>= f) (x' >>= f') := by
  intro m
  rcases hx m with same | ⟨last, empty⟩
  · cases first : x' m with
    | ok a m' =>
      rw [bind_of_ok first, bind_of_ok (same.trans first)]
      exact hf a m'
    | error e m' => exact .inl ((bind_of_error (same.trans first)).trans (bind_of_error first).symm)
  · exact .inr ⟨last, bind_of_error empty⟩

theorem Refines.ensuring {x x' : Run H α} (hx : Refines x x')
    (after : Option α → Machine H → Machine H) :
    Refines (ensuring after x) (ensuring after x') := by
  intro m
  rcases hx m with same | ⟨last, empty⟩
  · left
    unfold Run.ensuring
    rw [same]
  · exact .inr ⟨after none last, ensuring_of_error empty⟩

theorem Refines.deeper {limits : Limits} {x x' : Run H α} (hx : Refines x x') :
    Refines (deeper limits x) (deeper limits x') := by
  intro m
  by_cases room : limits.levels ≤ m.levels
  · exact .inl ((deeper_of_le room).trans (deeper_of_le room).symm)
  · rw [deeper_of_lt (Nat.not_le.1 room), deeper_of_lt (Nat.not_le.1 room)]
    exact hx.ensuring _ _

/-- A level depends only on what is done inside it. -/
theorem deeper_congr {limits : Limits} {x x' : Run H α} {m : Machine H}
    (same : m.levels < limits.levels → x m.descend = x' m.descend) :
    deeper limits x m = deeper limits x' m := by
  by_cases room : limits.levels ≤ m.levels
  · exact (deeper_of_le room).trans (deeper_of_le room).symm
  · have inside := same (Nat.not_le.1 room)
    unfold Machine.descend at inside
    rw [deeper_of_lt (Nat.not_le.1 room), deeper_of_lt (Nat.not_le.1 room)]
    unfold ensuring
    rw [inside]

end Run

section

variable {limits : Limits}

theorem refines_activate {below below' : Evaluator H} (f : Closure) (args : List Value)
    (block : ∀ body s, Run.Refines (below.block body s) (below'.block body s)) :
    Run.Refines (Eval.activate limits below f args) (Eval.activate limits below' f args) := by
  intro m
  by_cases room : limits.calls ≤ m.calls
  · exact .inl ((Eval.activate_of_le room).trans (Eval.activate_of_le room).symm)
  · rw [Eval.activate_of_lt (Nat.not_le.1 room), Eval.activate_of_lt (Nat.not_le.1 room)]
    exact (block f.body m.store.scopes.size).ensuring _ _

theorem fueled_start (limits : Limits) (t : Task) (m : Machine H) :
    Moment.Fueled limits ⟨limits.levels + 1, t, m⟩ :=
  Nat.lt_succ_of_le (Nat.sub_le _ _)

variable [Host H]

theorem refines_simulation (limits : Limits) :
    Simulation (H := H) limits limits Run.Refines where
  primitive _ := fun _ => .inl rfl
  bind hx hf := hx.bind hf
  deeper hx := hx.deeper
  activate f args block := refines_activate f args block

/-- With any amount of fuel, an evaluator does what the equations say or is out of fuel. -/
theorem Evaluator.Solves.refines {E : Evaluator H} (solves : E.Solves limits) (fuel : Nat) :
    Evaluator.Related Run.Refines (evaluator limits fuel) E := by
  induction fuel with
  | zero => exact ⟨fun _ _ => Run.refines_outOfFuel _, fun _ _ => Run.refines_outOfFuel _⟩
  | succ n ih =>
    constructor
    · intro e s
      rw [solves.expr]
      exact ((refines_simulation limits).expr ih e s).deeper
    · intro body s
      rw [solves.block]
      exact ((refines_simulation limits).stmts ih s body).deeper

theorem evaluator_refines {n n' : Nat} (h : n ≤ n') :
    Evaluator.Related (H := H) Run.Refines (evaluator limits n) (evaluator limits n') := by
  induction n generalizing n' with
  | zero => exact ⟨fun _ _ => Run.refines_outOfFuel _, fun _ _ => Run.refines_outOfFuel _⟩
  | succ n ih =>
    cases n' with
    | zero => cases h
    | succ n' => exact (refines_simulation limits).evaluator_succ (ih (Nat.le_of_succ_le_succ h))

/-- Two amounts of fuel make no difference if both are more than the levels that are left. -/
theorem Task.run_eq_of_levelsLeft (t : Task) {m : Machine H} {fuel fuel' : Nat}
    (h : m.levelsLeft limits < fuel) (h' : m.levelsLeft limits < fuel') :
    t.run limits fuel m = t.run limits fuel' m := by
  have more {n n' : Nat} (le : n ≤ n') (enough : m.levelsLeft limits < n) :
      t.run limits n m = t.run limits n' m := by
    have fueled : Moment.Fueled limits ⟨n, t, m⟩ := enough
    exact ((refines_simulation limits).task (evaluator_refines le) t).eq fueled.halt?_ne
  rcases Nat.le_total fuel fuel' with le | le
  · exact more le h
  · exact (more le h').symm

/-- The evaluator that is started with one more level of fuel than there may be levels. -/
theorem solves_evaluator (limits : Limits) :
    (evaluator limits (limits.levels + 1) : Evaluator H).Solves limits := by
  have inner (t : Task) (m : Machine H) (room : m.levels < limits.levels) :
      t.run limits limits.levels m.descend = t.run limits (limits.levels + 1) m.descend := by
    have left : m.descend.levelsLeft limits < limits.levels := by
      unfold Machine.levelsLeft Machine.descend
      dsimp only
      omega
    exact t.run_eq_of_levelsLeft left (Nat.lt_succ_of_lt left)
  constructor
  · intro e s
    funext m
    exact Run.deeper_congr (inner (.node e s) m)
  · intro body s
    funext m
    exact Run.deeper_congr (inner (.stmts body s) m)

theorem Evaluator.Solves.eq {E : Evaluator H} (solves : E.Solves limits) :
    E = evaluator limits (limits.levels + 1) := by
  have refines := solves.refines (limits.levels + 1)
  have expr : E.expr = (evaluator limits (limits.levels + 1)).expr := by
    funext e s m
    exact ((refines.expr e s).eq (fueled_start limits (.expr e s) m).halt?_ne).symm
  have block : E.block = (evaluator limits (limits.levels + 1)).block := by
    funext body s m
    exact ((refines.block body s).eq (fueled_start limits (.block body s) m).halt?_ne).symm
  cases E
  exact congrArg₂ Evaluator.mk expr block

theorem Program.halt?_exec_ne (limits : Limits) (p : Program) (m : Machine H) :
    (p.exec limits).halt? m ≠ some .outOfFuel := by
  intro failed
  obtain ⟨q, starts, failed⟩ := halt?_exec failed
  cases starts with
  | statements => exact (fueled_start limits _ _).halt?_ne failed
  | entry => exact (fueled_start limits _ _).halt?_ne failed

end

/-- Evaluation always ends, whatever the limit on calls. Each task that another one starts has fewer
levels left, or as many and less to do; so the evaluator with one more level of fuel than there may
be levels is the only solution of the equations of evaluation, more fuel than levels left changes
nothing and is never used up, and every program comes to a value or to an error of the language. -/
theorem evaluation_ends [Host H] (limits : Limits) :
    (∀ p q : Moment H, p.Calls limits q →
      Prod.Lex (· < ·) (· < ·) (q.measure limits) (p.measure limits)) ∧
    (∀ E : Evaluator H, E.Solves limits ↔ E = evaluator limits (limits.levels + 1)) ∧
    (∀ (t : Task) (m : Machine H) (fuel fuel' : Nat), m.levelsLeft limits < fuel →
      m.levelsLeft limits < fuel' → t.run limits fuel m = t.run limits fuel' m) ∧
    (∀ p : Moment H, p.machine.levelsLeft limits < p.fuel → p.halt? limits ≠ some .outOfFuel) ∧
    ∀ (p : Program) (m : Machine H), (∃ v last, p.exec limits m = .ok v last) ∨
      ∃ e last, p.exec limits m = .error (.error e) last := by
  refine ⟨fun _ _ h => h.measure_lt, fun E => ⟨fun solves => solves.eq, ?_⟩,
    fun t m _ _ h h' => t.run_eq_of_levelsLeft h h',
    fun _ fueled => Moment.Fueled.halt?_ne fueled, ?_⟩
  · rintro rfl
    exact solves_evaluator limits
  · intro p m
    have fueled := p.halt?_exec_ne limits m
    unfold Run.halt? at fueled
    cases result : p.exec limits m with
    | ok v last => exact .inl ⟨v, last, rfl⟩
    | error h last =>
      cases h with
      | error e => exact .inr ⟨e, last, rfl⟩
      | outOfFuel =>
        rw [result] at fueled
        exact absurd rfl fueled

/-- Two functions that call each other without end, under a limit on calls that no run reaches. -/
theorem evaluation_ends_endless :
    let limits : Limits := ⟨2 ^ 64 - 1, 7⟩
    let p : Program :=
      [.verse "f" [] [.expr (.call "g" [])], .verse "g" [] [.expr (.call "f" [])],
        .expr (.call "f" [])]
    let block : Moment Console := ⟨8, .block p 0, .start {}⟩
    let stmts : Moment Console := ⟨7, .stmts p 0, block.machine.descend⟩
    Prod.Lex (· < ·) (· < ·) (stmts.measure limits) (block.measure limits) ∧
      (block.machine.levelsLeft limits = 7 ∧
        block.halt? limits = some (.error (.stackOverflow 7))) ∧
      block.task.run limits 8 block.machine = block.task.run limits 1000 block.machine ∧
      block.halt? limits ≠ some .outOfFuel ∧
      ∃ last, p.exec limits (.start ({} : Console)) = .error (.error (.stackOverflow 7)) last := by
  intro limits p block stmts
  obtain ⟨descent, -, fuel, never, ends⟩ := evaluation_ends (H := Console) limits
  have starts : block.Calls limits stmts := .blockLevel (by decide)
  have enough : block.machine.levelsLeft limits < 8 := by decide
  have halts :
      (p.exec limits).halt? (.start ({} : Console)) = some (.error (.stackOverflow 7)) := by cbv
  refine ⟨descent block stmts starts, ⟨by decide, by cbv⟩, fuel _ _ 8 1000 enough (by decide),
    never block enough, ?_⟩
  rcases ends p (.start ({} : Console)) with ⟨v, last, result⟩ | ⟨e, last, result⟩
  · rw [Run.halt?, result] at halts
    cases halts
  · rw [Run.halt?, result] at halts
    cases halts
    exact ⟨last, result⟩

end CypherLang
