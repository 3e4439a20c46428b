import CypherLang.Proofs.Eval.Alive

namespace CypherLang

variable {H : Type}

namespace Machine

/-- The two machines have the same number of active calls and of levels. -/
def SameCounters (m m' : Machine H) : Prop := m'.calls = m.calls ∧ m'.levels = m.levels

theorem SameCounters.trans {m m' last : Machine H} (h : m.SameCounters m')
    (h' : m'.SameCounters last) : m.SameCounters last :=
  ⟨h'.1.trans h.1, h'.2.trans h.2⟩

end Machine

namespace Run

variable {x : Run H α} {m : Machine H}

/-- The run gives back every call and every level it has taken. -/
def Balanced (x : Run H α) : Prop := ∀ m : Machine H, m.SameCounters (x.final m)

theorem Balanced.of_ok {m' : Machine H} {a : α} (hx : x.Balanced) (h : x m = .ok a m') :
    m.SameCounters m' := by
  have same := hx m
  rwa [final_of_ok h] at same

theorem same_of_ok {last : Machine H} {a : α} (h : x m = .ok a last) (same : m.SameCounters last) :
    m.SameCounters (x.final m) := by
  rwa [final_of_ok h]

theorem same_of_error {last : Machine H} {e : Halt} (h : x m = .error e last)
    (same : m.SameCounters last) : m.SameCounters (x.final m) := by
  rwa [final_of_error h]

theorem balanced_hostCall (f : H → Except String α × H) :
    (hostCall f).Balanced := by
  intro m
  rcases result : f m.host with ⟨reason | a, host⟩
  · exact same_of_error (hostCall_of_error result) ⟨rfl, rfl⟩
  · exact same_of_ok (hostCall_of_ok result) ⟨rfl, rfl⟩

theorem Primitive.balanced [Host H] (h : x.Primitive) : x.Balanced := by
  intro m
  cases h with
  | lookup s name =>
    cases found : m.store.get? s name with
    | some v => exact same_of_ok (lookup_of_some found) ⟨rfl, rfl⟩
    | none => exact same_of_error (lookup_of_none found) ⟨rfl, rfl⟩
  | assign s name v =>
    cases owner : m.store.owner? s name with
    | some o => exact same_of_ok (assign_of_some v owner) ⟨rfl, rfl⟩
    | none => exact same_of_error (assign_of_none v owner) ⟨rfl, rfl⟩
  | write line => exact balanced_hostCall _ m
  | read => exact balanced_hostCall _ m
  | _ => exact ⟨rfl, rfl⟩

theorem Balanced.bind {f : α → Run H β} (hx : x.Balanced) (hf : ∀ a, (f a).Balanced) :
    (x >>= f).Balanced := by
  intro m
  have first := hx m
  cases h : x m with
  | ok a m' =>
    rw [final_of_ok h] at first
    rw [final, bind_of_ok h]
    exact first.trans (hf a m')
  | error e m' =>
    rw [final_of_error h] at first
    exact same_of_error (bind_of_error h) first

/-- What is opened for a run is closed when it ends, however it ends. -/
theorem Balanced.ensuring (hx : x.Balanced) {after : Option α → Machine H → Machine H}
    {opened : Machine H}
    (closes : ∀ c last, opened.SameCounters last → m.SameCounters (after c last)) :
    m.SameCounters ((ensuring after x).final opened) := by
  have inside := hx opened
  cases h : x opened with
  | ok a last =>
    rw [final_of_ok h] at inside
    rw [final_of_ok (ensuring_of_ok h)]
    exact closes _ last inside
  | error e last =>
    rw [final_of_error h] at inside
    rw [final_of_error (ensuring_of_error h)]
    exact closes _ last inside

end Run

variable {limits : Limits}

theorem balanced_deeper {x : Run H α} (hx : x.Balanced) : (Run.deeper limits x).Balanced := by
  intro m
  by_cases room : limits.levels ≤ m.levels
  · rw [Run.final_of_error (Run.deeper_of_le room)]
    exact ⟨rfl, rfl⟩
  · rw [Run.final, Run.deeper_of_lt (Nat.not_le.1 room)]
    apply hx.ensuring
    rintro _ last ⟨calls, levels⟩
    exact ⟨calls, Nat.sub_eq_of_eq_add levels⟩

theorem balanced_activate {below : Evaluator H} (f : Closure) (args : List Value)
    (block : ∀ body s, (below.block body s).Balanced) :
    (Eval.activate limits below f args).Balanced := by
  intro m
  by_cases room : limits.calls ≤ m.calls
  · rw [Run.final_of_error (Eval.activate_of_le room)]
    exact ⟨rfl, rfl⟩
  · rw [Run.final, Eval.activate_of_lt (Nat.not_le.1 room)]
    apply (block f.body m.store.scopes.size).ensuring
    rintro _ last ⟨calls, levels⟩
    exact ⟨Nat.sub_eq_of_eq_add calls, levels⟩

variable [Host H]

theorem balanced_simulation :
    Simulation (H := H) limits limits fun x _ => x.Balanced where
  primitive h := h.balanced
  bind hx hf := hx.bind hf
  deeper hx := balanced_deeper hx
  activate f args block := balanced_activate f args block

theorem balanced_evaluator (fuel : Nat) :
    Evaluator.Related (H := H) (fun x _ => x.Balanced) (evaluator limits fuel)
      (evaluator limits fuel) := by
  induction fuel with
  | zero => exact ⟨fun _ _ _ => ⟨rfl, rfl⟩, fun _ _ _ => ⟨rfl, rfl⟩⟩
  | succ n ih => exact balanced_simulation.evaluator_succ ih

theorem Program.balanced_exec (limits : Limits) (p : Program) :
    (p.exec limits : Run H (Option Value)).Balanced :=
  balanced_simulation.exec (balanced_evaluator _) p

namespace Moment

variable {p q : Moment H}

theorem balanced_task (limits : Limits) (fuel : Nat) (t : Task) :
    (t.run limits fuel : Run H t.Result).Balanced :=
  balanced_simulation.task (balanced_evaluator fuel) t

/-- The task that is started has the calls and levels of the one that starts it, and those opened
for it. -/
theorem Calls.counters (h : Calls limits p q) :
    q.machine.calls = p.machine.calls + p.task.ownCalls ∧
      q.machine.levels = p.machine.levels + p.task.ownLevels := by
  have value {n : Nat} {e : Expr} {s : ScopeId} {m m' : Machine H} {a : Value}
      (h : (evaluator limits n).expr e s m = .ok a m') : m.SameCounters m' :=
    ((balanced_evaluator n).expr e s).of_ok h
  cases h with
  | right h | moreArguments h => exact value h
  | activation _ _ h => exact (balanced_task limits _ (.arguments _ _)).of_ok h
  | more h => exact (balanced_task limits _ (.stmt _ _)).of_ok h
  | branch h _ => exact (value h).trans ⟨rfl, rfl⟩
  | _ => exact ⟨rfl, rfl⟩

/-- A level or a call is opened only where there is room for it. -/
theorem Calls.counters_le (h : Calls limits p q) :
    q.machine.calls ≤ max p.machine.calls limits.calls ∧
      q.machine.levels ≤ max p.machine.levels limits.levels := by
  obtain ⟨calls, levels⟩ := h.counters
  rw [calls, levels]
  cases h with
  | exprLevel | blockLevel | body =>
    simp only [Task.ownCalls, Task.ownLevels]
    omega
  | _ => exact ⟨Nat.le_max_left _ _, Nat.le_max_left _ _⟩

theorem Reaches.counters_le (h : Reaches limits p q) :
    q.machine.calls ≤ max p.machine.calls limits.calls ∧
      q.machine.levels ≤ max p.machine.levels limits.levels := by
  induction h with
  | refl => exact ⟨Nat.le_max_left _ _, Nat.le_max_left _ _⟩
  | tail _ calls ih =>
    have next := calls.counters_le
    omega

/-- What a task has opened for another one is still counted when that one ends. -/
theorem Calls.own_le_final (h : Calls limits p q) :
    p.task.ownCalls ≤ (q.final limits).calls ∧ p.task.ownLevels ≤ (q.final limits).levels := by
  obtain ⟨calls, levels⟩ := h.counters
  obtain ⟨calls', levels'⟩ := balanced_task limits q.fuel q.task q.machine
  change (q.final limits).calls = _ at calls'
  change (q.final limits).levels = _ at levels'
  omega

end Moment

namespace Session

theorem counters_after (limits : Limits) (host : H) (ps : List Program) :
    ((start limits host).after ps).machine.calls = 0 ∧
      ((start limits host).after ps).machine.levels = 0 := by
  refine (after_induction (P := fun m => m.calls = 0 ∧ m.levels = 0) ?_ ⟨rfl, rfl⟩ ps).1
  rintro p m ⟨calls, levels⟩
  obtain ⟨calls', levels'⟩ := p.balanced_exec limits m
  exact ⟨calls'.trans calls, levels'.trans levels⟩

end Session

end CypherLang
