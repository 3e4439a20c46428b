import CypherLang.Proofs.Eval.Counters

namespace CypherLang

variable {H : Type}

/-- The machine without its log: its scopes, its host, and what it counts and tracks. -/
def Machine.unlogged (m : Machine H) : Machine H := { m with log := {} }

namespace Run

/-- The same end of a run with another log. -/
def relog (log : Log) :
    EStateM.Result Halt (Machine H) α → EStateM.Result Halt (Machine H) α
  | .ok a last => .ok a { last with log }
  | .error e last => .error e { last with log }

/-- The two runs do the same, apart from the log, on machines that differ in the log. -/
def Alike (x x' : Run H α) : Prop := ∀ m log, ∃ log', x { m with log } = relog log' (x' m)

variable {x x' : Run H α}

theorem alike_hostCall (f : H → Except String α × H) :
    Alike (hostCall f) (hostCall f) := by
  intro m log
  refine ⟨log, ?_⟩
  rcases result : f m.host with ⟨reason | a, host⟩
  · rw [hostCall_of_error result]
    exact hostCall_of_error (m := { m with log }) result
  · rw [hostCall_of_ok result]
    exact hostCall_of_ok (m := { m with log }) result

theorem Primitive.alike [Host H] (h : x.Primitive) : Alike x x := by
  intro m log
  cases h with
  | lookup s name =>
    refine ⟨log, ?_⟩
    cases found : m.store.get? s name with
    | some v =>
      rw [lookup_of_some found]
      exact lookup_of_some (m := { m with log }) found
    | none =>
      rw [lookup_of_none found]
      exact lookup_of_none (m := { m with log }) found
  | assign s name v =>
    refine ⟨log, ?_⟩
    cases owner : m.store.owner? s name with
    | some o =>
      rw [assign_of_some v owner]
      exact assign_of_some (m := { m with log }) v owner
    | none =>
      rw [assign_of_none v owner]
      exact assign_of_none (m := { m with log }) v owner
  | write line => exact alike_hostCall _ m log
  | read => exact alike_hostCall _ m log
  | _ => exact ⟨_, rfl⟩

theorem Alike.bind {f f' : α → Run H β} (hx : Alike x x') (hf : ∀ a, Alike (f a) (f' a)) :
    Alike (x >>= f) (x' >>= f') := by
  intro m log
  obtain ⟨log', first⟩ := hx m log
  cases h : x' m with
  | ok a last =>
    rw [h] at first
    rw [bind_of_ok first, bind_of_ok h]
    exact hf a last log'
  | error e last =>
    rw [h] at first
    rw [bind_of_error first, bind_of_error h]
    exact ⟨log', rfl⟩

theorem bind_congr {f : α → Run H β} {m m' : Machine H} (h : x m = x' m') :
    (x >>= f) m = (x' >>= f) m' := by
  change EStateM.bind x f m = EStateM.bind x' f m'
  unfold EStateM.bind
  rw [h]

/-- What is done at the end of a run does not depend on the log either. -/
theorem Alike.ensuring (hx : Alike x x') {after after' : Option α → Machine H → Machine H}
    (same : ∀ c last log, after c { last with log } = { after' c last with log }) :
    Alike (ensuring after x) (ensuring after' x') := by
  intro m log
  obtain ⟨log', inside⟩ := hx m log
  refine ⟨log', ?_⟩
  cases h : x' m with
  | ok a last =>
    rw [h] at inside
    rw [ensuring_of_ok inside, ensuring_of_ok h, same]
    rfl
  | error e last =>
    rw [h] at inside
    rw [ensuring_of_error inside, ensuring_of_error h, same]
    rfl

end Run

variable {limits : Limits}

theorem alike_deeper {x x' : Run H α} (hx : x.Alike x') :
    (Run.deeper limits x).Alike (Run.deeper limits x') := by
  intro m log
  by_cases room : limits.levels ≤ m.levels
  · rw [Run.deeper_of_le room, Run.deeper_of_le (m := { m with log }) room]
    exact ⟨log, rfl⟩
  · have room := Nat.not_le.1 room
    rw [Run.deeper_of_lt room, Run.deeper_of_lt (m := { m with log }) room]
    exact hx.ensuring (fun _ _ _ => rfl) m.descend log

theorem alike_activate {below below' : Evaluator H} (f : Closure) (args : List Value)
    (block : ∀ body s, (below.block body s).Alike (below'.block body s)) :
    (Eval.activate limits below f args).Alike (Eval.activate limits below' f args) := by
  intro m log
  by_cases room : limits.calls ≤ m.calls
  · rw [Eval.activate_of_le room, Eval.activate_of_le (m := { m with log }) room]
    exact ⟨log, rfl⟩
  · have room := Nat.not_le.1 room
    rw [Eval.activate_of_lt room, Eval.activate_of_lt (m := { m with log }) room]
    exact (block f.body m.store.scopes.size).ensuring (fun _ _ _ => rfl) (m.enter f args) _

theorem alike_simulation [Host H] :
    Simulation (H := H) limits limits Run.Alike where
  primitive h := h.alike
  bind hx hf := hx.bind hf
  deeper hx := alike_deeper hx
  activate f args block := alike_activate f args block

theorem alike_evaluator [Host H] (limits : Limits) (fuel : Nat) :
    Evaluator.Related (H := H) Run.Alike (evaluator limits fuel) (evaluator limits fuel) := by
  induction fuel with
  | zero => exact ⟨fun _ _ _ log => ⟨log, rfl⟩, fun _ _ _ log => ⟨log, rfl⟩⟩
  | succ n ih => exact alike_simulation.evaluator_succ ih

theorem Eval.stmts_append {below : Evaluator H} {s : ScopeId} {p q : List Stmt} {m m' : Machine H}
    (h : Eval.stmts below s p m = .ok .normal m') :
    Eval.stmts below s (p ++ q) m = Eval.stmts below s q m' := by
  induction p generalizing m with
  | nil =>
    cases h
    rfl
  | cons x p ih =>
    unfold Eval.stmts at h
    change (Eval.stmt below x s >>= _) m = _
    cases first : Eval.stmt below x s m with
    | error e m₁ =>
      rw [Run.bind_of_error first] at h
      cases h
    | ok c m₁ =>
      rw [Run.bind_of_ok first] at h ⊢
      cases c with
      | normal => exact ih h
      | returned v => cases h

/-- A balanced run on a level of its own ends on the level it has been given. -/
theorem deeper_ok {x : Run H α} {m m' : Machine H} {a : α} (hx : x.Balanced)
    (h : Run.deeper limits x m = .ok a m') :
    m.levels < limits.levels ∧ m'.levels = m.levels ∧ x m.descend = .ok a m'.descend := by
  by_cases room : limits.levels ≤ m.levels
  · rw [Run.deeper_of_le room] at h
    cases h
  have room := Nat.not_le.1 room
  have run := (Run.deeper_of_lt room).symm.trans h
  change Run.ensuring _ x m.descend = _ at run
  cases inner : x m.descend with
  | error e last =>
    rw [Run.ensuring_of_error inner] at run
    cases run
  | ok b last =>
    rw [Run.ensuring_of_ok inner] at run
    cases run
    have levels : last.levels = m.levels + 1 := (hx.of_ok inner).2
    refine ⟨room, ?_, ?_⟩
    · change last.levels - 1 = m.levels
      rw [levels, Nat.add_sub_cancel]
    · have same : ({ last with levels := last.levels - 1 } : Machine H).descend = last := by
        unfold Machine.descend
        rw [levels, Nat.add_sub_cancel, ← levels]
      rw [same]

/-- Statements that end normally are followed by others as if these were on a level of their own. -/
theorem block_append [Host H] {fuel : Nat} {s : ScopeId} {p q : List Stmt} {m m' : Machine H}
    (h : (evaluator limits fuel).block p s m = .ok .normal m') :
    (evaluator limits fuel).block (p ++ q) s m = (evaluator limits fuel).block q s m' := by
  cases fuel with
  | zero => cases h
  | succ n =>
    obtain ⟨room, levels, inner⟩ := deeper_ok (Moment.balanced_task limits n (.stmts p s)) h
    have room' : m'.levels < limits.levels := by rwa [levels]
    calc Run.deeper limits (Eval.stmts (evaluator limits n) s (p ++ q)) m
        = Run.ensuring (fun _ m => { m with levels := m.levels - 1 })
            (Eval.stmts (evaluator limits n) s (p ++ q)) m.descend := Run.deeper_of_lt room
      _ = Run.ensuring (fun _ m => { m with levels := m.levels - 1 })
            (Eval.stmts (evaluator limits n) s q) m'.descend := by
          unfold Run.ensuring
          rw [Eval.stmts_append inner]
      _ = Run.deeper limits (Eval.stmts (evaluator limits n) s q) m' :=
          (Run.deeper_of_lt room').symm

/-- The global scope is always the same one. -/
def rooted : Discipline H where
  machine _ := True
  change m m' := m'.globals = m.globals

theorem rooted_kept : (rooted : Discipline H).Kept where
  refl _ := rfl
  trans h h' := Eq.trans h' h
  valueLater _ _ := trivial
  scopeLater _ _ := trivial
  plain _ := trivial
  found _ _ _ := trivial
  logs _ _ := ⟨trivial, rfl⟩
  outside _ _ _ := ⟨trivial, rfl⟩
  spit _ _ _ _ := ⟨trivial, rfl⟩
  verse _ _ _ := ⟨trivial, rfl⟩
  assign _ _ _ _ _ := ⟨trivial, rfl⟩
  branch _ _ _ := ⟨⟨trivial, rfl⟩, trivial, fun _ _ => trivial, fun _ _ _ _ => trivial⟩
  enter _ _ _ := ⟨⟨trivial, rfl⟩, trivial, fun _ _ => trivial⟩
  leave _ _ next := ⟨trivial, next.change⟩
  returned _ _ _ := trivial

variable [Host H]

namespace Program

/-- The statements of the program end normally on the machine `m'`, and there is no entry point to
be called then. -/
structure EndsOpen (limits : Limits) (p : Program) (m m' : Machine H) : Prop where
  ends : (Task.block p m.globals).run limits (limits.levels + 1)
    { m with log := m.log.add (.executing p.length) } = .ok .normal m'
  noEntry : ∀ f, m'.store.get? m.globals entryName ≠ some (.verse f)

/-- A program on a machine: its statements, and what comes after them. -/
theorem exec_apply (p : Program) {m : Machine H} {globals : ScopeId} (h : m.globals = globals) :
    p.exec limits m =
      ((evaluator limits (limits.levels + 1)).block p globals >>= finish limits globals)
        { m with log := m.log.add (.executing p.length) } := by
  subst h
  rw [Simulation.exec_eq]
  rfl

theorem finish_of_noEntry {globals : ScopeId} {m : Machine H}
    (h : ∀ f, m.store.get? globals entryName ≠ some (.verse f)) :
    finish limits globals .normal m = .ok none { m with log := m.log.add .noEntryPoint } := by
  have looks : Run.find globals entryName m = .ok (m.store.get? globals entryName) m := rfl
  refine (Run.bind_of_ok looks).trans ?_
  cases found : m.store.get? globals entryName with
  | none => rfl
  | some v =>
    cases v with
    | verse f => exact absurd found (h f)
    | _ => rfl

namespace EndsOpen

variable {p : Program} {m m' : Machine H}

theorem exec (h : EndsOpen limits p m m') :
    p.exec limits m = .ok none { m' with log := m'.log.add .noEntryPoint } := by
  refine (exec_apply p rfl).trans ((Run.bind_of_ok h.ends).trans ?_)
  exact finish_of_noEntry h.noEntry

theorem globals (h : EndsOpen limits p m m') : m'.globals = m.globals := by
  have obeys := (rooted_kept (H := H)).obeys limits (limits.levels + 1)
  have keeps := obeys.block p m.globals (m := { m with log := m.log.add (.executing p.length) })
    trivial trivial fun _ _ => trivial
  exact (keeps.of_ok h.ends).1.change

/-- The second part of a program runs as it does after the first one has ended. -/
theorem exec_append (h : EndsOpen limits p m m') (q : Program) : ∃ log,
    (p ++ q).exec limits m =
      Run.relog log (q.exec limits { m' with log := m'.log.add .noEntryPoint }) := by
  have alike := alike_evaluator (H := H) limits (limits.levels + 1)
  have rest := (alike.block q m.globals).bind fun c => alike_simulation.finish alike m.globals c
  let ended : Machine H := { m' with log := m'.log.add .noEntryPoint }
  have second : q.exec limits ended = _ := exec_apply q h.globals
  have whole : (p ++ q).exec limits m = _ := exec_apply (p ++ q) rfl
  -- The first part of the whole program differs from the program `p` in the log alone.
  obtain ⟨log, first⟩ := alike.block p m.globals
    { m with log := m.log.add (.executing p.length) } (m.log.add (.executing (p ++ q).length))
  have first := first.trans (congrArg (Run.relog log) h.ends)
  obtain ⟨log', last⟩ := rest { ended with log := ended.log.add (.executing q.length) } log
  refine ⟨log', whole.trans (Eq.trans ?_ (last.trans (congrArg (Run.relog log') second.symm)))⟩
  exact Run.bind_congr (block_append first)

end EndsOpen

end Program

namespace Session

/-- A program in two parts, of which the first one ends without an entry point to be called, ends
alike whether the parts are run one after the other or as one: with the same result or error and on
the same machine, apart from the log. -/
theorem run_append (s : Session H) (p q : Program) {m : Machine H}
    (h : p.EndsOpen s.limits s.machine m) :
    let first := s.run p
    let second := first.2.run q
    let whole := s.run (p ++ q)
    first.1 = .ok none ∧ second.1 = whole.1 ∧
      second.2.machine.unlogged = whole.2.machine.unlogged := by
  obtain ⟨log, same⟩ := h.exec_append q
  have first : s.run p = (.ok none, ⟨s.limits, { m with log := m.log.add .noEntryPoint }⟩) := by
    unfold run
    rw [h.exec]
  dsimp only
  rw [first]
  refine ⟨rfl, ?_⟩
  unfold run
  dsimp only
  rw [same]
  cases q.exec s.limits { m with log := m.log.add .noEntryPoint } with
  | ok v last => exact ⟨rfl, rfl⟩
  | error e last =>
    cases e with
    | error e => exact ⟨rfl, rfl⟩
    | outOfFuel => exact ⟨rfl, rfl⟩

/-- The second part calls a function of the first one and then fails. -/
theorem run_append_counter :
    let s := start ⟨2, 16⟩ ({} : Console)
    let p : Program := [.spit "n" (.literal (.int 0)), .verse "next" [] [
      .assign "n" (.binary (.identifier "n") .add (.literal (.int 1))),
      .ret (some (.identifier "n"))]]
    let q : Program := [.expr (.call outputName [.call "next" [], .call "next" []]),
      .expr (.identifier "m")]
    (∃ m, p.EndsOpen s.limits s.machine m) ∧ (s.run p).1 = .ok none ∧
      ((s.run p).2.run q).1 = (s.run (p ++ q)).1 ∧
        ((s.run p).2.run q).2.machine.unlogged = (s.run (p ++ q)).2.machine.unlogged := by
  intro s p q
  have opened : ∃ m, p.EndsOpen s.limits s.machine m := by
    refine ⟨_, rfl, ?_⟩
    intro f found
    cbv at found
    cases found
  obtain ⟨m, ends⟩ := opened
  exact ⟨⟨m, ends⟩, run_append s p q ends⟩

/-- It is not enough that no entry point is left at the end: one that is called after the first part
and puts something else in its own place is called after both parts of the whole program. -/
theorem run_append_replaced_entry :
    let s := start ⟨2, 16⟩ ({} : Console)
    let write (text : String) : Stmt := .expr (.call outputName [.literal (.text text)])
    let p : Program := [.verse entryName [] [write "x", .assign entryName (.literal .null)]]
    let q : Program := [write "y"]
    let first := s.run p
    first.1 = .ok none ∧
      (∃ m, (Task.block p s.machine.globals).run s.limits (s.limits.levels + 1) s.machine =
        .ok .normal m) ∧
      (∀ f, first.2.machine.store.get? s.machine.globals entryName ≠ some (.verse f)) ∧
      (first.2.run q).2.machine.host.output = #["x", "y"] ∧
        (s.run (p ++ q)).2.machine.host.output = #["y", "x"] := by
  dsimp only
  refine ⟨by cbv, ⟨_, rfl⟩, ?_, by cbv, by cbv⟩
  intro f found
  cbv at found
  cases found

end Session

end CypherLang
