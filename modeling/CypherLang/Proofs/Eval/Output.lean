import CypherLang.Proofs.Eval.Depths
import CypherLang.Proofs.Eval.Points
import CypherLang.Proofs.Syntax.RoundTrip

namespace CypherLang

variable {H : Type}

open Token (IsName)

theorem Token.IsName.ne_outputName {name : String} (h : IsName name) : name ≠ outputName := by
  intro same
  subst same
  exact absurd h.2 (by decide)

/-- A function that a text can declare. -/
def Closure.Written (f : Closure) : Prop := WrittenHead f.name f.params ∧ Stmt.AllWritten f.body

theorem WrittenHead.ne_outputName {name : String} {params : List String}
    (h : WrittenHead name params) : name ≠ outputName ∧ ∀ p ∈ params, p ≠ outputName := by
  rcases h with cypher | ⟨isName, areNames⟩
  · simp only [isCypherBlock, Bool.and_eq_true, beq_iff_eq, List.isEmpty_iff] at cypher
    rw [cypher.1, cypher.2]
    exact ⟨by decide, by simp⟩
  · exact ⟨isName.ne_outputName, fun p hp => (areNames p hp).ne_outputName⟩

theorem Stmt.allWritten_iff {body : List Stmt} :
    Stmt.AllWritten body ↔ ∀ x ∈ body, x.Written := by
  induction body with
  | nil => simp [Stmt.AllWritten]
  | cons x body ih => simp [Stmt.AllWritten, ih]

theorem declares_written : Declares Closure.Written Stmt.Written where
  verse h := h
  body h := Stmt.allWritten_iff.1 h.2
  branch {c thenBranch elseBranch} h := by
    cases elseBranch with
    | none => exact ⟨Stmt.allWritten_iff.1 h.2, by simp⟩
    | some other =>
      refine ⟨Stmt.allWritten_iff.1 h.2.1, ?_⟩
      intro body mem
      cases mem
      exact Stmt.allWritten_iff.1 h.2.2

theorem Program.written_of_parse {source : String} {p : Program}
    (h : Program.parse source = .ok p) : ∀ x ∈ p, x.Written := by
  obtain ⟨n, body, -, derived, spelled⟩ := Program.body_of_parse h
  exact Stmt.allWritten_iff.1 (derived.written spelled)

namespace Machine

variable {m m' : Machine H} {s r : ScopeId} {name : String} {v : Value}

/-- The global scope binds the name of the output routine to it, and no other scope binds that
name. -/
structure OutputBound (m : Machine H) : Prop where
  global : (m.store.scope m.globals).get? outputName = some (.builtin .flow)
  alone : ∀ s, (m.store.scope s).binds outputName → s = m.globals

namespace OutputBound

theorem of_same (h : m.OutputBound) (scopes : m'.store.scopes = m.store.scopes)
    (globals : m'.globals = m.globals) : m'.OutputBound := by
  have scope (s : ScopeId) : m'.store.scope s = m.store.scope s := by
    unfold Store.scope
    rw [scopes]
  refine ⟨?_, ?_⟩
  · rw [scope, globals]
    exact h.global
  · intro s bound
    rw [scope] at bound
    rw [globals]
    exact h.alone s bound

theorem bind (s : ScopeId) (v : Value) (h : m.OutputBound) (ne : name ≠ outputName) :
    OutputBound { m with store := m.store.bind s name v } := by
  refine ⟨?_, ?_⟩
  · change ((m.store.bind s name v).scope m.globals).get? outputName = _
    rw [Store.scope_bind]
    split
    · rw [Scope.get?_bind, if_neg ne.symm]
      exact h.global
    · exact h.global
  · intro t bound
    rcases Store.binds_of_binds_bind bound with old | ⟨-, same⟩
    · exact h.alone t old
    · exact absurd same.symm ne

theorem bindAll (bindings : List (String × Value)) (h : m.OutputBound)
    (ne : ∀ b ∈ bindings, b.1 ≠ outputName) :
    OutputBound { m with store := bindings.foldl (fun st b => st.bind s b.1 b.2) m.store } := by
  induction bindings generalizing m with
  | nil => exact h
  | cons b bindings ih =>
    obtain ⟨hb, hrest⟩ := List.forall_mem_cons.1 ne
    exact ih (h.bind s b.2 hb) hrest

theorem withScope (s : ScopeId) (h : m.OutputBound) (made : m.globals < m.store.scopes.size) :
    (m.withScope s).OutputBound := by
  refine ⟨?_, ?_⟩
  · change ((m.store.newChild s).2.scope m.globals).get? outputName = _
    rw [Store.scope_newChild_of_lt made]
    exact h.global
  · intro t bound
    change ((m.store.newChild s).2.scope t).binds outputName at bound
    rw [Store.scope_newChild] at bound
    split at bound
    · cases bound
    · exact h.alone t bound

theorem collect (h : m.OutputBound) (sound : m.Sound) (mark : Nat) (held : Option Closure) :
    (m.collect mark held).OutputBound := by
  refine ⟨?_, ?_⟩
  · change ((m.collect mark held).store.scope m.globals).get? outputName = _
    rw [scope_collect, if_neg sound.globals_not_mem_released]
    exact h.global
  · intro t bound
    rw [scope_collect] at bound
    split at bound
    · exact absurd bound (Scope.not_binds_empty outputName)
    · exact h.alone t bound

end OutputBound

theorem OutputBound.owner? (h : m.OutputBound) (sound : m.Sound) (ordered : m.Ordered)
    (s : ScopeId) (alive : m.Alive s) : m.store.owner? s outputName = some m.globals := by
  unfold Store.owner?
  by_cases bound : (m.store.scope s).binds outputName
  · rw [if_pos bound, h.alone s bound]
  · have outside : s ≠ m.globals := by
      intro same
      subst same
      exact bound (by simp [Scope.binds, h.global])
    obtain ⟨parent, inside⟩ := Option.isSome_iff_exists.1 (alive.resolve_left outside)
    have younger := ordered s parent inside
    have alive' := sound.refs s parent (Scope.mem_refs.2 (.inl inside))
    rw [if_neg bound, inside]
    dsimp only
    rw [if_pos younger]
    exact OutputBound.owner? h sound ordered parent alive'
termination_by s

/-- The output routine is found under its name from every scope that is in use. -/
theorem OutputBound.get? (h : m.OutputBound) (sound : m.Sound) (ordered : m.Ordered)
    (alive : m.Alive s) : m.store.get? s outputName = some (.builtin .flow) := by
  rw [Store.get?, h.owner? sound ordered s alive]
  exact h.global

/-- What holds of the machines that texts can lead to. -/
structure Spelled (m : Machine H) : Prop where
  sound : m.Sound
  ordered : m.Ordered
  functions : m.Functions Closure.Written
  output : m.OutputBound

end Machine

/-- All functions and statements are such as texts can spell. -/
def spelling : Discipline H where
  machine := Machine.Spelled
  change := Machine.Extends
  value m v := m.Holds v ∧ ∀ f, v.closure? = some f → f.Written
  scope := Machine.Alive
  stmt x _ := x.Written

namespace Machine.Spelled

variable {m m' : Machine H} {s : ScopeId} {name : String} {v : Value}

theorem next_of_same (h : m.Spelled) (scopes : m'.store.scopes = m.store.scopes)
    (globals : m'.globals = m.globals) (tracked : m'.tracked = m.tracked) :
    spelling.Next m m' := by
  have scope (s : ScopeId) : m'.store.scope s = m.store.scope s := by
    unfold Store.scope
    rw [scopes]
  obtain ⟨sound, later⟩ := h.sound.of_same scopes globals tracked
  refine ⟨⟨sound, h.ordered.of_parent fun s => by rw [scope], ?_, ?_⟩, later⟩
  · intro s b mem
    rw [scope] at mem
    exact h.functions s b mem
  · exact h.output.of_same scopes globals

theorem next_of_bind (h : m.Spelled) (ne : name ≠ outputName)
    (next : upkeep.Next m { m with store := m.store.bind s name v })
    (hv : ∀ f, v.closure? = some f → f.Written) :
    spelling.Next m { m with store := m.store.bind s name v } where
  machine := {
    sound := next.machine
    ordered := h.ordered.of_parent fun _ => Store.parent_bind
    functions := h.functions.bind s name hv
    output := h.output.bind s v ne }
  change := next.change

/-- A call binds the parameters of a function that a text has declared. -/
theorem enter {f : Closure} {args : List Value} (h : m.Spelled) (hf : m.Alive f.scope)
    (written : f.Written) (next : upkeep.Next m (m.enter f args))
    (functions : (m.enter f args).Functions Closure.Written) :
    spelling.Next m (m.enter f args) := by
  have ne : ∀ b ∈ f.params.zip args, b.1 ≠ outputName := by
    intro b mem
    exact written.1.ne_outputName.2 b.1 (List.of_mem_zip mem).1
  have ordered : (m.withScope f.scope).Ordered := h.ordered.withScope (h.sound.lt_size hf)
  have output : (m.withScope f.scope).OutputBound :=
    h.output.withScope f.scope (h.sound.lt_size (.inl rfl))
  exact {
    machine := {
      sound := next.machine
      ordered := (ordered.bindAll (f.params.zip args)).of_parent fun _ => rfl
      functions
      output := (output.bindAll (f.params.zip args) ne).of_same rfl rfl }
    change := next.change }

end Machine.Spelled

theorem spelling_kept : (spelling : Discipline H).Kept where
  refl := .refl
  trans h h' := h.trans h'
  valueLater h hv := ⟨h.holds hv.1, hv.2⟩
  scopeLater h hs := h.alive hs
  plain {m v} hv := by
    refine ⟨upkeep_kept.plain hv, ?_⟩
    intro f hf
    rw [hv] at hf
    cases hf
  found hm hs found := ⟨upkeep_kept.found hm.sound hs found,
    (provenance_kept declares_written).found hm.functions trivial found⟩
  logs _ hm := hm.next_of_same rfl rfl rfl
  outside _ _ hm := hm.next_of_same rfl rfl rfl
  spit {m s name e v} hm hs hx hv := by
    have next : upkeep.Next m { m with store := m.store.bind s name v } :=
      upkeep_kept.spit (e := e) hm.sound hs trivial hv.1
    exact hm.next_of_bind hx.1.ne_outputName next hv.2
  verse {m s name params body} hm hs hx := by
    let counted := { m with store := (m.store.capture name params body s).2 }
    obtain ⟨counts, later⟩ : spelling.Next m counted := hm.next_of_same rfl rfl rfl
    let v := Value.verse (m.store.capture name params body s).1
    have holds : counted.Holds v := by
      intro f hf
      cases hf
      exact later.alive hs
    have written : ∀ f, v.closure? = some f → f.Written := by
      intro f hf
      cases hf
      exact hx
    have next : upkeep.Next counted { counted with store := counted.store.bind s name v } :=
      ⟨counts.sound.bind name (later.alive hs) holds, Machine.extends_bind ..⟩
    have bound := counts.next_of_bind hx.1.ne_outputName.1 next written
    exact ⟨bound.machine, later.trans bound.change⟩
  assign {m s o name e v} hm hs hx hv owner := by
    have next : upkeep.Next m { m with store := m.store.bind o name v } :=
      upkeep_kept.assign (e := e) hm.sound hs trivial hv.1 owner
    exact hm.next_of_bind hx.1.ne_outputName next hv.2
  branch {m s c thenBranch elseBranch} hm hs hx := by
    have spelled : (m.withScope s).Spelled := {
      sound := hm.sound.withScope hs
      ordered := hm.ordered.withScope (hm.sound.lt_size hs)
      functions := hm.functions.withScope
      output := hm.output.withScope s (hm.sound.lt_size (.inl rfl)) }
    exact ⟨⟨spelled, m.extends_withScope s⟩, m.alive_withScope s, declares_written.branch hx⟩
  enter {m f args} hm hf hargs := by
    obtain ⟨next, alive, -⟩ := upkeep_kept.enter hm.sound hf.1 fun v hv => (hargs v hv).1
    obtain ⟨functions, -, body⟩ := (provenance_kept declares_written).enter hm.functions hf.2
      fun v hv => (hargs v hv).2
    exact ⟨hm.enter (hf.1 f rfl) (hf.2 f rfl) next functions.machine, alive, body⟩
  leave {m last} c hm next := by
    let left := { last with calls := last.calls - 1 }
    obtain ⟨spelled, later⟩ : spelling.Next last left := next.machine.next_of_same rfl rfl rfl
    have change : m.Extends (m.leave c last) :=
      hm.sound.extends_collect spelled.sound (next.change.trans later)
    exact ⟨{
      sound := spelled.sound.collect _ _
      ordered := spelled.ordered.collect _ _
      functions := spelled.functions.collect _ _
      output := spelled.output.collect spelled.sound _ _ }, change⟩
  returned {m last c} hm next hc :=
    ⟨upkeep_kept.returned hm.sound ⟨next.machine.sound, next.change⟩ hc.1, hc.2⟩

theorem Machine.spelled_start (host : H) (log : Log) : (start host log).Spelled := by
  have beyond (s : ScopeId) : (start host log).store.scope (s + 1) = .empty :=
    Store.scope_of_le (Nat.succ_le_succ (Nat.zero_le s))
  refine ⟨sound_start host log, ordered_start host log, functions_start host log _, ?_, ?_⟩
  · rfl
  · intro s bound
    cases s with
    | zero => rfl
    | succ s =>
      rw [beyond] at bound
      exact absurd bound (Scope.not_binds_empty outputName)

section Statement

variable [Host H] {limits : Limits} {n : Nat} {es : List Expr} {s : ScopeId} {m : Machine H}
  {h : Halt}

namespace Eval

variable {vs : List Value} {host : H}

theorem routine_flow_of_ok
    (written : Host.write m.host (" ".intercalate (vs.map Value.display)) = (.ok (), host)) :
    routine .flow vs m =
      .ok .null { m with host, log := m.log.add (.builtin outputName vs.length) } := by
  let logged := { m with log := m.log.add (.builtin outputName vs.length) }
  have log : Run.log (.builtin outputName vs.length) m = .ok () logged := rfl
  have write := Run.hostCall_of_ok (m := logged) (f := fun h => Host.write h _) written
  exact (Run.bind_of_ok log).trans (Run.bind_of_ok write)

theorem routine_flow_of_error {reason : String}
    (refused : Host.write m.host (" ".intercalate (vs.map Value.display)) =
      (.error reason, host)) :
    routine .flow vs m = .error (.error (.io reason))
      { m with host, log := m.log.add (.builtin outputName vs.length) } := by
  let logged := { m with log := m.log.add (.builtin outputName vs.length) }
  have log : Run.log (.builtin outputName vs.length) m = .ok () logged := rfl
  have write := Run.hostCall_of_error (m := logged) (f := fun h => Host.write h _) refused
  exact (Run.bind_of_ok log).trans (Run.bind_of_error write)

/-- The output routine fails only where nothing can be written. -/
theorem halt?_routine_flow (failed : (routine .flow vs).halt? m = some h) :
    ∃ reason, (Host.write m.host (" ".intercalate (vs.map Value.display))).1 = .error reason ∧
      h = .error (.io reason) := by
  rcases result : Host.write m.host (" ".intercalate (vs.map Value.display)) with
    ⟨reason | _, host⟩
  · rw [Run.halt?, routine_flow_of_error result] at failed
    cases failed
    exact ⟨reason, rfl, rfl⟩
  · rw [Run.halt?, routine_flow_of_ok result] at failed
    cases failed

end Eval

/-- A call that finds the routine evaluates the arguments and then writes. -/
theorem node_output (limits : Limits) (n : Nat) (es : List Expr)
    (found : m.store.get? s outputName = some (.builtin .flow)) :
    (Task.node (.call outputName es) s).run limits n m =
      ((Task.arguments es s).run limits n >>= Eval.routine .flow) m :=
  Run.bind_of_ok (Run.lookup_of_some found)

/-- What an output statement does that starts on the machine `m` with fuel for `n` levels below its
call: it writes once, after its arguments, and it fails with one of its arguments, for want of a
level or because nothing can be written. -/
structure OutputsOnce (limits : Limits) (n : Nat) (es : List Expr) (s : ScopeId) (m : Machine H) :
    Prop where
  writes : ∀ {vs : List Value} {m' : Machine H} {host : H}, m.levels < limits.levels →
    (Task.arguments es s).run limits n m.descend = .ok vs m' →
    Host.write m'.host (" ".intercalate (vs.map Value.display)) = (.ok (), host) →
    (Task.stmt (.expr (.call outputName es)) s).run limits (n + 1) m = .ok .normal
      { m' with host, levels := m.levels, log := m'.log.add (.builtin outputName vs.length) }
  refused : ∀ {vs : List Value} {m' : Machine H} {reason : String} {host : H},
    m.levels < limits.levels → (Task.arguments es s).run limits n m.descend = .ok vs m' →
    Host.write m'.host (" ".intercalate (vs.map Value.display)) = (.error reason, host) →
    (Task.stmt (.expr (.call outputName es)) s).run limits (n + 1) m = .error (.error (.io reason))
      { m' with host, levels := m.levels, log := m'.log.add (.builtin outputName vs.length) }
  fails : ∀ {h : Halt},
    ((Task.stmt (.expr (.call outputName es)) s).run limits (n + 1)).halt? m = some h →
    (limits.levels ≤ m.levels ∧ h = .error (.stackOverflow limits.levels)) ∨
    (∃ e ∈ es, ∃ m', Moment.Reaches limits ⟨n, .arguments es s, m.descend⟩ ⟨n, .expr e s, m'⟩ ∧
      Moment.halt? limits ⟨n, .expr e s, m'⟩ = some h) ∨
    ∃ vs m' reason, (Task.arguments es s).run limits n m.descend = .ok vs m' ∧
      (Host.write m'.host (" ".intercalate (vs.map Value.display))).1 = .error reason ∧
        h = .error (.io reason)

/-- Arguments fail with one of them. -/
theorem halt?_arguments (failed : Moment.halt? limits ⟨n, .arguments es s, m⟩ = some h) :
    ∃ e ∈ es, ∃ m', Moment.Reaches limits ⟨n, .arguments es s, m⟩ ⟨n, .expr e s, m'⟩ ∧
      Moment.halt? limits ⟨n, .expr e s, m'⟩ = some h := by
  induction es generalizing m with
  | nil => cases failed
  | cons e es ih =>
    change Run.halt? (List.mapM _ (e :: es)) m = some h at failed
    rw [List.mapM_cons] at failed
    rcases Run.halt?_bind failed with first | ⟨a, m', ran, failed⟩
    · exact ⟨e, List.mem_cons_self, m, .single .firstArgument, first⟩
    rcases Run.halt?_bind failed with rest | ⟨_, _, -, none⟩
    · obtain ⟨e', mem, last, reaches, failed⟩ := ih rest
      exact ⟨e', List.mem_cons_of_mem e mem, last, .head (.moreArguments ran) reaches, failed⟩
    · cases none

theorem levels_of_arguments {vs : List Value} {m' : Machine H}
    (ran : (Task.arguments es s).run limits n m.descend = .ok vs m') :
    m'.levels - 1 = m.levels := by
  have levels : m'.levels = m.levels + 1 := ((Moment.balanced_task limits n _).of_ok ran).2
  omega

/-- An output statement that finds the routine. -/
theorem outputsOnce (found : m.store.get? s outputName = some (.builtin .flow)) :
    OutputsOnce limits n es s m := by
  have called := node_output (m := m.descend) limits n es found
  constructor
  · intro vs m' host room ran written
    have ended := called.trans ((Run.bind_of_ok ran).trans (Eval.routine_flow_of_ok written))
    have evaluated := (Run.deeper_of_lt room).trans (Run.ensuring_of_ok ended)
    rw [← levels_of_arguments ran]
    exact Run.bind_of_ok evaluated
  · intro vs m' reason host room ran refused
    have ended := called.trans ((Run.bind_of_ok ran).trans (Eval.routine_flow_of_error refused))
    have evaluated := (Run.deeper_of_lt room).trans (Run.ensuring_of_error ended)
    rw [← levels_of_arguments ran]
    exact Run.bind_of_error evaluated
  · intro h failed
    -- The statement is nothing but its call, which is on a level of its own.
    rcases Run.halt?_bind failed with failed | ⟨_, _, -, none⟩
    · rcases Moment.halt?_deeper failed with full | ⟨-, failed⟩
      · exact .inl full
      have failed : ((Task.node (.call outputName es) s).run limits n).halt? m.descend = some h :=
        failed
      rw [Run.halt?, called] at failed
      rcases Run.halt?_bind failed with arguments | ⟨vs, m', ran, failed⟩
      · exact .inr (.inl (halt?_arguments arguments))
      · obtain ⟨reason, refused, same⟩ := Eval.halt?_routine_flow failed
        exact .inr (.inr ⟨vs, m', reason, ran, refused, same⟩)
    · cases none

end Statement

variable [Host H]

/-- What is opened as a level has been taken from the fuel. -/
theorem Moment.Reaches.fuel {limits : Limits} {p q : Moment H} (h : p.Reaches limits q) :
    q.fuel + q.machine.levels = p.fuel + p.machine.levels := by
  induction h with
  | refl => rfl
  | tail _ calls ih =>
    have spent := calls.fuel
    have opened := calls.counters.2
    omega

namespace Program

variable {limits : Limits} {p : Program} {m : Machine H} {a : Moment H}

/-- No task of a program starts without fuel. -/
theorem Comes.exists_fuel (h : p.Comes limits m a) (levels : m.levels = 0) :
    ∃ n, a.fuel = n + 1 := by
  obtain ⟨first, starts, reaches⟩ := h
  have start : first.fuel = limits.levels + 1 ∧ first.machine.levels = 0 := by
    cases starts with
    | statements => exact ⟨rfl, levels⟩
    | entry ran _ => exact ⟨rfl, ((Moment.balanced_task limits _ _).of_ok ran).2.trans levels⟩
  have fuel := reaches.fuel
  have bounded := reaches.counters_le.2
  exact ⟨a.fuel - 1, by omega⟩

theorem Comes.spelled (h : p.Comes limits m a) (spelled : m.Spelled)
    (written : ∀ x ∈ p, x.Written) : spelling.Allows a := by
  obtain ⟨first, starts, reaches⟩ := h
  have allowed := (spelling_kept.starts starts spelled (.inl rfl) written).1
  exact (spelling_kept.reaches reaches allowed).1

end Program

namespace Session

variable {ps : List Program}

theorem spelled_after (limits : Limits) (host : H)
    (parsed : ∀ p ∈ ps, ∃ source, Program.parse source = .ok p) :
    ((start limits host).after ps).machine.Spelled := by
  refine (after_induction_of_mem ?_ (Machine.spelled_start host {})).1
  intro p mem m spelled
  obtain ⟨source, h⟩ := parsed p mem
  exact (spelling_kept.exec limits spelled (.inl rfl) (Program.written_of_parse h)).machine

/-- After any programs that were read from texts, and whenever a task of another one begins or ends,
the name of the output routine is bound to it in the global scope and nowhere else. So every output
statement that is executed writes once, and it fails only with an argument, for want of a level or
because nothing can be written. -/
theorem output_protected (limits : Limits) (host : H)
    (parsed : ∀ p ∈ ps, ∃ source, Program.parse source = .ok p) :
    let m := ((start limits host).after ps).machine
    m.OutputBound ∧ ∀ source p, Program.parse source = .ok p → ∀ a, p.Comes limits m a →
      a.machine.OutputBound ∧ (a.final limits).OutputBound ∧
        ∀ es s, a.task = .stmt (.expr (.call outputName es)) s →
          ∃ n, a.fuel = n + 1 ∧ OutputsOnce limits n es s a.machine := by
  intro m
  have spelled : m.Spelled := spelled_after limits host parsed
  refine ⟨spelled.output, ?_⟩
  intro source p h a comes
  have allowed := comes.spelled spelled (Program.written_of_parse h)
  refine ⟨allowed.1.output, (spelling_kept.final limits allowed).machine.output, ?_⟩
  intro es s task
  obtain ⟨n, fuel⟩ := comes.exists_fuel (counters_after limits host ps).2
  have permitted := allowed.2
  rw [task] at permitted
  have found := allowed.1.output.get? allowed.1.sound allowed.1.ordered permitted.1
  exact ⟨n, fuel, outputsOnce found⟩

/-- An output statement whose argument calls a function of an earlier program. -/
theorem output_protected_call :
    let limits : Limits := ⟨2, 8⟩
    let earlier : Program := [.verse "f" ["x"] [.expr (.call outputName [.identifier "x"])]]
    let es : List Expr := [.call "f" [.literal (.int 2)], .literal (.text "a")]
    let p : Program := [.expr (.call outputName es)]
    let m := ((start limits ({} : Console)).after [earlier]).machine
    let a : Moment Console := ⟨8, .stmt (.expr (.call outputName es)) m.globals,
      Machine.descend { m with log := m.log.add (.executing p.length) }⟩
    Program.parse "verse f(x) \x7b flow x \x7d" = .ok earlier ∧
      Program.parse "flow f(2), 'a'" = .ok p ∧ p.Comes limits m a ∧ m.OutputBound ∧
        OutputsOnce limits 7 es m.globals a.machine := by
  intro limits earlier es p m a
  have first : Program.parse "verse f(x) \x7b flow x \x7d" = .ok earlier := by cbv
  have second : Program.parse "flow f(2), 'a'" = .ok p := by cbv
  have parsed : ∀ q ∈ [earlier], ∃ source, Program.parse source = .ok q :=
    List.forall_mem_singleton.2 ⟨_, first⟩
  have room : m.levels < limits.levels := by
    rw [(counters_after limits ({} : Console) [earlier]).2]
    decide
  have comes : p.Comes limits m a :=
    ⟨_, .statements, .head (.blockLevel room) (.single .first)⟩
  obtain ⟨bound, runs⟩ := output_protected limits ({} : Console) parsed
  obtain ⟨-, -, outputs⟩ := runs _ p second a comes
  obtain ⟨n, fuel, once⟩ := outputs es m.globals rfl
  cases fuel
  exact ⟨first, second, comes, bound, once⟩

end Session

end CypherLang
