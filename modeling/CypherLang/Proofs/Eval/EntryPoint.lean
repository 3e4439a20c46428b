import CypherLang.Proofs.Eval.Batches
import CypherLang.Proofs.Eval.Output

namespace CypherLang

variable {H : Type}

open Token (IsName)

/-- The statement is a `cypher` block. -/
def Stmt.isEntry : Stmt → Bool
  | verse name params _ => isCypherBlock name params
  | _ => false

theorem Token.IsName.ne_entryName {name : String} (h : IsName name) : name ≠ entryName := by
  intro same
  subst same
  exact absurd h.2 (by decide)

/-- Only a `cypher` block declares a function with the name of the entry point. -/
theorem Stmt.Written.ne_entryName {name : String} {params : List String} {body : List Stmt}
    (h : (Stmt.verse name params body).Written)
    (other : (Stmt.verse name params body).isEntry = false) : name ≠ entryName := by
  rcases h.1 with cypher | ⟨isName, -⟩
  · exact absurd (cypher.symm.trans other) (by decide)
  · exact isName.ne_entryName

namespace Machine

variable {m : Machine H} {s : ScopeId} {name : String} {v : Value}

/-- What the global scope binds the name of the entry point to. -/
def entryPoint (m : Machine H) : Option Value := (m.store.scope m.globals).get? entryName

theorem entryPoint_bind_of_ne (h : s ≠ m.globals ∨ name ≠ entryName) :
    entryPoint { m with store := m.store.bind s name v } = m.entryPoint := by
  change ((m.store.bind s name v).scope m.globals).get? entryName = _
  rcases h with elsewhere | other
  · rw [Store.scope_bind_of_ne elsewhere.symm]
    rfl
  · rw [Store.scope_bind]
    split
    · rw [Scope.get?_bind, if_neg other.symm]
      rfl
    · rfl

theorem entryPoint_withScope (made : m.globals < m.store.scopes.size) :
    (m.withScope s).entryPoint = m.entryPoint := by
  change ((m.store.newChild s).2.scope m.globals).get? entryName = _
  rw [Store.scope_newChild_of_lt made]
  rfl

theorem entryPoint_enter {f : Closure} {args : List Value}
    (made : m.globals < m.store.scopes.size) :
    (m.enter f args).entryPoint = m.entryPoint := by
  have old : m.globals ≠ m.store.scopes.size := Nat.ne_of_lt made
  refine (congrArg (Scope.get? · entryName) (Store.scope_bindAll_of_ne _ old)).trans ?_
  exact entryPoint_withScope made

theorem entryPoint_collect (sound : m.Sound) (mark : Nat) (held : Option Closure) :
    (m.collect mark held).entryPoint = m.entryPoint := by
  change ((m.collect mark held).store.scope m.globals).get? entryName = _
  rw [scope_collect, if_neg sound.globals_not_mem_released]
  rfl

/-- From the global scope the name of the entry point leads to no other scope. -/
theorem Sound.get?_entryName (sound : m.Sound) :
    m.store.get? m.globals entryName = m.entryPoint := by
  unfold Store.get? Store.owner?
  by_cases bound : (m.store.scope m.globals).binds entryName
  · rw [if_pos bound]
    rfl
  · rw [if_neg bound, sound.root]
    exact (Option.not_isSome_iff_eq_none.1 bound).symm

end Machine

/-- Statements that texts can spell, without `cypher` blocks in the global scope: the entry point
stays what it is. -/
def steady : Discipline H where
  machine := Machine.Spelled
  change m m' := m.Extends m' ∧ m'.entryPoint = m.entryPoint
  value := spelling.value
  scope := Machine.Alive
  stmt x s := x.Written ∧ (s = 0 → x.isEntry = false)

theorem steady_next {m m' : Machine H} (next : spelling.Next m m')
    (same : m'.entryPoint = m.entryPoint) :
    steady.Next m m' := ⟨next.machine, next.change, same⟩

theorem steady_kept : (steady : Discipline H).Kept where
  refl m := ⟨.refl m, rfl⟩
  trans h h' := ⟨h.1.trans h'.1, h'.2.trans h.2⟩
  valueLater h hv := spelling_kept.valueLater h.1 hv
  scopeLater h hs := spelling_kept.scopeLater h.1 hs
  plain hv := spelling_kept.plain hv
  found hm hs found := spelling_kept.found hm hs found
  logs e hm := steady_next (spelling_kept.logs e hm) rfl
  outside host levels hm := steady_next (spelling_kept.outside host levels hm) rfl
  spit {m s name e v} hm hs hx hv := by
    have other : name ≠ entryName := IsName.ne_entryName hx.1.1
    exact steady_next (spelling_kept.spit hm hs hx.1 hv)
      (Machine.entryPoint_bind_of_ne (.inr other))
  verse {m s name params body} hm hs hx := by
    let counted := { m with store := (m.store.capture name params body s).2 }
    have apart : s ≠ counted.globals ∨ name ≠ entryName := by
      by_cases top : s = 0
      · exact .inr (hx.1.ne_entryName (hx.2 top))
      · exact .inl fun same => top (same.trans hm.sound.globals)
    exact steady_next (spelling_kept.verse hm hs hx.1) (Machine.entryPoint_bind_of_ne apart)
  assign {m s o name e v} hm hs hx hv owner := by
    have other : name ≠ entryName := IsName.ne_entryName hx.1.1
    have next := spelling_kept.assign (e := e) hm hs hx.1 hv owner
    exact steady_next next (Machine.entryPoint_bind_of_ne (.inr other))
  branch {m s c thenBranch elseBranch} hm hs hx := by
    obtain ⟨next, alive, first, second⟩ := spelling_kept.branch hm hs hx.1
    have inner : m.store.scopes.size = 0 → ∀ x : Stmt, x.isEntry = false := fun none =>
      absurd none (Nat.ne_of_gt hm.sound.made)
    exact ⟨steady_next next (Machine.entryPoint_withScope (hm.sound.lt_size (.inl rfl))), alive,
      fun x hx => ⟨first x hx, fun none => inner none x⟩,
      fun body hb x hx => ⟨second body hb x hx, fun none => inner none x⟩⟩
  enter {m f args} hm hf hargs := by
    obtain ⟨next, alive, body⟩ := spelling_kept.enter hm hf hargs
    exact ⟨steady_next next (Machine.entryPoint_enter (hm.sound.lt_size (.inl rfl))), alive,
      fun x hx => ⟨body x hx, fun none => absurd none (Nat.ne_of_gt hm.sound.made)⟩⟩
  leave {m last} c hm next := by
    have left := spelling_kept.leave c hm ⟨next.machine, next.change.1⟩
    let ended := { last with calls := last.calls - 1 }
    obtain ⟨sound, -⟩ : ended.Sound ∧ last.Extends ended :=
      next.machine.sound.of_same rfl rfl rfl
    exact steady_next left ((Machine.entryPoint_collect sound _ _).trans next.change.2)
  returned hm next hc := spelling_kept.returned hm ⟨next.machine, next.change.1⟩ hc

/-- The task executes a `cypher` block in the scope itself, and not only in scopes inside it. -/
def Task.MakesEntry (globals : ScopeId) : Task → Prop
  | .block body s | .stmts body s => s = globals ∧ ∃ x ∈ body, x.isEntry
  | .stmt x s => s = globals ∧ x.isEntry
  | _ => False

theorem steady_of_spelling {globals : ScopeId} (top : globals = 0) {a : Moment H}
    (allowed : spelling.Allows a) (other : ¬ a.task.MakesEntry globals) : steady.Allows a := by
  obtain ⟨n, t, m⟩ := a
  obtain ⟨hm, permitted⟩ := allowed
  subst top
  have plain {body : List Stmt} {s : ScopeId} (h : ¬ (s = 0 ∧ ∃ x ∈ body, x.isEntry)) :
      ∀ x ∈ body, s = 0 → x.isEntry = false := by
    intro x hx same
    exact Bool.eq_false_iff.2 fun entry => h ⟨same, x, hx, entry⟩
  refine ⟨hm, ?_⟩
  cases t with
  | block | stmts =>
    exact ⟨permitted.1, fun x hx => ⟨permitted.2 x hx, plain other x hx⟩⟩
  | stmt x s =>
    exact ⟨permitted.1, permitted.2,
      fun same => Bool.eq_false_iff.2 fun entry => other ⟨same, entry⟩⟩
  | activation => exact permitted
  | _ => exact permitted

/-- The function that a `cypher` block makes when it is executed in the scope. -/
def Stmt.entryMade (x : Stmt) (s : ScopeId) (m : Machine H) : Option Closure :=
  match x with
  | .verse name params body =>
    if isCypherBlock name params then some (m.store.capture name params body s).1 else none
  | _ => none

/-- The functions that `cypher` blocks among the statements make, in the order in which they are
executed: no statement is executed after one that fails or returns. -/
def Eval.entries (below : Evaluator H) (s : ScopeId) : List Stmt → Machine H → List Closure
  | [], _ => []
  | x :: xs, m => (x.entryMade s m).toList ++
      match Eval.stmt below x s m with
      | .ok .normal m' => entries below s xs m'
      | _ => []

/-- The functions that the top-level `cypher` blocks of a program make when it is run. -/
def Program.entries [Host H] (limits : Limits) (p : Program) (m : Machine H) : List Closure :=
  if m.levels < limits.levels then
    Eval.entries (evaluator limits limits.levels) m.globals p
      (Machine.descend { m with log := m.log.add (.executing p.length) })
  else []

/-- The functions that the top-level `cypher` blocks of programs make that are run one after the
other. -/
def Session.entries [Host H] (s : Session H) : List Program → List Closure
  | [] => []
  | p :: ps => p.entries s.limits s.machine ++ (s.run p).2.entries ps

/-- The last function made, and if there is none what was bound before. -/
def latest (made : List Closure) (before : Option Value) : Option Value :=
  (made.getLast?.map .verse).or before

theorem latest_append (made more : List Closure) (before : Option Value) :
    latest (made ++ more) before = latest more (latest made before) := by
  unfold latest
  rw [List.getLast?_append]
  cases more.getLast? <;> rfl

section Statements

variable [Host H] {limits : Limits} {n : Nat} {m : Machine H}

/-- A statement in the global scope binds the entry point if it is a `cypher` block. -/
theorem final_stmt_entryPoint {x : Stmt} (spelled : m.Spelled) (written : x.Written) :
    ((Eval.stmt (evaluator limits n) x m.globals).final m).entryPoint =
      latest (x.entryMade m.globals m).toList m.entryPoint := by
  by_cases entry : x.isEntry
  · obtain ⟨params, body, rfl⟩ : ∃ params body, x = .verse entryName params body := by
      cases x with
      | verse name params body =>
        simp only [Stmt.isEntry, isCypherBlock, Bool.and_eq_true, beq_iff_eq] at entry
        exact ⟨params, body, by rw [entry.1]⟩
      | _ => cases entry
    have made : (Stmt.verse entryName params body).entryMade m.globals m =
        some (m.store.capture entryName params body m.globals).1 := if_pos entry
    rw [made]
    have size : m.globals < m.store.scopes.size := spelled.sound.lt_size (.inl rfl)
    change ((Store.bind _ m.globals entryName _).scope m.globals).get? entryName = _
    rw [Store.scope_bind, if_pos ⟨rfl, size⟩, Scope.get?_bind, if_pos rfl]
    rfl
  · have none : x.entryMade m.globals m = none := by
      cases x with
      | verse name params body => exact if_neg entry
      | _ => rfl
    rw [none]
    have plain : x.isEntry = false := Bool.eq_false_iff.2 entry
    have permitted : steady.Permits m (.stmt x m.globals) := ⟨.inl rfl, written, fun _ => plain⟩
    exact (steady_kept.task limits n (.stmt x m.globals) spelled permitted).1.change.2

/-- After statements in the global scope the entry point is that of the last `cypher` block that was
executed. -/
theorem final_stmts_entryPoint {body : List Stmt} (spelled : m.Spelled)
    (written : ∀ x ∈ body, x.Written) :
    ((Eval.stmts (evaluator limits n) m.globals body).final m).entryPoint =
      latest (Eval.entries (evaluator limits n) m.globals body m) m.entryPoint := by
  induction body generalizing m with
  | nil => rfl
  | cons x xs ih =>
    obtain ⟨hx, hxs⟩ := List.forall_mem_cons.1 written
    have first := @final_stmt_entryPoint _ _ limits n m x spelled hx
    have next := (spelling_kept.task limits n (.stmt x m.globals) spelled ⟨.inl rfl, hx⟩).1
    change spelling.Next m ((Eval.stmt (evaluator limits n) x m.globals).final m) at next
    unfold Eval.entries
    rw [latest_append, ← first]
    change ((Eval.stmt (evaluator limits n) x m.globals >>= _).final m).entryPoint = _
    cases run : Eval.stmt (evaluator limits n) x m.globals m with
    | error e m' => rw [Run.final_of_error (Run.bind_of_error run), Run.final_of_error run]; rfl
    | ok c m' =>
      rw [Run.final_bind_of_ok run, Run.final_of_ok run]
      cases c with
      | returned v => rfl
      | normal =>
        rw [Run.final_of_ok run] at next
        rw [← next.change.globals]
        exact ih next.machine hxs

theorem final_block_entryPoint {p : Program} (spelled : m.Spelled) (written : ∀ x ∈ p, x.Written) :
    (((Task.block p m.globals).run limits (limits.levels + 1)).final
      { m with log := m.log.add (.executing p.length) }).entryPoint =
        latest (p.entries limits m) m.entryPoint := by
  let logged := { m with log := m.log.add (.executing p.length) }
  have opened : spelling.Next m logged.descend := spelled.next_of_same rfl rfl rfl
  change ((Run.deeper limits (Eval.stmts _ m.globals p)).final logged).entryPoint = _
  unfold Program.entries
  by_cases room : m.levels < limits.levels
  · have inside : logged.levels < limits.levels := room
    rw [if_pos room, Run.final_deeper inside]
    exact final_stmts_entryPoint opened.machine written
  · have full : limits.levels ≤ logged.levels := Nat.not_lt.1 room
    rw [if_neg room, Run.final_of_error (Run.deeper_of_le full)]
    rfl

/-- After a program the entry point is that of its last top-level `cypher` block, and the one from
before if it has executed none. -/
theorem final_exec_entryPoint {p : Program} (spelled : m.Spelled) (written : ∀ x ∈ p, x.Written) :
    ((p.exec limits).final m).entryPoint = latest (p.entries limits m) m.entryPoint := by
  let logged := { m with log := m.log.add (.executing p.length) }
  let block : Run H Completion := (Task.block p m.globals).run limits (limits.levels + 1)
  have begun : spelling.Next m logged := spelled.next_of_same rfl rfl rfl
  have keeps : spelling.Keeps logged block spelling.completion :=
    spelling_kept.task limits (limits.levels + 1) (.block p m.globals) begun.machine
      ⟨.inl rfl, written⟩
  have whole : (p.exec limits).final m =
      (block >>= Program.finish limits m.globals).final logged := by
    unfold Run.final
    rw [Program.exec_apply p rfl]
    rfl
  have finish : steady.Next (block.final logged) ((p.exec limits).final m) := by
    rw [whole]
    refine steady_kept.final_bind keeps.1.machine fun c m' ran => ?_
    obtain ⟨next, hc⟩ := keeps.of_ok ran
    exact (steady_kept.finish limits c next.machine (next.change.alive (.inl rfl)) hc).1
  rw [finish.change.2]
  exact final_block_entryPoint spelled written

end Statements

variable [Host H]

/-- The value that a call returns, if it does not come to the end of the body. -/
def Completion.returned? : Completion → Option Value
  | normal => none
  | returned v => some v

theorem Program.finish_of_entry {limits : Limits} {globals : ScopeId} {m : Machine H} {f : Closure}
    (bound : m.store.get? globals entryName = some (.verse f)) :
    finish limits globals .normal m =
      ((Task.activation f []).run limits (limits.levels + 1) >>= fun c => pure c.returned?)
        { m with log := m.log.add .dispatching } := by
  have looks : Run.find globals entryName m = .ok (some (.verse f)) m := by
    rw [← bound]
    rfl
  refine (Run.bind_of_ok looks).trans ?_
  let call : Run H Completion := (Task.activation f []).run limits (limits.levels + 1)
  refine congrArg (fun g => (call >>= g) { m with log := m.log.add .dispatching }) (funext ?_)
  intro c
  cases c <;> rfl

namespace Session

variable {ps : List Program}

theorem entries_append (s : Session H) (ps qs : List Program) :
    s.entries (ps ++ qs) = s.entries ps ++ (s.after ps).entries qs := by
  induction ps generalizing s with
  | nil => rfl
  | cons p ps ih =>
    change _ ++ (s.run p).2.entries (ps ++ qs) = _
    rw [ih, ← List.append_assoc]
    rfl

/-- After programs that were read from texts the entry point is that of the last top-level `cypher`
block that was executed in any of them. -/
theorem entryPoint_after {s : Session H} (spelled : s.machine.Spelled)
    (written : ∀ p ∈ ps, ∀ x ∈ p, x.Written) :
    (s.after ps).machine.entryPoint = latest (s.entries ps) s.machine.entryPoint := by
  induction ps generalizing s with
  | nil => rfl
  | cons p ps ih =>
    obtain ⟨hp, hps⟩ := List.forall_mem_cons.1 written
    have next := spelling_kept.exec s.limits spelled (.inl rfl) hp
    have last := @final_exec_entryPoint _ _ s.limits s.machine p spelled hp
    rw [← machine_run] at next last
    change ((s.run p).2.after ps).machine.entryPoint = latest (_ ++ _) _
    rw [ih next.machine hps, last, latest_append]

end Session

/-- How a program goes on after its statements, where `made` are the functions of the top-level
`cypher` blocks that have been executed so far. -/
structure Program.Dispatches (limits : Limits) (made : List Closure) (p : Program) (m : Machine H) :
    Prop where
  /-- After a normal end it calls the last one of them once and without arguments. -/
  entry : ∀ {f : Closure} {m' : Machine H}, made.getLast? = some f →
    (Task.block p m.globals).run limits (limits.levels + 1)
      { m with log := m.log.add (.executing p.length) } = .ok .normal m' →
    p.exec limits m =
      ((Task.activation f []).run limits (limits.levels + 1) >>= fun c => pure c.returned?)
        { m' with log := m'.log.add .dispatching }
  /-- If there is none, then it does nothing more. -/
  noEntry : ∀ {m' : Machine H}, made = [] →
    (Task.block p m.globals).run limits (limits.levels + 1)
      { m with log := m.log.add (.executing p.length) } = .ok .normal m' →
    p.exec limits m = .ok none { m' with log := m'.log.add .noEntryPoint }
  returned : ∀ {v : Value} {m' : Machine H},
    (Task.block p m.globals).run limits (limits.levels + 1)
      { m with log := m.log.add (.executing p.length) } = .ok (.returned v) m' →
    p.exec limits m = .ok (some v) { m' with log := m'.log.add .topLevelReturn }
  fails : ∀ {h : Halt} {m' : Machine H},
    (Task.block p m.globals).run limits (limits.levels + 1)
      { m with log := m.log.add (.executing p.length) } = .error h m' →
    p.exec limits m = .error h m'

theorem Program.dispatches {limits : Limits} {made : List Closure} {p : Program} {m : Machine H}
    (spelled : m.Spelled) (written : ∀ x ∈ p, x.Written)
    (bound : latest (p.entries limits m) m.entryPoint = latest made none) :
    p.Dispatches limits made m := by
  let logged := { m with log := m.log.add (.executing p.length) }
  have begun : spelling.Next m logged := spelled.next_of_same rfl rfl rfl
  have block := spelling_kept.task limits (limits.levels + 1) (.block p m.globals) begun.machine
    ⟨.inl rfl, written⟩
  have exec : p.exec limits m = _ := exec_apply p rfl
  -- What the program finds under the name of the entry point once its statements have ended.
  have found {c : Completion} {m' : Machine H}
      (ran : (Task.block p m.globals).run limits (limits.levels + 1) logged = .ok c m') :
      m'.store.get? m.globals entryName = made.getLast?.map .verse := by
    obtain ⟨next, -⟩ := block.of_ok ran
    have same : m'.globals = m.globals := next.change.globals
    have last := @final_block_entryPoint _ _ limits m p spelled written
    rw [Run.final_of_ok ran, bound] at last
    rw [← same, next.machine.sound.get?_entryName, last]
    exact Option.or_none
  constructor
  · intro f m' last ran
    have bound := found ran
    rw [last] at bound
    exact exec.trans ((Run.bind_of_ok ran).trans (finish_of_entry bound))
  · intro m' none ran
    refine exec.trans ((Run.bind_of_ok ran).trans (finish_of_noEntry ?_))
    intro f bound
    rw [found ran, none] at bound
    cases bound
  · intro v m' ran
    exact exec.trans (Run.bind_of_ok ran)
  · intro h m' ran
    exact exec.trans (Run.bind_of_error ran)

namespace Session

/-- A program that was read from a text calls after its statements the function of the top-level
`cypher` block that was executed last, in this program or in one before it, and no function if
there is none, if one of its statements returns or if one fails. Nothing but a top-level `cypher`
block changes which function that is. -/
theorem entry_dispatched (limits : Limits) (host : H) {source : String} {p : Program}
    (earlier : ∀ q ∈ ps, ∃ source, Program.parse source = .ok q)
    (parsed : Program.parse source = .ok p) :
    let s := start limits host
    let m := (s.after ps).machine
    p.Dispatches limits (s.entries (ps ++ [p])) m ∧
      ∀ a, p.Comes limits m a → ¬ a.task.MakesEntry m.globals →
        (a.final limits).entryPoint = a.machine.entryPoint := by
  intro s m
  have spelled : m.Spelled := spelled_after limits host earlier
  have written := Program.written_of_parse parsed
  refine ⟨Program.dispatches spelled written ?_, ?_⟩
  · have before : m.entryPoint = latest (s.entries ps) none := by
      refine entryPoint_after (Machine.spelled_start host {}) ?_
      intro q mem
      obtain ⟨source, h⟩ := earlier q mem
      exact Program.written_of_parse h
    have same : (s.after ps).limits = limits :=
      (after_induction (P := fun _ => True) (fun _ _ h => h) trivial ps).2
    have last : (s.after ps).entries [p] = p.entries limits m := by
      rw [← same]
      exact List.append_nil _
    rw [before, entries_append, latest_append, last]
  · intro a comes other
    have allowed := comes.spelled spelled written
    have allowed := steady_of_spelling spelled.sound.globals allowed other
    exact (steady_kept.final limits allowed).change.2

/-- The second program executes `cypher` blocks in a function and in a branch, and still calls the
function of the block in the first one. -/
theorem entry_dispatched_nested :
    let limits : Limits := ⟨3, 16⟩
    let s := start limits ({} : Console)
    let block (n : Int64) : Stmt := .verse entryName [] [.ret (some (.literal (.int n)))]
    let first : Program := [block 1, .verse "f" [] [block 2]]
    let p : Program := [.expr (.call "f" []), .battle (.literal (.bool true)) [block 3] none]
    let m := (s.after [first]).machine
    let f : Closure := ⟨0, entryName, [], [.ret (some (.literal (.int 1)))], 0⟩
    Program.parse "cypher \x7b return 1 \x7d verse f() \x7b cypher \x7b return 2 \x7d \x7d" =
        .ok first ∧
      Program.parse "f() battle (true) \x7b cypher \x7b return 3 \x7d \x7d" = .ok p ∧
      ∃ m', (Task.block p m.globals).run limits (limits.levels + 1)
          { m with log := m.log.add (.executing p.length) } = .ok .normal m' ∧
        p.exec limits m =
          ((Task.activation f []).run limits (limits.levels + 1) >>= fun c => pure c.returned?)
            { m' with log := m'.log.add .dispatching } ∧
        ((s.after [first]).run p).1 = .ok (some (.int 1)) := by
  intro limits s block first p m f
  have earlier : Program.parse
      "cypher \x7b return 1 \x7d verse f() \x7b cypher \x7b return 2 \x7d \x7d" =
        .ok first := by cbv
  have parsed : Program.parse "f() battle (true) \x7b cypher \x7b return 3 \x7d \x7d" = .ok p := by
    cbv
  let logged : Machine Console := { m with log := m.log.add (.executing p.length) }
  have ran : (evaluator limits (limits.levels + 1)).block p m.globals logged = .ok .normal
      (((evaluator limits (limits.levels + 1)).block p m.globals).final logged) := by
    dsimp only [logged, m, p, first, block, s, limits]
    cbv
  have last : (s.entries ([first] ++ [p])).getLast? = some f := by cbv
  obtain ⟨dispatches, -⟩ :=
    entry_dispatched limits ({} : Console) (List.forall_mem_singleton.2 ⟨_, earlier⟩) parsed
  exact ⟨earlier, parsed, _, ran, dispatches.entry last ran, by cbv⟩

end Session

end CypherLang
