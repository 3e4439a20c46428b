import CypherLang.Proofs.Eval.Points

namespace CypherLang

variable {H : Type}

namespace Machine

variable {m : Machine H} {s : ScopeId}

/-- Nothing is left of the scope: it binds nothing, stands inside no other, is not tracked, and
nothing refers to it. -/
structure Severed (m : Machine H) (s : ScopeId) : Prop where
  cleared : m.store.scope s = .empty
  untracked : s ∉ m.tracked.toList
  unreferenced : ∀ o, s ∉ (m.store.scope o).refs

/-- Each scope but the global one is tracked exactly once, or nothing is left of it. -/
structure Accounted (m : Machine H) : Prop where
  scope : ∀ s < m.store.scopes.size, s ≠ m.globals → m.tracked.toList.count s = 1 ∨ m.Severed s
  tracked : ∀ s ∈ m.tracked.toList, s < m.store.scopes.size ∧ s ≠ m.globals

namespace Sound

theorem count_tracked (h : m.Sound) (inside : (m.store.scope s).parent.isSome) :
    m.tracked.toList.count s = 1 :=
  List.count_eq_one_of_mem h.nodup_tracked (h.mem_tracked.2 inside)

theorem severed (h : m.Sound) (dead : ¬ m.Alive s) : m.Severed s where
  cleared := h.emptied s dead
  untracked mem := dead (.inr (h.mem_tracked.1 mem))
  unreferenced o refs := dead (h.refs o s refs)

theorem accounted (h : m.Sound) : m.Accounted := by
  constructor
  · intro s _ other
    by_cases inside : (m.store.scope s).parent.isSome
    · exact .inl (h.count_tracked inside)
    · refine .inr (h.severed ?_)
      rintro (rfl | alive)
      · exact other rfl
      · exact inside alive
  · intro s mem
    have inside := h.mem_tracked.1 mem
    refine ⟨lt_size_of_parent inside, ?_⟩
    rintro rfl
    rw [h.root] at inside
    cases inside

/-- Closing empties the tracked scopes and the global one, and all others have been emptied
before. -/
theorem scope_shutdown (h : m.Sound) (s : ScopeId) : m.shutdown.store.scope s = .empty := by
  change ((m.store.resetAll m.tracked.toList).reset m.globals).scope s = .empty
  rw [Store.scope_reset, Store.scope_resetAll]
  split
  · rfl
  split
  · rfl
  rename_i other untracked
  refine h.emptied s ?_
  rintro (rfl | inside)
  · exact other rfl
  · exact untracked (h.mem_tracked.2 inside)

end Sound

end Machine

variable [Host H]

/-- How a call ends after its body: it releases the scopes that have been tracked since its start,
and leaves those tracked before in their places. -/
structure Moment.Releases (limits : Limits) (call body : Moment H) : Prop where
  mark : call.machine.tracked.size ≤ (body.final limits).tracked.size
  release : ∃ held, call.final limits = Machine.collect call.machine.tracked.size held
    { body.final limits with calls := (body.final limits).calls - 1 }
  older : call.machine.tracked.toList <+: (call.final limits).tracked.toList

theorem Moment.releases {limits : Limits} {f : Closure} {args : List Value} {a b : Moment H}
    (allowed : upkeep.Allows a) (task : a.task = .activation f args) (calls : a.Calls limits b) :
    a.Releases limits b := by
  have ended := upkeep_kept.final limits allowed
  obtain ⟨permitted, change⟩ := upkeep_kept.calls calls allowed
  have body := upkeep_kept.final limits permitted
  cases calls with
  | body room =>
    have grown := (change.tracked.trans body.change.tracked).length_le
    have next := upkeep_kept.after ⟨permitted.1, change⟩ body
    refine ⟨by simpa using grown, ?_, ended.change.tracked⟩
    exact Discipline.Kept.ends_body (R := fun last left => ∃ held, left = Machine.collect _ held
      { last with calls := last.calls - 1 }) (fun c _ => ⟨_, rfl⟩) room next
  | _ => cases task

namespace Session

variable {s : Session H} {p : Program} {v : Value}

/-- Later programs only add to what there is, so what is in use stays tracked. -/
theorem extends_after (sound : s.machine.Sound) (ps : List Program) :
    (s.after ps).machine.Sound ∧ s.machine.Extends (s.after ps).machine := by
  refine (after_induction (P := fun m => m.Sound ∧ s.machine.Extends m) ?_ ⟨sound, .refl _⟩ ps).1
  rintro p m ⟨sound, earlier⟩
  have next := upkeep_kept.exec s.limits sound (.inl rfl) (p := p) fun _ _ => trivial
  exact ⟨next.machine, earlier.trans next.change⟩

/-- A function that a program returns was declared in a scope that has not been emptied. -/
theorem holds_run (sound : s.machine.Sound) (returned : (s.run p).1 = .ok (some v)) :
    (s.run p).2.machine.Holds v := by
  have keeps := upkeep_kept.program s.limits sound (.inl rfl) (p := p) fun _ _ => trivial
  cases ran : p.exec s.limits s.machine with
  | ok r last =>
    simp only [run, ran, Except.ok.injEq] at returned ⊢
    exact (keeps.of_ok ran).2 v returned
  | error e last =>
    exfalso
    cases e <;> simp [run, ran] at returned

/-- Whatever programs are run and whatever becomes of them, at the beginning and at the end of every
task each scope but the global one is tracked exactly once or nothing is left of it, and every call
finds the scopes that were tracked when it began. So closing the session empties all scopes, and a
function that one of the programs has returned keeps its scope until then, but no longer. -/
theorem scopes_severed (limits : Limits) (host : H) (ps : List Program) :
    let s := (start limits host).after ps
    s.machine.Accounted ∧
      (∀ (p : Program) (a : Moment H), p.Comes limits s.machine a →
        a.machine.Accounted ∧ (a.final limits).Accounted ∧
          ∀ (f : Closure) (args : List Value) (b : Moment H), a.task = .activation f args →
            a.Calls limits b → a.Releases limits b) ∧
      (∀ o, s.close.machine.store.scope o = .empty) ∧
      ∀ (p : Program) (v : Value) (f : Closure) (qs : List Program),
        (s.run p).1 = .ok (some v) → v.closure? = some f →
          let later := (s.run p).2.after qs
          (f.scope = later.machine.globals ∨ later.machine.tracked.toList.count f.scope = 1) ∧
            later.close.machine.store.scope f.scope = .empty := by
  intro s
  have sound : s.machine.Sound := sound_after limits host {} ps
  refine ⟨sound.accounted, ?_, sound.scope_shutdown, ?_⟩
  · intro p a comes
    have allowed := comes.allowed sound
    have ended := upkeep_kept.final limits allowed
    exact ⟨allowed.1.accounted, ended.machine.accounted, fun f args b => Moment.releases allowed⟩
  · intro p v f qs returned closure later
    have next : (s.run p).2.machine.Sound := (extends_after sound [p]).1
    obtain ⟨sound', change⟩ := extends_after next qs
    have alive := change.alive (holds_run sound returned f closure)
    exact ⟨alive.imp_right sound'.count_tracked, sound'.scope_shutdown f.scope⟩

/-- The entry point returns a function that was declared in the scope of the call, before and after
a program that fails. -/
theorem scopes_severed_returned :
    let limits : Limits := ⟨3, 16⟩
    let wrong : Program := [.expr (.identifier "x")]
    let get : List Stmt := [.ret (some (.literal (.int 1)))]
    let body : List Stmt := [.verse "get" [] get, .ret (some (.identifier "get"))]
    let p : Program := [.verse entryName [] body]
    let s := (start limits ({} : Console)).after [wrong]
    let later := (s.run p).2.after [wrong]
    (∃ a b, p.Comes limits s.machine a ∧ a.task = .activation ⟨0, entryName, [], body, 0⟩ [] ∧
      a.Calls limits b ∧ a.Releases limits b) ∧
      (s.run p).1 = .ok (some (.verse ⟨1, "get", [], get, 1⟩)) ∧
        (1 = later.machine.globals ∨ later.machine.tracked.toList.count 1 = 1) ∧
          later.close.machine.store.scope 1 = .empty := by
  intro limits wrong get body p s later
  obtain ⟨-, moments, -, results⟩ := scopes_severed limits ({} : Console) [wrong]
  let logged : Machine Console := { s.machine with log := s.machine.log.add (.executing p.length) }
  have ran : (Task.block p s.machine.globals).run limits (limits.levels + 1) logged = .ok .normal
      (((Task.block p s.machine.globals).run limits (limits.levels + 1)).final logged) := by
    dsimp only [logged, s, p, body, get, wrong, limits]
    cbv
  have bound : (((Task.block p s.machine.globals).run limits (limits.levels + 1)).final
      logged).store.get? s.machine.globals entryName =
        some (.verse ⟨0, entryName, [], body, 0⟩) := by
    dsimp only [logged, s, p, body, get, wrong, limits]
    cbv
  have comes : p.Comes limits s.machine _ := ⟨_, .entry ran bound, .refl⟩
  have room : (((Task.block p s.machine.globals).run limits (limits.levels + 1)).final
      logged).calls < limits.calls := by
    dsimp only [logged, s, p, body, get, wrong, limits]
    cbv
  have returned : (s.run p).1 = .ok (some (.verse ⟨1, "get", [], get, 1⟩)) := by
    dsimp only [s, p, body, get, wrong, limits]
    cbv
  have moment := (moments p _ comes).2.2 _ [] _ rfl (.body room)
  have result := results p _ _ [wrong] returned rfl
  exact ⟨⟨_, _, comes, rfl, .body room, moment⟩, returned, result⟩

end Session

end CypherLang
