import CypherLang.Proofs.Eval.Points

namespace CypherLang

/-- The name that a statement declares in the scope in which it is executed. -/
def Stmt.declared? : Stmt → Option String
  | spit name _ | verse name _ _ => some name
  | _ => none

/-- The names that statements declare, without those that blocks inside them declare. -/
def declaredNames (body : List Stmt) : List String := body.filterMap Stmt.declared?

variable {H : Type}

namespace Machine

variable {m m' last : Machine H} {env : ScopeId} {names : List String}

/-- The scopes of the first machine are the same on the second one, but for names that have been
added to `env`. -/
structure Frame (env : ScopeId) (names : List String) (m m' : Machine H) : Prop where
  size : m.store.scopes.size ≤ m'.store.scopes.size
  tracked : ∃ new, m'.tracked.toList = m.tracked.toList ++ new ∧ ∀ s ∈ new, m.store.scopes.size ≤ s
  parent : ∀ s < m.store.scopes.size, (m'.store.scope s).parent = (m.store.scope s).parent
  kept : ∀ s < m.store.scopes.size, ∀ name,
    (m.store.scope s).binds name → (m'.store.scope s).binds name
  gained : ∀ s < m.store.scopes.size, ∀ name, (m'.store.scope s).binds name →
    (m.store.scope s).binds name ∨ s = env ∧ name ∈ names

namespace Frame

theorem refl (m : Machine H) : m.Frame env names m where
  size := Nat.le_refl _
  tracked := ⟨[], (List.append_nil _).symm, nofun⟩
  parent _ _ := rfl
  kept _ _ _ := id
  gained _ _ _ := .inl

/-- A name is bound that was bound before, or in a new scope, or that may be added. -/
theorem bind (h : m.Frame env names m') {o : ScopeId} {name : String} (v : Value)
    (allowed : o < m.store.scopes.size → (m'.store.scope o).binds name ∨ o = env ∧ name ∈ names) :
    m.Frame env names { m' with store := m'.store.bind o name v } where
  size := by
    rw [Store.size_bind]
    exact h.size
  tracked := h.tracked
  parent s hs := Store.parent_bind.trans (h.parent s hs)
  kept s hs n bound := Store.binds_bind_of_binds (h.kept s hs n bound)
  gained s hs n bound := by
    rcases Store.binds_of_binds_bind bound with old | ⟨rfl, rfl⟩
    · exact h.gained s hs n old
    · rcases allowed hs with old | new
      · exact h.gained s hs n old
      · exact .inr new

/-- Nothing changes in the scopes that there were. -/
theorem of_scope_eq (h : m.Frame env names m')
    (size : m'.store.scopes.size ≤ last.store.scopes.size)
    (tracked : ∃ new, last.tracked.toList = m.tracked.toList ++ new ∧
      ∀ s ∈ new, m.store.scopes.size ≤ s)
    (scope : ∀ s < m.store.scopes.size, last.store.scope s = m'.store.scope s) :
    m.Frame env names last where
  size := Nat.le_trans h.size size
  tracked := tracked
  parent s hs := by
    rw [scope s hs]
    exact h.parent s hs
  kept s hs n bound := by
    rw [scope s hs]
    exact h.kept s hs n bound
  gained s hs n bound := by
    rw [scope s hs] at bound
    exact h.gained s hs n bound

theorem withScope (h : m.Frame env names m') (s : ScopeId) :
    m.Frame env names (m'.withScope s) := by
  apply h.of_scope_eq
  · exact (m'.extends_withScope s).size
  · obtain ⟨new, split, fresh⟩ := h.tracked
    refine ⟨new ++ [m'.store.scopes.size], ?_, ?_⟩
    · rw [Machine.withScope, Array.toList_push, split, List.append_assoc]
    · exact List.forall_mem_append.2 ⟨fresh, List.forall_mem_singleton.2 h.size⟩
  · exact fun t ht => Store.scope_newChild_of_lt (Nat.lt_of_lt_of_le ht h.size)

theorem enter (h : m.Frame env names m') (f : Closure) (args : List Value) :
    m.Frame env names (m'.enter f args) := by
  apply (h.withScope f.scope).of_scope_eq
  · exact Nat.le_of_eq (Store.size_bindAll _).symm
  · exact (h.withScope f.scope).tracked
  · intro t ht
    have old : t ≠ m'.store.scopes.size := Nat.ne_of_lt (Nat.lt_of_lt_of_le ht h.size)
    exact Store.scope_bindAll_of_ne _ old

/-- A release after a call empties only scopes that are newer than the call. -/
theorem collect (h : m.Frame env names m') (hlast : m.Frame env names last)
    (held : Option Closure) : m.Frame env names (last.collect m'.tracked.size held) := by
  obtain ⟨new, split, fresh⟩ := hlast.tracked
  let count := m'.tracked.size - m.tracked.toList.length
  have before :
      (last.tracked.take m'.tracked.size).toList = m.tracked.toList ++ new.take count := by
    have mark : m.tracked.toList.length ≤ m'.tracked.size := by
      obtain ⟨new', split', -⟩ := h.tracked
      rw [← Array.length_toList, split', List.length_append]
      exact Nat.le_add_right _ _
    have take : (last.tracked.take m'.tracked.size).toList =
        last.tracked.toList.take m'.tracked.size := by simp
    rw [take, split, List.take_append, List.take_of_length_le mark]
  have rest : new.take count ++ last.since m'.tracked.size = new := by
    have all := tracked_eq last m'.tracked.size
    rw [before, split, List.append_assoc] at all
    exact (List.append_cancel_left all).symm
  have newer : ∀ s ∈ last.since m'.tracked.size, m.store.scopes.size ≤ s := by
    intro s hs
    exact fresh s (rest ▸ List.mem_append_right _ hs)
  apply hlast.of_scope_eq
  · rw [collect_eq]
    exact Nat.le_of_eq (Store.size_resetAll _).symm
  · rw [collect_eq]
    let kept := (last.since m'.tracked.size).filter fun s =>
      !(last.released m'.tracked.size held).contains s
    refine ⟨new.take count ++ kept, ?_, ?_⟩
    · rw [Array.toList_appendList, before, List.append_assoc]
    · refine List.forall_mem_append.2 ⟨fun s hs => fresh s (List.mem_of_mem_take hs), ?_⟩
      exact fun s hs => newer s (List.mem_of_mem_filter hs)
  · intro s hs
    have stays : s ∉ last.released m'.tracked.size held := by
      intro mem
      exact absurd (newer s (mem_released.1 mem).1) (Nat.not_le.2 hs)
    rw [scope_collect, if_neg stays]

end Frame

/-- A run on a machine `m` that executes in the scopes of `m`, if at all, only statements in `env`
that declare no other names. -/
def hygiene (m : Machine H) (env : ScopeId) (names : List String) : Discipline H where
  machine := m.Frame env names
  stmt x s := m.store.scopes.size ≤ s ∨ s = env ∧ ∀ name ∈ x.declared?, name ∈ names

theorem hygiene_kept (m : Machine H) (env : ScopeId) (names : List String) :
    (m.hygiene env names).Kept where
  refl _ := trivial
  trans _ _ := trivial
  valueLater _ _ := trivial
  scopeLater _ _ := trivial
  plain _ := trivial
  found _ _ _ := trivial
  logs _ hm := ⟨⟨hm.size, hm.tracked, hm.parent, hm.kept, hm.gained⟩, trivial⟩
  outside _ _ hm := ⟨⟨hm.size, hm.tracked, hm.parent, hm.kept, hm.gained⟩, trivial⟩
  spit hm _ hx _ := by
    refine ⟨hm.bind _ fun old => ?_, trivial⟩
    rcases hx with new | ⟨here, declared⟩
    · exact absurd new (Nat.not_le.2 old)
    · exact .inr ⟨here, declared _ rfl⟩
  verse {m' s name params body} hm _ hx := by
    have counted : m.Frame env names { m' with store := (m'.store.capture name params body s).2 } :=
      ⟨hm.size, hm.tracked, hm.parent, hm.kept, hm.gained⟩
    refine ⟨counted.bind _ fun old => ?_, trivial⟩
    rcases hx with new | ⟨here, declared⟩
    · exact absurd new (Nat.not_le.2 old)
    · exact .inr ⟨here, declared _ rfl⟩
  assign hm _ _ _ owner := ⟨hm.bind _ fun _ => .inl (Store.binds_of_owner? owner), trivial⟩
  branch hm _ _ := by
    refine ⟨⟨hm.withScope _, trivial⟩, trivial, ?_, ?_⟩
    · exact fun _ _ => .inl hm.size
    · exact fun _ _ _ _ => .inl hm.size
  enter hm _ _ := ⟨⟨hm.enter _ _, trivial⟩, trivial, fun _ _ => .inl hm.size⟩
  leave {m' last} c hm next := by
    have left : m.Frame env names { last with calls := last.calls - 1 } :=
      ⟨next.machine.size, next.machine.tracked, next.machine.parent, next.machine.kept,
        next.machine.gained⟩
    exact ⟨hm.collect left _, trivial⟩
  returned _ _ _ := trivial

end Machine

namespace Task

variable [Host H] {limits : Limits} {fuel : Nat} {m : Machine H}

/-- What a task does to the scopes that there are when it starts. -/
theorem frame {env : ScopeId} {names : List String} (t : Task)
    (permitted : (m.hygiene env names).Permits m t) :
    m.Frame env names ((t.run limits fuel).final m) :=
  ((m.hygiene_kept env names).task limits fuel t (.refl m) permitted).1.machine

theorem frame_block (body : List Stmt) (env : ScopeId) :
    m.Frame env (declaredNames body) (((evaluator limits fuel).block body env).final m) := by
  refine frame (.block body env) ⟨trivial, fun x hx => .inr ⟨rfl, fun name declared => ?_⟩⟩
  exact List.mem_filterMap.2 ⟨x, hx, declared⟩

end Task

namespace Machine

/-- Every scope of the first machine has the same parent and binds the same names on the second
one. -/
def SameNames (m m' : Machine H) : Prop :=
  ∀ s < m.store.scopes.size, (m'.store.scope s).parent = (m.store.scope s).parent ∧
    ∀ name, (m'.store.scope s).binds name ↔ (m.store.scope s).binds name

theorem Frame.sameNames {env : ScopeId} {m m' : Machine H} (h : m.Frame env [] m') :
    m.SameNames m' := by
  intro s hs
  refine ⟨h.parent s hs, fun name => ⟨fun bound => ?_, h.kept s hs name⟩⟩
  rcases h.gained s hs name bound with old | ⟨-, none⟩
  · exact old
  · cases none

end Machine

/-- A block gives no scope another parent and takes no name from one, and adds only names to its
own scope that it declares itself. So expressions, branches and calls add none at all. In the run
of a program, a name that can be looked up from a scope can be looked up from it at any later
point, for as long as the scope is in use. -/
theorem scope_hygiene [Host H] (limits : Limits) :
    (∀ (fuel : Nat) (body : List Stmt) (env : ScopeId) (m : Machine H),
      let m' := ((evaluator limits fuel).block body env).final m
      ∀ s < m.store.scopes.size, (m'.store.scope s).parent = (m.store.scope s).parent ∧
        (s ≠ env → ∀ name, (m'.store.scope s).binds name ↔ (m.store.scope s).binds name) ∧
        (∀ name, (m.store.scope s).binds name → (m'.store.scope s).binds name) ∧
        ∀ name, (m'.store.scope s).binds name →
          (m.store.scope s).binds name ∨ name ∈ declaredNames body) ∧
    (∀ (fuel : Nat) (e : Expr) (env : ScopeId) (m : Machine H),
      m.SameNames (((evaluator limits fuel).expr e env).final m)) ∧
    (∀ (fuel : Nat) (c : Expr) (thenBranch : List Stmt) (elseBranch : Option (List Stmt))
      (env : ScopeId) (m : Machine H), m.SameNames
        ((Eval.stmt (evaluator limits fuel) (.battle c thenBranch elseBranch) env).final m)) ∧
    (∀ (fuel : Nat) (f : Closure) (args : List Value) (m : Machine H),
      m.SameNames ((Eval.activate limits (evaluator limits fuel) f args).final m)) ∧
    (∀ (p : Program) (m : Machine H) (x y : Point H), m.Sound → p.Comes limits m x.moment →
      p.Later limits m x y → ∀ s < (x.machine limits).store.scopes.size, y.Uses limits s →
        ((y.machine limits).store.scope s).parent = ((x.machine limits).store.scope s).parent ∧
          ∀ name, ((x.machine limits).store.get? s name).isSome →
            ((y.machine limits).store.get? s name).isSome) ∧
    ∀ (host : H) (log : Log) (ps : List Program),
      (Session.after ⟨limits, .start host log⟩ ps).machine.Sound := by
  refine ⟨?_, ?_, ?_, ?_, ?_, Session.sound_after limits⟩
  · intro fuel body env m m' s hs
    have frame : m.Frame env (declaredNames body) m' := Task.frame_block body env
    refine ⟨frame.parent s hs, fun other name => ⟨fun bound => ?_, frame.kept s hs name⟩,
      frame.kept s hs, fun name bound => ?_⟩
    · exact (frame.gained s hs name bound).resolve_right fun here => other here.1
    · exact (frame.gained s hs name bound).imp_right And.right
  · intro fuel e env m
    have permitted : (m.hygiene env []).Permits m (.expr e env) := trivial
    exact (Task.frame _ permitted).sameNames
  · intro fuel c thenBranch elseBranch env m
    have permitted : (m.hygiene env []).Permits m (.stmt (.battle c thenBranch elseBranch) env) :=
      ⟨trivial, .inr ⟨rfl, nofun⟩⟩
    exact (Task.frame _ permitted).sameNames
  · intro fuel f args m
    have permitted : (m.hygiene 0 []).Permits m (.activation f args) :=
      ⟨trivial, fun _ _ => trivial⟩
    exact (Task.frame _ permitted).sameNames
  · intro p m x y sound comes later s hs uses
    have comes' := later.comes comes
    have alive := comes'.alive sound uses
    have evolves := later.evolves sound
    exact ⟨evolves.parent s hs alive, fun name found =>
      evolves.resolves (comes'.sound sound) s hs alive found⟩

/-- What a branch declares is not left behind in the global scope, and what can be looked up there
before the program can be looked up after it. -/
theorem scope_hygiene_branch :
    let limits : Limits := {}
    let p : Program :=
      [.verse "one" [] [.ret (some (.literal (.int 1)))],
        .battle (.literal (.bool true)) [.spit "hidden" (.call "one" [])] none]
    let m : Machine Console := .start {}
    let first : Moment Console := ⟨limits.levels + 1, .block p 0, m⟩
    (∀ name, ((first.final limits).store.scope 0).binds name →
      (m.store.scope 0).binds name ∨ name ∈ ["one"]) ∧
      ¬ (m.store.scope 0).binds "hidden" ∧ (m.store.get? 0 "listen").isSome ∧
        ((first.final limits).store.get? 0 "listen").isSome := by
  intro limits p m first
  obtain ⟨block, -, -, -, later, -⟩ := scope_hygiene (H := Console) limits
  have gained := (block (limits.levels + 1) p 0 m 0 (by decide)).2.2.2
  have comes : p.Comes limits m first := ⟨first, .statements, .refl⟩
  have uses : Point.Uses limits (.ends first) 0 :=
    ⟨0, List.mem_cons_of_mem _ (List.mem_append_left _ List.mem_cons_self), .refl⟩
  have resolves := (later p m (.begins first) (.ends first)
    (Machine.sound_start ({} : Console) {}) comes (.single (.runs comes)) 0 (by decide) uses).2
  have found : (m.store.get? 0 "listen").isSome := by cbv
  exact ⟨gained, by cbv; decide, found, resolves "listen" found⟩

end CypherLang
