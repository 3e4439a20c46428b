import CypherLang.Proofs.Eval.Discipline
import CypherLang.Proofs.Eval.Limits
import CypherLang.Proofs.Store.Release

namespace CypherLang

variable {H : Type}

namespace Machine

variable {m m' last : Machine H} {s r : ScopeId} {v : Value} {name : String}

/-- The scope has not been emptied: it is the global one or stands inside another one. -/
def Alive (m : Machine H) (s : ScopeId) : Prop :=
  s = m.globals ∨ (m.store.scope s).parent.isSome

/-- If the value is a function, the scope in which it was declared has not been emptied. -/
def Holds (m : Machine H) (v : Value) : Prop := ∀ f, v.closure? = some f → m.Alive f.scope

structure Sound (m : Machine H) : Prop where
  /-- The global scope is the first one. -/
  globals : m.globals = 0
  made : 0 < m.store.scopes.size
  root : (m.store.scope m.globals).parent = none
  /-- The tracked scopes are those that stand inside another one, oldest first. -/
  tracked : m.tracked.toList =
    (List.range m.store.scopes.size).filter fun s => (m.store.scope s).parent.isSome
  /-- Nothing is bound in a scope once it has been emptied. -/
  emptied : ∀ s, ¬ m.Alive s → m.store.scope s = .empty
  /-- Nothing refers to a scope that has been emptied. -/
  refs : ∀ s, ∀ r ∈ (m.store.scope s).refs, m.Alive r

/-- How a task changes the scopes that there are when it starts: it only adds names to them. -/
structure Extends (m m' : Machine H) : Prop where
  globals : m'.globals = m.globals
  size : m.store.scopes.size ≤ m'.store.scopes.size
  tracked : m.tracked.toList <+: m'.tracked.toList
  parent : ∀ s < m.store.scopes.size, (m'.store.scope s).parent = (m.store.scope s).parent
  names : ∀ s < m.store.scopes.size, ∀ name,
    (m.store.scope s).binds name → (m'.store.scope s).binds name

theorem lt_size_of_parent (h : (m.store.scope s).parent.isSome) : s < m.store.scopes.size := by
  refine Nat.lt_of_not_le fun beyond => ?_
  rw [Store.scope_of_le beyond] at h
  cases h

namespace Extends

theorem refl (m : Machine H) : m.Extends m :=
  ⟨rfl, Nat.le_refl _, List.prefix_refl _, fun _ _ => rfl, fun _ _ _ => id⟩

theorem trans (h : m.Extends m') (h' : m'.Extends last) : m.Extends last where
  globals := h'.globals.trans h.globals
  size := Nat.le_trans h.size h'.size
  tracked := h.tracked.trans h'.tracked
  parent s hs := (h'.parent s (Nat.lt_of_lt_of_le hs h.size)).trans (h.parent s hs)
  names s hs name bound := h'.names s (Nat.lt_of_lt_of_le hs h.size) name (h.names s hs name bound)

theorem alive (h : m.Extends m') (hs : m.Alive s) : m'.Alive s := by
  rcases hs with rfl | inside
  · exact .inl h.globals.symm
  · refine .inr ?_
    rw [h.parent s (lt_size_of_parent inside)]
    exact inside

theorem holds (h : m.Extends m') (hv : m.Holds v) : m'.Holds v :=
  fun f hf => h.alive (hv f hf)

end Extends

theorem extends_bind (m : Machine H) (s : ScopeId) (name : String) (v : Value) :
    m.Extends { m with store := m.store.bind s name v } where
  globals := rfl
  size := Nat.le_of_eq Store.size_bind.symm
  tracked := List.prefix_refl _
  parent _ _ := Store.parent_bind
  names _ _ _ bound := Store.binds_bind_of_binds bound

theorem extends_withScope (m : Machine H) (s : ScopeId) : m.Extends (m.withScope s) where
  globals := rfl
  size := by
    rw [withScope, Store.size_newChild]
    exact Nat.le_succ _
  tracked := by
    rw [withScope, Array.toList_push]
    exact List.prefix_append _ _
  parent t ht := by rw [withScope, Store.scope_newChild_of_lt ht]
  names t ht _ bound := by rwa [withScope, Store.scope_newChild_of_lt ht]

theorem alive_withScope (m : Machine H) (s : ScopeId) :
    (m.withScope s).Alive m.store.scopes.size := by
  refine .inr ?_
  rw [withScope, Store.scope_newChild, if_pos rfl]
  rfl

namespace Sound

theorem lt_size (h : m.Sound) (hs : m.Alive s) : s < m.store.scopes.size := by
  rcases hs with rfl | inside
  · rw [h.globals]
    exact h.made
  · exact lt_size_of_parent inside

theorem mem_tracked (h : m.Sound) : s ∈ m.tracked.toList ↔ (m.store.scope s).parent.isSome := by
  rw [h.tracked, List.mem_filter, List.mem_range]
  exact ⟨fun both => both.2, fun inside => ⟨lt_size_of_parent inside, inside⟩⟩

theorem nodup_tracked (h : m.Sound) : m.tracked.toList.Nodup := by
  rw [h.tracked]
  exact List.nodup_range.filter _

/-- A scope is tracked either before a mark or since it. -/
theorem not_mem_since (h : m.Sound) {mark : Nat} (before : s ∈ (m.tracked.take mark).toList) :
    s ∉ m.since mark := by
  have nodup := h.nodup_tracked
  rw [tracked_eq m mark] at nodup
  intro after
  exact (List.nodup_append.1 nodup).2.2 s before s after rfl

theorem alive_of_binds (h : m.Sound) (bound : (m.store.scope s).binds name) : m.Alive s := by
  refine Classical.byContradiction fun dead => ?_
  rw [h.emptied s dead] at bound
  exact Scope.not_binds_empty name bound

theorem holds_of_get? (h : m.Sound) (found : m.store.get? s name = some v) : m.Holds v := by
  intro f closure
  obtain ⟨o, -, bound⟩ := Option.bind_eq_some_iff.1 found
  exact h.refs o f.scope (Scope.mem_refs.2 (.inr ⟨_, Scope.mem_of_get? bound, f, closure, rfl⟩))

/-- What is not about scopes does not matter. -/
theorem of_same (h : m.Sound) (scopes : m'.store.scopes = m.store.scopes)
    (globals : m'.globals = m.globals) (tracked : m'.tracked = m.tracked) :
    m'.Sound ∧ m.Extends m' := by
  have scope (s : ScopeId) : m'.store.scope s = m.store.scope s := by
    unfold Store.scope
    rw [scopes]
  have later : m.Extends m' := by
    constructor
    · exact globals
    · exact Nat.le_of_eq (congrArg Array.size scopes).symm
    · exact ⟨[], (List.append_nil _).trans (congrArg Array.toList tracked).symm⟩
    · intro s _
      rw [scope]
    · intro s _ name bound
      rwa [scope]
  refine ⟨?_, later⟩
  constructor
  · exact globals.trans h.globals
  · rw [scopes]
    exact h.made
  · rw [scope, globals]
    exact h.root
  · simp only [tracked, scopes, scope]
    exact h.tracked
  · intro s dead
    rw [scope]
    exact h.emptied s fun alive => dead (later.alive alive)
  · intro s r refs
    rw [scope] at refs
    exact later.alive (h.refs s r refs)

theorem capture (h : m.Sound) (name : String) (params : List String) (body : List Stmt)
    (s : ScopeId) :
    let counted := { m with store := (m.store.capture name params body s).2 }
    counted.Sound ∧ m.Extends counted := h.of_same rfl rfl rfl

theorem bind (name : String) (h : m.Sound) (hs : m.Alive s) (hv : m.Holds v) :
    Sound { m with store := m.store.bind s name v } := by
  have later := extends_bind m s name v
  have earlier {t : ScopeId} (alive : Alive { m with store := m.store.bind s name v } t) :
      m.Alive t := alive.imp_right fun inside => by rwa [Store.parent_bind] at inside
  constructor
  · exact h.globals
  · exact Nat.lt_of_lt_of_le h.made later.size
  · exact Store.parent_bind.trans h.root
  · simp only [Store.size_bind, Store.parent_bind]
    exact h.tracked
  · intro t dead
    have ne : t ≠ s := fun same => dead (later.alive (same ▸ hs))
    exact (Store.scope_bind_of_ne ne).trans (h.emptied t fun alive => dead (later.alive alive))
  · intro t r refs
    apply later.alive
    change r ∈ ((m.store.bind s name v).scope t).refs at refs
    rw [Store.scope_bind] at refs
    split at refs
    · rcases Scope.mem_refs_bind refs with old | ⟨f, closure, rfl⟩
      · exact h.refs t r old
      · exact hv f closure
    · exact h.refs t r refs

theorem withScope (h : m.Sound) (hs : m.Alive s) : (m.withScope s).Sound := by
  have later := extends_withScope m s
  have scope (t : ScopeId) : (m.withScope s).store.scope t =
      if t = m.store.scopes.size then ⟨some s, []⟩ else m.store.scope t := Store.scope_newChild
  constructor
  · exact h.globals
  · exact Nat.lt_of_lt_of_le h.made later.size
  · exact (later.parent _ (h.lt_size (.inl rfl))).trans h.root
  · have size : (m.withScope s).store.scopes.size = m.store.scopes.size + 1 :=
      Store.size_newChild
    have old : (List.range m.store.scopes.size).filter
        (fun t => ((m.withScope s).store.scope t).parent.isSome) = m.tracked.toList := by
      rw [h.tracked]
      refine List.filter_congr fun t ht => ?_
      rw [later.parent t (List.mem_range.1 ht)]
    have new : ((m.withScope s).store.scope m.store.scopes.size).parent.isSome = true := by
      rw [scope, if_pos rfl]
      rfl
    rw [size, List.range_succ, List.filter_append, old, List.filter_cons, if_pos new,
      List.filter_nil]
    exact Array.toList_push
  · intro t dead
    have ne : t ≠ m.store.scopes.size := fun same => dead (same ▸ alive_withScope m s)
    rw [scope, if_neg ne]
    exact h.emptied t fun alive => dead (later.alive alive)
  · intro t r refs
    apply later.alive
    rw [scope] at refs
    split at refs
    · rw [Scope.refs, Scope.functions, Option.toList, List.filterMap_nil, List.map_nil,
        List.append_nil, List.mem_singleton] at refs
      exact refs ▸ hs
    · exact h.refs t r refs

/-- Binding several names in a new scope. -/
theorem bindAll (bindings : List (String × Value)) (h : m.Sound) (hs : m.Alive s)
    (hv : ∀ b ∈ bindings, m.Holds b.2) :
    let m' := { m with store := bindings.foldl (fun st b => st.bind s b.1 b.2) m.store }
    m'.Sound ∧ m.Extends m' := by
  induction bindings generalizing m with
  | nil => exact ⟨h, .refl m⟩
  | cons b bindings ih =>
    obtain ⟨hb, hrest⟩ := List.forall_mem_cons.1 hv
    have later := extends_bind m s b.1 b.2
    have rest := ih (h.bind b.1 hs hb) (later.alive hs)
      fun c hc => later.holds (hrest c hc)
    exact ⟨rest.1, later.trans rest.2⟩

theorem enter {f : Closure} {args : List Value} (h : m.Sound) (hf : m.Holds (.verse f))
    (hargs : ∀ v ∈ args, m.Holds v) : (m.enter f args).Sound ∧ m.Extends (m.enter f args) ∧
      (m.enter f args).Alive m.store.scopes.size := by
  have opened := extends_withScope m f.scope
  have values : ∀ b ∈ f.params.zip args, (m.withScope f.scope).Holds b.2 := by
    rintro ⟨name, v⟩ mem
    exact opened.holds (hargs v (List.of_mem_zip mem).2)
  have alive := alive_withScope m f.scope
  obtain ⟨sound, bound⟩ := bindAll (f.params.zip args) (h.withScope (hf f rfl)) alive values
  obtain ⟨sound, entered⟩ := @of_same _ _ (m.enter f args) sound rfl rfl rfl
  have later := bound.trans entered
  exact ⟨sound, opened.trans later, later.alive alive⟩

section Release

variable {mark : Nat} {held : Option Closure}

theorem globals_not_mem_released (h : m.Sound) : m.globals ∉ m.released mark held := by
  intro mem
  have inside := h.mem_tracked.1 (mem_tracked_of_released mem)
  rw [h.root] at inside
  cases inside

/-- Of the scopes that have not been emptied, a release empties those it is meant to. -/
theorem alive_collect (h : m.Sound) :
    (m.collect mark held).Alive s ↔ m.Alive s ∧ s ∉ m.released mark held := by
  have globals : (m.collect mark held).globals = m.globals := rfl
  unfold Alive
  rw [globals, scope_collect]
  by_cases mem : s ∈ m.released mark held
  · have ne : s ≠ m.globals := by
      rintro rfl
      exact h.globals_not_mem_released mem
    simp [mem, ne, Scope.empty]
  · simp [mem]

theorem collect (h : m.Sound) (mark : Nat) (held : Option Closure) :
    (m.collect mark held).Sound := by
  have size : (m.collect mark held).store.scopes.size = m.store.scopes.size := by
    rw [collect_eq]
    exact Store.size_resetAll _
  constructor
  · exact h.globals
  · rw [size]
    exact h.made
  · change ((m.collect mark held).store.scope m.globals).parent = none
    rw [scope_collect]
    split
    · rfl
    · exact h.root
  · -- The part before the mark has no scope in common with the group, so nothing of it is released.
    have before : (m.tracked.take mark).toList.filter
        (fun s => !(m.released mark held).contains s) = (m.tracked.take mark).toList := by
      refine List.filter_eq_self.2 fun s hs => ?_
      simp [mem_released, h.not_mem_since hs]
    have kept : (m.collect mark held).tracked.toList =
        m.tracked.toList.filter fun s => !(m.released mark held).contains s := by
      rw [collect_eq, tracked_eq m mark, List.filter_append, before, Array.toList_appendList]
    rw [kept, size, h.tracked, List.filter_filter]
    refine List.filter_congr fun s _ => ?_
    rw [scope_collect]
    by_cases mem : s ∈ m.released mark held
    · simp [mem, Scope.empty]
    · simp [mem]
  · intro s dead
    rw [scope_collect]
    split
    · rfl
    · rename_i stays
      exact h.emptied s fun alive => dead (h.alive_collect.2 ⟨alive, stays⟩)
  · intro s r refs
    rw [scope_collect] at refs
    split at refs
    · exact absurd refs (Scope.not_mem_refs_empty r)
    · rename_i stays
      refine h.alive_collect.2 ⟨h.refs s r refs, ?_⟩
      have alive : m.Alive s := by
        refine Classical.byContradiction fun dead => ?_
        rw [h.emptied s dead] at refs
        exact Scope.not_mem_refs_empty r refs
      have known : s ∈ m.globals :: m.tracked.toList :=
        List.mem_cons.2 (alive.imp_right h.mem_tracked.2)
      exact not_mem_released_of_refs known stays refs

/-- A function that is held is still there after a release. -/
theorem holds_collect (h : m.Sound) (hv : m.Holds v) (returned : held = v.closure?) :
    (m.collect mark held).Holds v := by
  intro f closure
  refine h.alive_collect.2 ⟨hv f closure, ?_⟩
  exact not_mem_released_of_held (returned.trans closure)

theorem take_tracked (h : m.tracked.toList <+: last.tracked.toList) :
    (last.tracked.take m.tracked.size).toList = m.tracked.toList := by
  rw [← Array.length_toList, List.prefix_iff_eq_take.1 h]
  simp

/-- A release empties no scope that had been there when the mark was set. -/
theorem extends_collect (h : m.Sound) (hlast : last.Sound) (later : m.Extends last) :
    m.Extends (last.collect m.tracked.size held) := by
  have before := take_tracked later.tracked
  have untouched {s : ScopeId} (hs : s < m.store.scopes.size) :
      s ∉ last.released m.tracked.size held := by
    intro mem
    have inside := hlast.mem_tracked.1 (mem_tracked_of_released mem)
    rw [later.parent s hs, ← h.mem_tracked, ← before] at inside
    exact hlast.not_mem_since inside (mem_released.1 mem).1
  have size : (last.collect m.tracked.size held).store.scopes.size = last.store.scopes.size := by
    rw [collect_eq]
    exact Store.size_resetAll _
  constructor
  · exact later.globals
  · rw [size]
    exact later.size
  · rw [collect_eq]
    rw [Array.toList_appendList, before]
    exact List.prefix_append _ _
  · intro s hs
    rw [scope_collect, if_neg (untouched hs)]
    exact later.parent s hs
  · intro s hs name bound
    rw [scope_collect, if_neg (untouched hs)]
    exact later.names s hs name bound

end Release

end Sound

/-- Every scope is younger than the one it stands in. -/
def Ordered (m : Machine H) : Prop := ∀ s r, (m.store.scope s).parent = some r → r < s

namespace Ordered

theorem of_parent (h : m.Ordered)
    (parent : ∀ s, (m'.store.scope s).parent = (m.store.scope s).parent) : m'.Ordered := by
  intro s r inside
  rw [parent] at inside
  exact h s r inside

theorem withScope (h : m.Ordered) (made : s < m.store.scopes.size) : (m.withScope s).Ordered := by
  intro t r inside
  change ((m.store.newChild s).2.scope t).parent = some r at inside
  rw [Store.scope_newChild] at inside
  split at inside
  · rename_i new
    cases inside
    rw [new]
    exact made
  · exact h t r inside

theorem bindAll (bindings : List (String × Value)) (h : m.Ordered) :
    Ordered { m with store := bindings.foldl (fun st b => st.bind s b.1 b.2) m.store } := by
  induction bindings generalizing m with
  | nil => exact h
  | cons b bindings ih =>
    have first : Ordered { m with store := m.store.bind s b.1 b.2 } :=
      h.of_parent fun _ => Store.parent_bind
    exact ih first

theorem collect (h : m.Ordered) (mark : Nat) (held : Option Closure) :
    (m.collect mark held).Ordered := by
  intro t r inside
  rw [scope_collect] at inside
  split at inside
  · cases inside
  · exact h t r inside

end Ordered

theorem sound_start (host : H) (log : Log) : (start host log).Sound := by
  have scope (s : ScopeId) : ((start host log).store.scope s).parent = none ∧
      ((start host log).store.scope s).refs = [] := by
    cases s with
    | zero => exact ⟨rfl, rfl⟩
    | succ s =>
      have beyond : (start host log).store.scope (s + 1) = .empty :=
        Store.scope_of_le (Nat.succ_le_succ (Nat.zero_le s))
      rw [beyond]
      exact ⟨rfl, rfl⟩
  constructor
  · rfl
  · exact Nat.zero_lt_one
  · exact (scope _).1
  · refine (List.filter_eq_nil_iff.2 fun s _ => ?_).symm
    rw [(scope s).1]
    exact Bool.false_ne_true
  · intro s dead
    cases s with
    | zero => exact absurd (.inl rfl) dead
    | succ s => exact Store.scope_of_le (Nat.succ_le_succ (Nat.zero_le s))
  · intro s r refs
    rw [(scope s).2] at refs
    cases refs

theorem ordered_start (host : H) (log : Log) : (start host log).Ordered := by
  intro s r inside
  cases s with
  | zero => cases inside
  | succ s =>
    have beyond : (start host log).store.scope (s + 1) = .empty :=
      Store.scope_of_le (Nat.succ_le_succ (Nat.zero_le s))
    rw [beyond] at inside
    cases inside

end Machine

/-- Runs go on only in scopes that have not been emptied, and with functions declared in such
scopes. -/
def upkeep : Discipline H where
  machine := Machine.Sound
  change := Machine.Extends
  value := Machine.Holds
  scope := Machine.Alive

theorem next_of_same {m m' : Machine H} (hm : m.Sound) (scopes : m'.store.scopes = m.store.scopes)
    (globals : m'.globals = m.globals) (tracked : m'.tracked = m.tracked) : upkeep.Next m m' :=
  ⟨(hm.of_same scopes globals tracked).1, (hm.of_same scopes globals tracked).2⟩

theorem upkeep_kept : (upkeep : Discipline H).Kept where
  refl := .refl
  trans h h' := h.trans h'
  valueLater h hv := h.holds hv
  scopeLater h hs := h.alive hs
  plain hv f hf := by
    rw [hv] at hf
    cases hf
  found hm _ found := hm.holds_of_get? found
  logs e hm := next_of_same hm rfl rfl rfl
  outside host levels hm := next_of_same hm rfl rfl rfl
  spit hm hs _ hv := ⟨hm.bind _ hs hv, Machine.extends_bind ..⟩
  verse {m s name params body} hm hs _ := by
    let counted := { m with store := (m.store.capture name params body s).2 }
    obtain ⟨sound, later⟩ : counted.Sound ∧ m.Extends counted := hm.capture name params body s
    have holds : counted.Holds (.verse (m.store.capture name params body s).1) := by
      intro f hf
      cases hf
      exact later.alive hs
    exact ⟨sound.bind name (later.alive hs) holds, later.trans (counted.extends_bind ..)⟩
  assign hm _ _ hv owner :=
    ⟨hm.bind _ (hm.alive_of_binds (Store.binds_of_owner? owner)) hv, Machine.extends_bind ..⟩
  branch hm hs _ := ⟨⟨hm.withScope hs, Machine.extends_withScope ..⟩,
    Machine.alive_withScope .., fun _ _ => trivial, fun _ _ _ _ => trivial⟩
  enter {m f args} hm hf hargs := by
    obtain ⟨sound, later, alive⟩ := hm.enter hf hargs
    exact ⟨⟨sound, later⟩, alive, fun _ _ => trivial⟩
  leave {_ last} c hm next := by
    let left := { last with calls := last.calls - 1 }
    obtain ⟨sound, later⟩ : left.Sound ∧ last.Extends left := next.machine.of_same rfl rfl rfl
    exact ⟨sound.collect _ _, hm.extends_collect sound (next.change.trans later)⟩
  returned {_ last c} _ next hc := by
    let left := { last with calls := last.calls - 1 }
    obtain ⟨sound, later⟩ : left.Sound ∧ last.Extends left := next.machine.of_same rfl rfl rfl
    refine sound.holds_collect (later.holds hc) ?_
    cases c <;> rfl

namespace Session

variable [Host H]

/-- The session after some programs, each of them run whatever became of those before it. -/
def after (s : Session H) (ps : List Program) : Session H :=
  ps.foldl (fun s p => (s.run p).2) s

theorem limits_run (s : Session H) (p : Program) : (s.run p).2.limits = s.limits := by
  unfold run
  split <;> rfl

/-- What some programs keep holds after they have been run. -/
theorem after_induction_of_mem {P : Machine H → Prop} {s : Session H} {ps : List Program}
    (step : ∀ p ∈ ps, ∀ m : Machine H, P m → P ((p.exec s.limits).final m)) (start : P s.machine) :
    P (s.after ps).machine ∧ (s.after ps).limits = s.limits := by
  induction ps generalizing s with
  | nil => exact ⟨start, rfl⟩
  | cons p ps ih =>
    have limits := limits_run s p
    rw [← limits] at step
    obtain ⟨first, rest⟩ := List.forall_mem_cons.1 step
    have next : P (s.run p).2.machine := by
      rw [machine_run]
      exact limits ▸ first s.machine start
    obtain ⟨kept, same⟩ := ih rest next
    exact ⟨kept, same.trans limits⟩

/-- What every program keeps holds after any number of them. -/
theorem after_induction {P : Machine H → Prop} {s : Session H}
    (step : ∀ (p : Program) (m : Machine H), P m → P ((p.exec s.limits).final m))
    (start : P s.machine) (ps : List Program) :
    P (s.after ps).machine ∧ (s.after ps).limits = s.limits :=
  after_induction_of_mem (fun p _ => step p) start

theorem sound_after (limits : Limits) (host : H) (log : Log) (ps : List Program) :
    (after ⟨limits, .start host log⟩ ps).machine.Sound := by
  refine (after_induction ?_ (Machine.sound_start host log) ps).1
  intro p m sound
  exact (upkeep_kept.exec limits sound (.inl rfl) fun _ _ => trivial).machine

end Session

end CypherLang
