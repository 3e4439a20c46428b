import CypherLang.Proofs.Eval.Alive

namespace CypherLang

variable {H : Type}

namespace Machine

variable {m m' last : Machine H} {s : ScopeId}

/-- How a run changes the scopes that there are: some are emptied, and names are added to the
others. -/
structure Evolves (m m' : Machine H) : Prop where
  size : m.store.scopes.size ≤ m'.store.scopes.size
  alive : ∀ s < m.store.scopes.size, m'.Alive s → m.Alive s
  parent : ∀ s < m.store.scopes.size, m'.Alive s →
    (m'.store.scope s).parent = (m.store.scope s).parent
  names : ∀ s < m.store.scopes.size, m'.Alive s →
    ∀ name, (m.store.scope s).binds name → (m'.store.scope s).binds name

namespace Evolves

theorem trans (h : m.Evolves m') (h' : m'.Evolves last) : m.Evolves last := by
  have before {s : ScopeId} (hs : s < m.store.scopes.size) (alive : last.Alive s) :
      s < m'.store.scopes.size ∧ m'.Alive s := by
    have hs' := Nat.lt_of_lt_of_le hs h.size
    exact ⟨hs', h'.alive s hs' alive⟩
  constructor
  · exact Nat.le_trans h.size h'.size
  · intro s hs alive
    exact h.alive s hs (before hs alive).2
  · intro s hs alive
    obtain ⟨hs', alive'⟩ := before hs alive
    exact (h'.parent s hs' alive).trans (h.parent s hs alive')
  · intro s hs alive name bound
    obtain ⟨hs', alive'⟩ := before hs alive
    exact h'.names s hs' alive name (h.names s hs alive' name bound)

theorem of_extends (h : m.Extends m') : m.Evolves m' where
  size := h.size
  alive s hs alive := by
    rcases alive with rfl | inside
    · exact .inl h.globals
    · refine .inr ?_
      rwa [h.parent s hs] at inside
  parent s hs _ := h.parent s hs
  names s hs _ := h.names s hs

theorem collect (h : m.Sound) (mark : Nat) (held : Option Closure) :
    m.Evolves (m.collect mark held) where
  size := by
    rw [collect_eq]
    exact Nat.le_of_eq (Store.size_resetAll _).symm
  alive s _ alive := (h.alive_collect.1 alive).1
  parent s _ alive := by
    rw [scope_collect, if_neg (h.alive_collect.1 alive).2]
  names s _ alive name bound := by
    rwa [scope_collect, if_neg (h.alive_collect.1 alive).2]

/-- A name that can be looked up from a scope can be looked up from it later on. -/
theorem resolves (h : m.Evolves m') (sound : m'.Sound) {name : String} (s : ScopeId)
    (hs : s < m.store.scopes.size) (alive : m'.Alive s) (found : (m.store.get? s name).isSome) :
    (m'.store.get? s name).isSome := by
  rw [Store.isSome_get?] at found ⊢
  -- The scopes on the way outward are still there, since each is the parent of the one before.
  unfold Store.owner? at found ⊢
  by_cases bound' : (m'.store.scope s).binds name
  · rw [if_pos bound']
    rfl
  · have bound : ¬ (m.store.scope s).binds name :=
      fun bound => bound' (h.names s hs alive name bound)
    rw [if_neg bound] at found
    rw [if_neg bound', h.parent s hs alive]
    cases outward : (m.store.scope s).parent with
    | none =>
      rw [outward] at found
      cases found
    | some parent =>
      rw [outward] at found
      dsimp only at found ⊢
      by_cases younger : parent < s
      · rw [if_pos younger] at found ⊢
        have refs : parent ∈ (m'.store.scope s).refs :=
          Scope.mem_refs.2 (.inl ((h.parent s hs alive).trans outward))
        rw [← Store.isSome_get?] at found ⊢
        exact resolves h sound parent (Nat.lt_trans younger hs) (sound.refs s parent refs) found
      · rw [if_neg younger] at found
        cases found
termination_by s

end Evolves

/-- Going from scope to scope along references. -/
def Leads (m : Machine H) : ScopeId → ScopeId → Prop :=
  Relation.ReflTransGen fun s r => r ∈ (m.store.scope s).refs

theorem Sound.alive_of_leads (h : m.Sound) {r : ScopeId} (hr : m.Alive r) (leads : m.Leads r s) :
    m.Alive s := by
  cases leads with
  | refl => exact hr
  | tail _ refs => exact h.refs _ _ refs

end Machine

namespace Task

/-- The scopes in which functions among the values were declared. -/
def scopesOf (vs : List Value) : List ScopeId := (vs.filterMap Value.closure?).map Closure.scope

/-- The scopes that a task starts with. -/
def scopes : Task → List ScopeId
  | expr _ s | node _ s | arguments _ s | call _ _ s | block _ s | stmts _ s | stmt _ s => [s]
  | activation f args => scopesOf (.verse f :: args)

/-- The values that a task gives. -/
def values : (t : Task) → t.Result → List Value
  | expr .., v | node .., v | call .., v => [v]
  | arguments .., vs => vs
  | activation .., c | block .., c | stmts .., c | stmt .., c => [c.value]

theorem alive_of_scopesOf {m : Machine H} {vs : List Value} (h : ∀ v ∈ vs, m.Holds v) :
    ∀ s ∈ scopesOf vs, m.Alive s := by
  intro s hs
  obtain ⟨f, mem, rfl⟩ := List.mem_map.1 hs
  obtain ⟨v, hv, closure⟩ := List.mem_filterMap.1 mem
  exact h v hv f closure

theorem alive_of_permits {m : Machine H} {t : Task} (h : upkeep.Permits m t) :
    ∀ s ∈ t.scopes, m.Alive s := by
  cases t with
  | activation f args => exact alive_of_scopesOf (List.forall_mem_cons.2 h)
  | block | stmts | stmt => exact List.forall_mem_singleton.2 h.1
  | _ => exact List.forall_mem_singleton.2 h

theorem holds_of_result {m : Machine H} {t : Task} {r : t.Result} (h : upkeep.result t m r) :
    ∀ v ∈ t.values r, m.Holds v := by
  cases t with
  | arguments => exact h
  | _ => exact List.forall_mem_singleton.2 h

end Task

/-- A run goes on from the first machine, in a new scope or after an entry in the log. -/
def Machine.Continues (m m' : Machine H) : Prop :=
  m' = m ∨ (∃ s, m' = m.withScope s) ∨ ∃ e, m' = { m with log := m.log.add e }

namespace Machine

theorem Evolves.of_continues {m m' : Machine H} (sound : m.Sound) (h : m.Continues m') :
    m.Evolves m' := by
  rcases h with rfl | ⟨s, rfl⟩ | ⟨e, rfl⟩
  · exact .of_extends (.refl _)
  · exact .of_extends (m.extends_withScope s)
  · have logged : _ ∧ m.Extends { m with log := m.log.add e } := sound.of_same rfl rfl rfl
    exact .of_extends logged.2

end Machine

/-- A task begins or ends. -/
inductive Point (H : Type)
  | begins (a : Moment H)
  | ends (a : Moment H)

/-- The task that begins or ends. -/
def Point.moment : Point H → Moment H
  | begins a | ends a => a

variable [Host H]

def Point.machine (limits : Limits) : Point H → Machine H
  | begins a => a.machine
  | ends a => a.final limits

/-- The scopes that the task has at hand, and those of the functions it gives when it ends. -/
def Point.scopes (limits : Limits) : Point H → List ScopeId
  | begins a => a.task.scopes
  | ends a => a.task.scopes ++
      match a.task.run limits a.fuel a.machine with
      | .ok r _ => Task.scopesOf (a.task.values r)
      | .error _ _ => []

/-- The scope can be got at from the global scope or from one that the task has at hand. -/
def Point.Uses (limits : Limits) (x : Point H) (s : ScopeId) : Prop :=
  ∃ r ∈ (x.machine limits).globals :: x.scopes limits, (x.machine limits).Leads r s

namespace Program

variable {limits : Limits} {p : Program} {m : Machine H} {x y : Point H}

/-- The run of a program comes to the moment. -/
def Comes (limits : Limits) (p : Program) (m : Machine H) (a : Moment H) : Prop :=
  ∃ first, p.Starts limits m first ∧ first.Reaches limits a

/-- One point of the run of a program comes before another one: a task begins before those it
starts, which end before it does, and one that goes on where another one has ended begins after
it. -/
inductive Before (limits : Limits) (p : Program) (m : Machine H) :
    Point H → Point H → Prop
  | starts {a b : Moment H} : p.Comes limits m a → a.Calls limits b →
      Before limits p m (.begins a) (.begins b)
  | runs {a : Moment H} : p.Comes limits m a → Before limits p m (.begins a) (.ends a)
  | finishes {a b : Moment H} : p.Comes limits m a → a.Calls limits b →
      Before limits p m (.ends b) (.ends a)
  | goesOn {a b c : Moment H} : p.Comes limits m a → a.Calls limits b → a.Calls limits c →
      (b.final limits).Continues c.machine → Before limits p m (.ends b) (.begins c)
  | dispatches {a b : Moment H} : p.Starts limits m a → p.Starts limits m b →
      (a.final limits).Continues b.machine → Before limits p m (.ends a) (.begins b)

/-- The second point of the run comes later than the first one, or is the same. -/
def Later (limits : Limits) (p : Program) (m : Machine H) : Point H → Point H → Prop :=
  Relation.ReflTransGen (p.Before limits m)

theorem Comes.calls {a b : Moment H} (h : p.Comes limits m a) (calls : a.Calls limits b) :
    p.Comes limits m b := by
  obtain ⟨first, starts, reaches⟩ := h
  exact ⟨first, starts, reaches.tail calls⟩

theorem Comes.allowed {a : Moment H} (h : p.Comes limits m a) (sound : m.Sound) :
    upkeep.Allows a := by
  obtain ⟨first, starts, reaches⟩ := h
  have allowed := (upkeep_kept.starts starts sound (.inl rfl) fun _ _ => trivial).1
  exact (upkeep_kept.reaches reaches allowed).1

theorem Comes.sound (h : p.Comes limits m x.moment) (sound : m.Sound) :
    (x.machine limits).Sound := by
  cases x with
  | begins a => exact (h.allowed sound).1
  | ends a => exact (upkeep_kept.final limits (h.allowed sound)).machine

theorem Before.comes (h : p.Before limits m x y) : p.Comes limits m y.moment := by
  cases h with
  | starts comes calls => exact comes.calls calls
  | runs comes => exact comes
  | finishes comes _ => exact comes
  | goesOn comes _ calls _ => exact comes.calls calls
  | dispatches _ starts _ => exact ⟨_, starts, .refl⟩

theorem Before.evolves (h : p.Before limits m x y) (sound : m.Sound) :
    (x.machine limits).Evolves (y.machine limits) := by
  cases h with
  | starts comes calls =>
    exact .of_extends (upkeep_kept.calls calls (comes.allowed sound)).2
  | runs comes => exact .of_extends (upkeep_kept.final limits (comes.allowed sound)).change
  | finishes comes calls =>
    refine upkeep_kept.ends (fun next => .of_extends next.change) ?_ calls (comes.allowed sound)
    intro m last c _ next
    let left := { last with calls := last.calls - 1 }
    obtain ⟨sound, later⟩ : left.Sound ∧ last.Extends left := next.machine.of_same rfl rfl rfl
    exact (Machine.Evolves.of_extends later).trans (.collect sound _ _)
  | goesOn comes calls _ continues =>
    have ended := upkeep_kept.final limits ((comes.calls calls).allowed sound)
    exact .of_continues ended.machine continues
  | dispatches starts _ continues =>
    have comes : p.Comes limits m _ := ⟨_, starts, .refl⟩
    exact .of_continues (upkeep_kept.final limits (comes.allowed sound)).machine continues

/-- What holds of one point of a run and the next holds of any later one. -/
theorem Later.evolves (later : p.Later limits m x y) (sound : m.Sound) :
    (x.machine limits).Evolves (y.machine limits) := by
  induction later with
  | refl => exact .of_extends (.refl _)
  | tail _ before ih => exact ih.trans (before.evolves sound)

theorem Later.comes (later : p.Later limits m x y) (comes : p.Comes limits m x.moment) :
    p.Comes limits m y.moment := by
  cases later with
  | refl => exact comes
  | tail _ before => exact before.comes

/-- Whatever is in use has not been emptied. -/
theorem Comes.alive {s : ScopeId} (h : p.Comes limits m x.moment) (sound : m.Sound)
    (uses : x.Uses limits s) : (x.machine limits).Alive s := by
  obtain ⟨r, mem, leads⟩ := uses
  refine (h.sound sound).alive_of_leads ?_ leads
  rcases List.mem_cons.1 mem with rfl | mem
  · exact .inl rfl
  have allowed := h.allowed sound
  cases x with
  | begins a => exact Task.alive_of_permits allowed.2 r mem
  | ends a =>
    have kept := upkeep_kept.task limits a.fuel a.task allowed.1 allowed.2
    rcases List.mem_append.1 mem with mem | mem
    · exact kept.1.change.alive (Task.alive_of_permits allowed.2 r mem)
    · split at mem
      · rename_i result last ran
        obtain ⟨-, holds⟩ := kept.of_ok ran
        have alive := Task.alive_of_scopesOf (Task.holds_of_result holds) r mem
        rwa [Point.machine, Moment.final, Run.final_of_ok ran]
      · cases mem

end Program

end CypherLang
