import CypherLang.Proofs.Eval.Counters

namespace CypherLang

variable {H : Type}

/-- Which scopes and which functions of one machine stand for which ones of another machine. -/
structure Renumbering where
  scope : ScopeId → ScopeId → Prop
  function : Nat → Nat → Prop
  scope_iff : ∀ {s t s' t' : ScopeId}, scope s t → scope s' t' → (s = s' ↔ t = t')
  function_iff : ∀ {i j i' j' : Nat}, function i j → function i' j' → (i = i' ↔ j = j')

namespace Renumbering

variable {r r' : Renumbering} {v w v' w' : Value}

/-- The same value, but for the numbers of a function and of its scope. -/
inductive Same (r : Renumbering) : Value → Value → Prop
  | plain {v : Value} : v.closure? = none → Same r v v
  | verse {f : Closure} {id : Nat} {scope : ScopeId} :
      r.function f.id id → r.scope f.scope scope → Same r (.verse f) (.verse { f with id, scope })

/-- What stands for something still stands for it. -/
structure Within (r r' : Renumbering) : Prop where
  scope : ∀ {s t : ScopeId}, r.scope s t → r'.scope s t
  function : ∀ {i j : Nat}, r.function i j → r'.function i j

theorem Within.refl (r : Renumbering) : r.Within r := ⟨id, id⟩

theorem Within.trans {r'' : Renumbering} (h : r.Within r') (h' : r'.Within r'') : r.Within r'' :=
  ⟨fun hs => h'.scope (h.scope hs), fun hi => h'.function (h.function hi)⟩

namespace Same

theorem mono (h : r.Same v w) (within : r.Within r') : r'.Same v w := by
  cases h with
  | plain plain => exact .plain plain
  | verse function scope => exact .verse (within.function function) (within.scope scope)

theorem null : r.Same .null .null := .plain rfl

theorem display (h : r.Same v w) : v.display = w.display := by
  cases h <;> rfl

theorem holds (h : r.Same v w) : v.holds = w.holds := by
  cases h <;> rfl

theorem minus (h : r.Same v w) : v.minus = w.minus := by
  cases h <;> rfl

/-- Functions are the same one if those that stand for them are. -/
theorem equal (h : r.Same v w) (h' : r.Same v' w') : v.equal v' = w.equal w' := by
  cases h with
  | plain plain =>
    cases h' with
    | plain => rfl
    | verse => cases v <;> first | rfl | cases plain
  | verse function =>
    cases h' with
    | plain plain => cases v' <;> first | rfl | cases plain
    | verse function' => exact decide_eq_decide.2 (r.function_iff function function')

theorem apply (op : BinOp) (h : r.Same v w) (h' : r.Same v' w') :
    v.apply op v' = w.apply op w' := by
  cases op with
  | eq => exact congrArg (fun b => Except.ok (Value.bool b)) (h.equal h')
  | _ =>
    cases h with
    | plain plain =>
      cases h' with
      | plain => rfl
      | verse => cases v <;> rfl
    | verse =>
      cases h' with
      | plain plain => cases v' <;> rfl
      | verse => rfl

end Same

/-- The same name, bound to the same value. -/
abbrev SameBinding (r : Renumbering) (b b' : String × Value) : Prop := b.1 = b'.1 ∧ r.Same b.2 b'.2

theorem rel_lookup {bindings bindings' : List (String × Value)}
    (h : List.Forall₂ r.SameBinding bindings bindings') (name : String) :
    Option.Rel r.Same (bindings.lookup name) (bindings'.lookup name) := by
  induction h with
  | nil => exact .none
  | @cons b b' _ _ hb _ ih =>
    obtain ⟨n, v⟩ := b
    obtain ⟨n', w⟩ := b'
    obtain ⟨rfl, same⟩ : n = n' ∧ r.Same v w := hb
    unfold List.lookup
    split
    · exact .some same
    · exact ih

/-- The scopes that stand for each other stand inside such scopes and bind the same names, and to
the same values. So all that can be got at from the global scopes of the two machines is the same,
but for the numbers. -/
structure Mirrors (r : Renumbering) (m m' : Machine H) : Prop where
  globals : r.scope m.globals m'.globals
  parent : ∀ {s t : ScopeId}, r.scope s t →
    Option.Rel r.scope (m.store.scope s).parent (m'.store.scope t).parent
  value : ∀ {s t : ScopeId}, r.scope s t → ∀ name,
    Option.Rel r.Same ((m.store.scope s).get? name) ((m'.store.scope t).get? name)
  /-- All functions that stand for each other have been made. -/
  made : ∀ {i j : Nat}, r.function i j → i < m.store.closures ∧ j < m'.store.closures

/-- Leaves out scopes. -/
def restrict (r : Renumbering) (P P' : ScopeId → Prop) : Renumbering where
  scope s t := r.scope s t ∧ P s ∧ P' t
  function := r.function
  scope_iff h h' := r.scope_iff h.1 h'.1
  function_iff := r.function_iff

/-- A new pair keeps numbers apart that are larger than all others. -/
theorem iff_of_new {R : Nat → Nat → Prop} {n n' : Nat}
    (iff : ∀ {i j i' j' : Nat}, R i j → R i' j' → (i = i' ↔ j = j'))
    (older : ∀ {i j : Nat}, R i j → i < n ∧ j < n') {i j i' j' : Nat}
    (h : R i j ∨ i = n ∧ j = n') (h' : R i' j' ∨ i' = n ∧ j' = n') : i = i' ↔ j = j' := by
  rcases h with h | ⟨rfl, rfl⟩
  · rcases h' with h' | ⟨rfl, rfl⟩
    · exact iff h h'
    · obtain ⟨hi, hj⟩ := older h
      omega
  · rcases h' with h' | ⟨rfl, rfl⟩
    · obtain ⟨hi, hj⟩ := older h'
      omega
    · exact ⟨fun _ => rfl, fun _ => rfl⟩

/-- Adds two scopes that have not been numbered. -/
def addScope (r : Renumbering) (n n' : ScopeId)
    (older : ∀ {s t : ScopeId}, r.scope s t → s < n ∧ t < n') : Renumbering where
  scope s t := r.scope s t ∨ s = n ∧ t = n'
  function := r.function
  scope_iff := iff_of_new r.scope_iff older
  function_iff := r.function_iff

/-- Adds two functions that have not been numbered. -/
def addFunction (r : Renumbering) (n n' : Nat)
    (older : ∀ {i j : Nat}, r.function i j → i < n ∧ j < n') : Renumbering where
  scope := r.scope
  function i j := r.function i j ∨ i = n ∧ j = n'
  scope_iff := r.scope_iff
  function_iff := iff_of_new r.function_iff older

theorem within_addScope {n n' : ScopeId}
    (older : ∀ {s t : ScopeId}, r.scope s t → s < n ∧ t < n') :
    r.Within (r.addScope n n' older) := ⟨.inl, id⟩

theorem within_addFunction {n n' : Nat}
    (older : ∀ {i j : Nat}, r.function i j → i < n ∧ j < n') :
    r.Within (r.addFunction n n' older) := ⟨id, .inl⟩

theorem rel_mono {α : Type} {R R' : α → α → Prop} {a b : Option α} (h : Option.Rel R a b)
    (imp : ∀ x y, R x y → R' x y) : Option.Rel R' a b := by
  cases h with
  | some h => exact .some (imp _ _ h)
  | none => exact .none

/-- It is enough to look at scopes that are left of those that stand for each other. -/
theorem Mirrors.restrict {m m' n n' : Machine H} (h : r.Mirrors m m') (sound : n.Sound)
    (sound' : n'.Sound) (globals : n.globals = m.globals) (globals' : n'.globals = m'.globals)
    (closures : n.store.closures = m.store.closures)
    (closures' : n'.store.closures = m'.store.closures)
    (kept : ∀ s, n.Alive s → n.store.scope s = m.store.scope s)
    (kept' : ∀ t, n'.Alive t → n'.store.scope t = m'.store.scope t) :
    (r.restrict n.Alive n'.Alive).Mirrors n n' where
  globals := ⟨by rw [globals, globals']; exact h.globals, .inl rfl, .inl rfl⟩
  parent {s t} hst := by
    obtain ⟨both, hs, ht⟩ := hst
    have refs {p : ScopeId} (inside : (n.store.scope s).parent = some p) : n.Alive p :=
      sound.refs s p (Scope.mem_refs.2 (.inl inside))
    have refs' {q : ScopeId} (inside : (n'.store.scope t).parent = some q) : n'.Alive q :=
      sound'.refs t q (Scope.mem_refs.2 (.inl inside))
    have parents := h.parent both
    rw [← kept s hs, ← kept' t ht] at parents
    generalize hp : (n.store.scope s).parent = p at parents ⊢
    generalize hq : (n'.store.scope t).parent = q at parents ⊢
    cases parents with
    | some pair => exact .some ⟨pair, refs hp, refs' hq⟩
    | none => exact .none
  value {s t} hst name := by
    obtain ⟨both, hs, ht⟩ := hst
    have values := h.value both name
    rw [← kept s hs, ← kept' t ht] at values
    have refs {v : Value} (bound : (n.store.scope s).get? name = some v) {f : Closure}
        (hf : v.closure? = some f) : n.Alive f.scope :=
      sound.refs s f.scope (Scope.mem_refs.2 (.inr ⟨_, Scope.mem_of_get? bound, f, hf, rfl⟩))
    have refs' {v : Value} (bound : (n'.store.scope t).get? name = some v) {f : Closure}
        (hf : v.closure? = some f) : n'.Alive f.scope :=
      sound'.refs t f.scope (Scope.mem_refs.2 (.inr ⟨_, Scope.mem_of_get? bound, f, hf, rfl⟩))
    generalize hv : (n.store.scope s).get? name = v at values ⊢
    generalize hw : (n'.store.scope t).get? name = w at values ⊢
    cases values with
    | none => exact .none
    | some same =>
      cases same with
      | plain plain => exact .some (.plain plain)
      | verse function scope => exact .some (.verse function ⟨scope, refs hv rfl, refs' hw rfl⟩)
  made hij := by
    rw [closures, closures']
    exact h.made hij

end Renumbering

/-- The two machines differ at most in their hosts, their counters and their logs. -/
structure Machine.SameScopes (m m' : Machine H) : Prop where
  store : m'.store = m.store
  globals : m'.globals = m.globals
  tracked : m'.tracked = m.tracked

theorem Machine.SameScopes.next {m m' : Machine H} (same : m.SameScopes m') (sound : m.Sound) :
    m'.Sound ∧ m.Extends m' :=
  sound.of_same (congrArg Store.scopes same.store) same.globals same.tracked

/-- Two machines on which programs do the same. -/
structure Twins (H : Type) where
  left : Machine H
  right : Machine H
  numbers : Renumbering
  mirrors : numbers.Mirrors left right
  alive : ∀ {s t : ScopeId}, numbers.scope s t → left.Alive s ∧ right.Alive t
  sound : left.Sound ∧ right.Sound
  ordered : left.Ordered ∧ right.Ordered
  host : left.host = right.host
  counters : left.SameCounters right

namespace Twins

open Renumbering (rel_mono)

variable {T U V : Twins H} {s t : ScopeId} {name : String} {v w : Value}

/-- What stands for something on the first twins still does on the second ones, and nothing that
was there is gone. -/
structure Later (T U : Twins H) : Prop where
  numbers : T.numbers.Within U.numbers
  left : T.left.Extends U.left
  right : T.right.Extends U.right

theorem Later.refl (T : Twins H) : T.Later T := ⟨.refl _, .refl _, .refl _⟩

theorem Later.trans (h : T.Later U) (h' : U.Later V) : T.Later V :=
  ⟨h.numbers.trans h'.numbers, h.left.trans h'.left, h.right.trans h'.right⟩

abbrev Same (T : Twins H) : Value → Value → Prop := T.numbers.Same

theorem lt_size (T : Twins H) (h : T.numbers.scope s t) :
    s < T.left.store.scopes.size ∧ t < T.right.store.scopes.size :=
  ⟨T.sound.1.lt_size (T.alive h).1, T.sound.2.lt_size (T.alive h).2⟩

theorem holds_of_same (h : T.Same v w) : T.left.Holds v ∧ T.right.Holds w := by
  cases h with
  | plain plain =>
    have none (f : Closure) (hf : v.closure? = some f) : False := by
      rw [plain] at hf
      cases hf
    exact ⟨fun f hf => (none f hf).elim, fun f hf => (none f hf).elim⟩
  | verse function scope =>
    refine ⟨?_, ?_⟩
    · rintro f ⟨⟩
      exact (T.alive scope).1
    · rintro f ⟨⟩
      exact (T.alive scope).2

/-- The scopes in which a name is found stand for each other. -/
theorem owner? (T : Twins H) (s t : ScopeId) (h : T.numbers.scope s t) (name : String) :
    Option.Rel T.numbers.scope (T.left.store.owner? s name) (T.right.store.owner? t name) := by
  have values := T.mirrors.value h name
  have parents := T.mirrors.parent h
  have younger := T.ordered.1 s
  have younger' := T.ordered.2 t
  unfold Store.owner? Scope.binds
  generalize (T.left.store.scope s).get? name = v at values ⊢
  generalize (T.right.store.scope t).get? name = w at values ⊢
  cases values with
  | some => exact .some h
  | none =>
    generalize (T.left.store.scope s).parent = p at parents younger ⊢
    generalize (T.right.store.scope t).parent = q at parents younger' ⊢
    cases parents with
    | none => exact .none
    | @some p q inside =>
      have less := younger p rfl
      have less' := younger' q rfl
      simp only [Option.isSome_none, Bool.false_eq_true, if_false, if_pos less, if_pos less']
      exact owner? T p q inside name
termination_by s

theorem get? (T : Twins H) (h : T.numbers.scope s t) (name : String) :
    Option.Rel T.Same (T.left.store.get? s name) (T.right.store.get? t name) := by
  have owners := T.owner? s t h name
  unfold Store.get?
  generalize T.left.store.owner? s name = o at owners ⊢
  generalize T.right.store.owner? t name = o' at owners ⊢
  cases owners with
  | some both => exact T.mirrors.value both name
  | none => exact .none

/-- Other machines with the same scopes. -/
def inPlace (T : Twins H) (left right : Machine H) (same : T.left.SameScopes left)
    (same' : T.right.SameScopes right) (host : left.host = right.host)
    (counters : left.SameCounters right) : Twins H where
  left
  right
  numbers := T.numbers
  host
  counters
  mirrors := {
    globals := by
      rw [same.globals, same'.globals]
      exact T.mirrors.globals
    parent := by
      rw [same.store, same'.store]
      exact T.mirrors.parent
    value := by
      rw [same.store, same'.store]
      exact T.mirrors.value
    made := by
      rw [same.store, same'.store]
      exact T.mirrors.made }
  alive h := by
    unfold Machine.Alive
    rw [same.store, same.globals, same'.store, same'.globals]
    exact T.alive h
  sound := ⟨(same.next T.sound.1).1, (same'.next T.sound.2).1⟩
  ordered :=
    ⟨T.ordered.1.of_parent fun s => by rw [same.store],
      T.ordered.2.of_parent fun s => by rw [same'.store]⟩

theorem later_inPlace {left right : Machine H} {same : T.left.SameScopes left}
    {same' : T.right.SameScopes right} {host : left.host = right.host}
    {counters : left.SameCounters right} :
    T.Later (T.inPlace left right same same' host counters) :=
  ⟨.refl _, (same.next T.sound.1).2, (same'.next T.sound.2).2⟩

def bind (T : Twins H) (name : String) (hs : T.numbers.scope s t) (hv : T.Same v w) : Twins H where
  left := { T.left with store := T.left.store.bind s name v }
  right := { T.right with store := T.right.store.bind t name w }
  numbers := T.numbers
  host := T.host
  counters := T.counters
  mirrors := {
    globals := T.mirrors.globals
    parent := by
      simp only [Store.parent_bind]
      exact T.mirrors.parent
    value {a b} both n := by
      have same := T.numbers.scope_iff both hs
      have old := T.mirrors.value both n
      obtain ⟨size, size'⟩ := T.lt_size hs
      rw [Store.scope_bind, Store.scope_bind]
      by_cases here : a = s
      · rw [if_pos ⟨here, size⟩, if_pos ⟨same.1 here, size'⟩, Scope.get?_bind, Scope.get?_bind]
        split
        · exact .some hv
        · exact old
      · rw [if_neg fun h => here h.1, if_neg fun h => here (same.2 h.1)]
        exact old
    made := T.mirrors.made }
  alive h :=
    ⟨(Machine.extends_bind ..).alive (T.alive h).1, (Machine.extends_bind ..).alive (T.alive h).2⟩
  sound :=
    ⟨T.sound.1.bind name (T.alive hs).1 (holds_of_same hv).1,
      T.sound.2.bind name (T.alive hs).2 (holds_of_same hv).2⟩
  ordered :=
    ⟨T.ordered.1.of_parent fun _ => Store.parent_bind,
      T.ordered.2.of_parent fun _ => Store.parent_bind⟩

theorem later_bind (T : Twins H) (name : String) (hs : T.numbers.scope s t) (hv : T.Same v w) :
    T.Later (T.bind name hs hv) :=
  ⟨.refl _, Machine.extends_bind .., Machine.extends_bind ..⟩

def withScope (T : Twins H) (hs : T.numbers.scope s t) : Twins H where
  left := T.left.withScope s
  right := T.right.withScope t
  numbers := T.numbers.addScope T.left.store.scopes.size T.right.store.scopes.size T.lt_size
  host := T.host
  counters := T.counters
  mirrors := {
    globals := .inl T.mirrors.globals
    parent {a b} both := by
      unfold Machine.withScope
      dsimp only
      rcases both with old | ⟨rfl, rfl⟩
      · obtain ⟨size, size'⟩ := T.lt_size old
        rw [Store.scope_newChild_of_lt size, Store.scope_newChild_of_lt size']
        exact rel_mono (T.mirrors.parent old) fun _ _ => .inl
      · rw [Store.scope_newChild, if_pos rfl, Store.scope_newChild, if_pos rfl]
        exact .some (.inl hs)
    value {a b} both n := by
      unfold Machine.withScope
      dsimp only
      rcases both with old | ⟨rfl, rfl⟩
      · obtain ⟨size, size'⟩ := T.lt_size old
        rw [Store.scope_newChild_of_lt size, Store.scope_newChild_of_lt size']
        exact rel_mono (T.mirrors.value old n) fun _ _ same =>
          same.mono (Renumbering.within_addScope T.lt_size)
      · rw [Store.scope_newChild, if_pos rfl, Store.scope_newChild, if_pos rfl]
        exact .none
    made := T.mirrors.made }
  alive := by
    rintro a b (old | ⟨rfl, rfl⟩)
    · exact ⟨(T.left.extends_withScope s).alive (T.alive old).1,
        (T.right.extends_withScope t).alive (T.alive old).2⟩
    · exact ⟨T.left.alive_withScope s, T.right.alive_withScope t⟩
  sound := ⟨T.sound.1.withScope (T.alive hs).1, T.sound.2.withScope (T.alive hs).2⟩
  ordered := ⟨T.ordered.1.withScope (T.lt_size hs).1, T.ordered.2.withScope (T.lt_size hs).2⟩

theorem later_withScope (T : Twins H) (hs : T.numbers.scope s t) : T.Later (T.withScope hs) :=
  ⟨Renumbering.within_addScope T.lt_size, T.left.extends_withScope s, T.right.extends_withScope t⟩

/-- A function has been made on both machines. -/
def capture (T : Twins H) (name : String) (params : List String) (body : List Stmt)
    (s t : ScopeId) : Twins H where
  left := { T.left with store := (T.left.store.capture name params body s).2 }
  right := { T.right with store := (T.right.store.capture name params body t).2 }
  numbers := T.numbers.addFunction T.left.store.closures T.right.store.closures T.mirrors.made
  host := T.host
  counters := T.counters
  mirrors := {
    globals := T.mirrors.globals
    parent := T.mirrors.parent
    value both n := rel_mono (T.mirrors.value both n) fun _ _ same =>
      same.mono (Renumbering.within_addFunction T.mirrors.made)
    made := by
      rintro i j (old | ⟨rfl, rfl⟩)
      · exact ⟨Nat.lt_succ_of_lt (T.mirrors.made old).1, Nat.lt_succ_of_lt (T.mirrors.made old).2⟩
      · exact ⟨Nat.lt_succ_self _, Nat.lt_succ_self _⟩ }
  alive := T.alive
  sound := ⟨(T.sound.1.capture name params body s).1, (T.sound.2.capture name params body t).1⟩
  ordered := ⟨T.ordered.1.of_parent fun _ => rfl, T.ordered.2.of_parent fun _ => rfl⟩

theorem later_capture (T : Twins H) (name : String) (params : List String) (body : List Stmt)
    (s t : ScopeId) : T.Later (T.capture name params body s t) :=
  ⟨Renumbering.within_addFunction T.mirrors.made, (T.sound.1.capture name params body s).2,
    (T.sound.2.capture name params body t).2⟩

/-- The functions that have been made stand for each other. -/
theorem same_capture (T : Twins H) (name : String) (params : List String) (body : List Stmt)
    (hs : T.numbers.scope s t) : (T.capture name params body s t).Same
      (.verse (T.left.store.capture name params body s).1)
      (.verse (T.right.store.capture name params body t).1) :=
  .verse (.inr ⟨rfl, rfl⟩) hs

theorem exists_bindAll {bindings bindings' : List (String × Value)} (T : Twins H)
    (hs : T.numbers.scope s t) (h : List.Forall₂ T.numbers.SameBinding bindings bindings') :
    ∃ U : Twins H, T.Later U ∧ U.numbers = T.numbers ∧
      U.left = { T.left with
        store := bindings.foldl (fun st b => st.bind s b.1 b.2) T.left.store } ∧
      U.right = { T.right with
        store := bindings'.foldl (fun st b => st.bind t b.1 b.2) T.right.store } := by
  induction bindings generalizing T bindings' with
  | nil =>
    cases h
    exact ⟨T, .refl T, rfl, rfl, rfl⟩
  | cons b bindings ih =>
    cases h with
    | @cons _ b' _ _ hb rest =>
      obtain ⟨name, v⟩ := b
      obtain ⟨name', w⟩ := b'
      obtain ⟨rfl, hv⟩ : name = name' ∧ T.Same v w := hb
      obtain ⟨U, later, numbers, left, right⟩ := ih (T.bind name hs hv) hs rest
      exact ⟨U, (T.later_bind name hs hv).trans later, numbers, left, right⟩

theorem forall₂_zip {vs ws : List Value} (names : List String) (h : List.Forall₂ T.Same vs ws) :
    List.Forall₂ T.numbers.SameBinding (names.zip vs) (names.zip ws) := by
  induction h generalizing names with
  | nil => simp
  | cons same _ ih =>
    cases names with
    | nil => exact .nil
    | cons name names => exact .cons ⟨rfl, same⟩ (ih names)

/-- The machines on which the bodies of functions start that stand for each other. -/
theorem exists_enter {f g : Closure} {args args' : List Value} (T : Twins H)
    (hf : T.Same (.verse f) (.verse g)) (hargs : List.Forall₂ T.Same args args') :
    ∃ U : Twins H, T.Later U ∧
      U.numbers.scope T.left.store.scopes.size T.right.store.scopes.size ∧
        U.left = T.left.enter f args ∧ U.right = T.right.enter g args' := by
  cases hf with
  | plain plain => cases plain
  | @verse _ id scope _ hs =>
    let opened := T.withScope hs
    have later := T.later_withScope hs
    have bindings :
        List.Forall₂ opened.numbers.SameBinding (f.params.zip args) (f.params.zip args') := by
      have values : List.Forall₂ opened.Same args args' :=
        hargs.imp fun _ _ same => same.mono later.numbers
      exact forall₂_zip f.params values
    obtain ⟨U, bound, numbers, left, right⟩ :=
      opened.exists_bindAll (s := T.left.store.scopes.size) (t := T.right.store.scopes.size)
        (.inr ⟨rfl, rfl⟩) bindings
    let entered := U.inPlace (T.left.enter f args) (T.right.enter { f with id, scope } args')
      (by rw [left]; exact ⟨rfl, rfl, rfl⟩) (by rw [right]; exact ⟨rfl, rfl, rfl⟩) T.host
      ⟨congrArg (· + 1) T.counters.1, T.counters.2⟩
    refine ⟨entered, (later.trans bound).trans later_inPlace, ?_, rfl, rfl⟩
    change U.numbers.scope _ _
    rw [numbers]
    exact .inr ⟨rfl, rfl⟩

end Twins

end CypherLang
