import Mathlib
import CypherLang.Eval

namespace CypherLang

variable {H : Type}

namespace Run

theorem bind_of_ok {x : Run H α} {f : α → Run H β} {m m' : Machine H} {a : α} (h : x m = .ok a m') :
    (x >>= f) m = f a m' := by
  change EStateM.bind x f m = f a m'
  simp only [EStateM.bind, h]

theorem bind_of_error {x : Run H α} {f : α → Run H β} {m m' : Machine H} {e : Halt}
    (h : x m = .error e m') : (x >>= f) m = .error e m' := by
  change EStateM.bind x f m = .error e m'
  simp only [EStateM.bind, h]

/-- The machine at the end of a run. -/
def final (x : Run H α) (m : Machine H) : Machine H :=
  match x m with
  | .ok _ last => last
  | .error _ last => last

theorem final_of_ok {x : Run H α} {m last : Machine H} {a : α} (h : x m = .ok a last) :
    x.final m = last := by
  unfold final
  rw [h]

theorem final_of_error {x : Run H α} {m last : Machine H} {e : Halt} (h : x m = .error e last) :
    x.final m = last := by
  unfold final
  rw [h]

theorem final_bind_of_ok {x : Run H α} {f : α → Run H β} {m m' : Machine H} {a : α}
    (h : x m = .ok a m') : (x >>= f).final m = (f a).final m' := by
  unfold final
  rw [bind_of_ok h]

/-- Why a run fails, if it does. -/
def halt? (x : Run H α) (m : Machine H) : Option Halt :=
  match x m with
  | .ok _ _ => none
  | .error h _ => some h

/-- Why a run fails, if it does, and the host that it leaves behind. -/
def fault? (x : Run H α) (m : Machine H) : Option (Halt × H) :=
  match x m with
  | .ok _ _ => none
  | .error h last => some (h, last.host)

theorem halt?_eq_some_iff {x : Run H α} {m : Machine H} {h : Halt} :
    x.halt? m = some h ↔ ∃ c, x.fault? m = some (h, c) := by
  unfold halt? fault?
  cases x m <;> simp

theorem fault?_bind {x : Run H α} {f : α → Run H β} {m : Machine H} {w : Halt × H}
    (failed : (x >>= f).fault? m = some w) :
    x.fault? m = some w ∨ ∃ a m', x m = .ok a m' ∧ (f a).fault? m' = some w := by
  unfold fault? at failed ⊢
  cases hx : x m with
  | ok a m' =>
    rw [bind_of_ok hx] at failed
    exact .inr ⟨a, m', rfl, failed⟩
  | error e m' =>
    rw [bind_of_error hx] at failed
    exact .inl failed

/-- A sequence fails in its first part or in the second one. -/
theorem halt?_bind {x : Run H α} {f : α → Run H β} {m : Machine H} {h : Halt}
    (failed : (x >>= f).halt? m = some h) :
    x.halt? m = some h ∨ ∃ a m', x m = .ok a m' ∧ (f a).halt? m' = some h := by
  simp only [halt?_eq_some_iff] at failed ⊢
  obtain ⟨c, failed⟩ := failed
  rcases fault?_bind failed with first | ⟨a, m', ran, second⟩
  · exact .inl ⟨c, first⟩
  · exact .inr ⟨a, m', ran, c, second⟩

theorem ensuring_of_ok {x : Run H α} {after : Option α → Machine H → Machine H}
    {m last : Machine H} {a : α} (h : x m = .ok a last) :
    ensuring after x m = .ok a (after (some a) last) := by
  simp only [ensuring, h]

theorem ensuring_of_error {x : Run H α} {after : Option α → Machine H → Machine H}
    {m last : Machine H} {e : Halt} (h : x m = .error e last) :
    ensuring after x m = .error e (after none last) := by
  simp only [ensuring, h]

theorem get_bind (f : Machine H → Run H α) (m : Machine H) : (get >>= f) m = f m m := rfl

section Names

variable {m : Machine H} {s : ScopeId} {name : String}

theorem lookup_of_some {v : Value} (h : m.store.get? s name = some v) :
    lookup s name m = .ok v m := by
  refine (get_bind _ m).trans ?_
  rw [h]
  rfl

theorem lookup_of_none (h : m.store.get? s name = none) :
    lookup s name m = .error (.error (.undefinedVariable name .read)) m := by
  refine (get_bind _ m).trans ?_
  rw [h]
  rfl

theorem lookup_ok {v : Value} {m' : Machine H} (h : lookup s name m = .ok v m') :
    m.store.get? s name = some v ∧ m = m' := by
  cases found : m.store.get? s name with
  | some w =>
    rw [lookup_of_some found] at h
    cases h
    exact ⟨rfl, rfl⟩
  | none =>
    rw [lookup_of_none found] at h
    cases h

theorem assign_of_some {o : ScopeId} (v : Value) (h : m.store.owner? s name = some o) :
    assign s name v m = .ok () { m with store := m.store.bind o name v } := by
  simp only [assign, h]

theorem assign_of_none (v : Value) (h : m.store.owner? s name = none) :
    assign s name v m = .error (.error (.undefinedVariable name .write)) m := by
  simp only [assign, h]

end Names

theorem hostCall_of_ok {f : H → Except String α × H} {m : Machine H} {a : α} {host : H}
    (h : f m.host = (.ok a, host)) :
    hostCall f m = .ok a { m with host } := by
  simp only [hostCall, h]

theorem hostCall_of_error {f : H → Except String α × H} {m : Machine H}
    {reason : String} {host : H} (h : f m.host = (.error reason, host)) :
    hostCall f m = .error (.error (.io reason)) { m with host } := by
  simp only [hostCall, h]

/-- The global scope. -/
def globals : Run H ScopeId := fun m => .ok m.globals m

/-- The value of a name, if it has one. -/
def find (s : ScopeId) (name : String) : Run H (Option Value) := fun m =>
  .ok (m.store.get? s name) m

/-- What a node does on its own, without the nodes below it. -/
inductive Primitive [Host H] : {α : Type} → Run H α → Prop
  | pure {α : Type} (a : α) : Primitive (pure a)
  | fail {α : Type} (e : RuntimeError) : Primitive (fail e : Run H α)
  | log (e : Event) : Primitive (log e)
  | globals : Primitive globals
  | find (s : ScopeId) (name : String) : Primitive (find s name)
  | lookup (s : ScopeId) (name : String) : Primitive (lookup s name)
  | declareValue (s : ScopeId) (name : String) (v : Value) : Primitive (declareValue s name v)
  | declareVerse (s : ScopeId) (name : String) (params : List String) (body : List Stmt) :
      Primitive (declareVerse s name params body)
  | assign (s : ScopeId) (name : String) (v : Value) : Primitive (assign s name v)
  | openScope (s : ScopeId) : Primitive (openScope s)
  | write (line : String) : Primitive (hostCall fun h : H => Host.write h line)
  | read : Primitive (hostCall (Host.read : H → _))

theorem Primitive.ofExcept [Host H] (r : Except RuntimeError α) :
    Primitive (ofExcept r : Run H α) := by
  cases r with
  | ok a => exact .pure a
  | error e => exact .fail e

end Run

namespace Run

variable {limits : Limits} {m : Machine H} {x : Run H α}

theorem deeper_of_le (h : limits.levels ≤ m.levels) :
    deeper limits x m = .error (.error (.stackOverflow limits.levels)) m := by
  change (if limits.levels ≤ m.levels then _ else _ : Run H α) m = _
  rw [if_pos h]
  rfl

theorem deeper_of_lt (h : m.levels < limits.levels) :
    deeper limits x m = ensuring (fun _ m => { m with levels := m.levels - 1 }) x
      { m with levels := m.levels + 1 } := by
  change (if limits.levels ≤ m.levels then _ else _ : Run H α) m = _
  rw [if_neg (Nat.not_le.2 h)]
  rfl

theorem final_deeper (h : m.levels < limits.levels) :
    (deeper limits x).final m =
      let last := x.final { m with levels := m.levels + 1 }
      { last with levels := last.levels - 1 } := by
  cases result : x { m with levels := m.levels + 1 } with
  | ok a last =>
    rw [final_of_ok ((deeper_of_lt h).trans (ensuring_of_ok result)), final_of_ok result]
  | error e last =>
    rw [final_of_error ((deeper_of_lt h).trans (ensuring_of_error result)), final_of_error result]

theorem forM_declareValue (s : ScopeId) (bindings : List (String × Value)) (m : Machine H) :
    (bindings.forM fun (name, v) => declareValue s name v) m =
      .ok () { m with store := bindings.foldl (fun st b => st.bind s b.1 b.2) m.store } := by
  induction bindings generalizing m with
  | nil => rfl
  | cons b bindings ih => exact ih { m with store := m.store.bind s b.1 b.2 }

end Run

namespace Machine

/-- The machine on which the body of a called function starts. -/
def enter (m : Machine H) (f : Closure) (args : List Value) : Machine H :=
  let (scope, store) := m.store.newChild f.scope
  { m with
    store := (f.params.zip args).foldl (fun st b => st.bind scope b.1 b.2) store
    calls := m.calls + 1
    tracked := m.tracked.push scope
    log := m.log.add (.call f.name args.length m.calls) }

/-- The machine after a call on `m` whose body ends with `c` on the machine `last`. -/
def leave (m : Machine H) (c : Option Completion) (last : Machine H) : Machine H :=
  { last with calls := last.calls - 1 }.collect m.tracked.size (c.bind Completion.closure?)

end Machine

namespace Eval

variable {limits : Limits} {below : Evaluator H} {f : Closure} {args : List Value} {m : Machine H}

theorem activate_of_le (h : limits.calls ≤ m.calls) :
    activate limits below f args m = .error (.error (.recursionLimit limits.calls)) m := by
  change (if limits.calls ≤ m.calls then _ else _ : Run H Completion) m = _
  rw [if_pos h]
  rfl

theorem activate_of_lt (h : m.calls < limits.calls) :
    activate limits below f args m =
      Run.ensuring m.leave (below.block f.body m.store.scopes.size) (m.enter f args) := by
  change (if limits.calls ≤ m.calls then _ else _ : Run H Completion) m = _
  rw [if_neg (Nat.not_le.2 h)]
  exact Run.bind_of_ok (Run.forM_declareValue _ _ _)

end Eval

namespace Value

/-- What an operator gives: a value that is no function, or a complaint about its operands. -/
def Computed (op : BinOp) (left right : Value) : Except RuntimeError Value → Prop
  | .ok v => v.closure? = none
  | .error e => e = unsuited op left right ∨ e = .divisionByZero

theorem computed_numeric (op : BinOp) (onInt : Int → Int → Int)
    (onFloat : Binary64 → Binary64 → Binary64) (left right : Value) :
    Computed op left right (numeric op onInt onFloat left right) := by
  have exact {n : Int} {v : Value} (h : ofInt? n = some v) : v.closure? = none := by
    unfold ofInt? at h
    split at h <;> cases h
    rfl
  unfold numeric
  dsimp only
  split
  · rename_i v h
    split at h
    · exact exact h
    · cases h
  · split
    · rfl
    · exact .inl rfl

theorem computed_add (left right : Value) : Computed .add left right (add left right) := by
  unfold add
  split
  · rfl
  · rfl
  · exact computed_numeric ..

theorem computed_divide (left right : Value) : Computed .div left right (divide left right) := by
  unfold divide
  split
  · split
    · exact .inr rfl
    · rfl
  · exact .inl rfl

theorem computed_order (op : BinOp) (left right : Value) (f : Option Ordering → Bool) :
    Computed op left right ((order op left right).map fun o => bool (f o)) := by
  unfold order
  split
  · rfl
  · rfl
  · split
    · rfl
    · exact .inl rfl

theorem computed_apply (op : BinOp) (left right : Value) :
    Computed op left right (left.apply op right) := by
  cases op with
  | add => exact computed_add ..
  | sub => exact computed_numeric ..
  | mul => exact computed_numeric ..
  | div => exact computed_divide ..
  | eq => exact rfl
  | greater => exact computed_order _ _ _ (· == some .gt)
  | less => exact computed_order _ _ _ (· == some .lt)

theorem minus_cases (v : Value) :
    (∃ r, v.minus = .ok r ∧ r.closure? = none) ∨
      v.minus = .error (.typeMismatch "-" v.kindName none) := by
  cases v with
  | int n =>
    refine .inl ⟨_, rfl, ?_⟩
    unfold ofInt?
    split <;> rfl
  | float x => exact .inl ⟨_, rfl, rfl⟩
  | _ => exact .inr rfl

end Value
end CypherLang
