import CypherLang.Proofs.Eval.Moments

namespace CypherLang

variable {H : Type}

structure Discipline (H : Type) where
  /-- What holds of the machine. -/
  machine : Machine H → Prop
  /-- How a run may change the machine. -/
  change : Machine H → Machine H → Prop := fun _ _ => True
  /-- The values that there may be. -/
  value : Machine H → Value → Prop := fun _ _ => True
  /-- The scopes in which a run may go on. -/
  scope : Machine H → ScopeId → Prop := fun _ _ => True
  /-- The statements that may be executed in a scope. -/
  stmt : Stmt → ScopeId → Prop := fun _ _ => True

namespace Discipline

/-- The second machine may come after the first one. -/
structure Next (D : Discipline H) (m m' : Machine H) : Prop where
  machine : D.machine m'
  change : D.change m m'

/-- The completions of blocks that return only values there may be. -/
def completion (D : Discipline H) (m : Machine H) (c : Completion) : Prop := D.value m c.value

/-- Every single step keeps to the discipline. -/
structure Kept (D : Discipline H) : Prop where
  refl : ∀ m, D.change m m
  trans : ∀ {m₁ m₂ m₃ : Machine H}, D.change m₁ m₂ → D.change m₂ m₃ → D.change m₁ m₃
  valueLater : ∀ {m m' : Machine H} {v : Value}, D.change m m' → D.value m v → D.value m' v
  scopeLater : ∀ {m m' : Machine H} {s : ScopeId}, D.change m m' → D.scope m s → D.scope m' s
  plain : ∀ {m : Machine H} {v : Value}, v.closure? = none → D.value m v
  found : ∀ {m : Machine H} {s : ScopeId} {name : String} {v : Value},
    D.machine m → D.scope m s → m.store.get? s name = some v → D.value m v
  logs : ∀ {m : Machine H} (e : Event), D.machine m → D.Next m { m with log := m.log.add e }
  outside : ∀ {m : Machine H} (host : H) (levels : Nat),
    D.machine m → D.Next m { m with host, levels }
  spit : ∀ {m : Machine H} {s : ScopeId} {name : String} {e : Expr} {v : Value},
    D.machine m → D.scope m s → D.stmt (.spit name e) s → D.value m v →
      D.Next m { m with store := m.store.bind s name v }
  verse : ∀ {m : Machine H} {s : ScopeId} {name : String} {params : List String} {body : List Stmt},
    D.machine m → D.scope m s → D.stmt (.verse name params body) s →
      let made := m.store.capture name params body s
      D.Next m { m with store := made.2.bind s name (.verse made.1) }
  assign : ∀ {m : Machine H} {s o : ScopeId} {name : String} {e : Expr} {v : Value},
    D.machine m → D.scope m s → D.stmt (.assign name e) s → D.value m v →
      m.store.owner? s name = some o → D.Next m { m with store := m.store.bind o name v }
  branch : ∀ {m : Machine H} {s : ScopeId} {c : Expr} {thenBranch : List Stmt}
    {elseBranch : Option (List Stmt)},
    D.machine m → D.scope m s → D.stmt (.battle c thenBranch elseBranch) s →
      D.Next m (m.withScope s) ∧ D.scope (m.withScope s) m.store.scopes.size ∧
        (∀ x ∈ thenBranch, D.stmt x m.store.scopes.size) ∧
          ∀ body ∈ elseBranch, ∀ x ∈ body, D.stmt x m.store.scopes.size
  enter : ∀ {m : Machine H} {f : Closure} {args : List Value},
    D.machine m → D.value m (.verse f) → (∀ v ∈ args, D.value m v) →
      D.Next m (m.enter f args) ∧ D.scope (m.enter f args) m.store.scopes.size ∧
        ∀ x ∈ f.body, D.stmt x m.store.scopes.size
  leave : ∀ {m last : Machine H} (c : Option Completion),
    D.machine m → D.Next m last → D.Next m (m.leave c last)
  returned : ∀ {m last : Machine H} {c : Completion},
    D.machine m → D.Next m last → D.completion last c → D.completion (m.leave (some c) last) c

/-- A run on `m` that keeps to the discipline and gives only results with `Q`. -/
def Keeps (D : Discipline H) (m : Machine H) (x : Run H α) (Q : Machine H → α → Prop) : Prop :=
  D.Next m (x.final m) ∧ ∀ a last, x m = .ok a last → Q last a

/-- An evaluator that keeps to the discipline. -/
structure Obeys (D : Discipline H) (below : Evaluator H) : Prop where
  expr : ∀ {m : Machine H} (e : Expr) (s : ScopeId),
    D.machine m → D.scope m s → D.Keeps m (below.expr e s) D.value
  block : ∀ {m : Machine H} (body : List Stmt) (s : ScopeId), D.machine m → D.scope m s →
    (∀ x ∈ body, D.stmt x s) → D.Keeps m (below.block body s) D.completion

variable {D : Discipline H} {m m' last : Machine H}

namespace Keeps

theorem of_ok {x : Run H α} {Q : Machine H → α → Prop} {a : α} (h : D.Keeps m x Q)
    (hx : x m = .ok a last) : D.Next m last ∧ Q last a := by
  obtain ⟨next, result⟩ := h
  rw [Run.final_of_ok hx] at next
  exact ⟨next, result a last hx⟩

theorem step {x : Run H α} {Q : Machine H → α → Prop} {a : α} (hx : x m = .ok a last)
    (next : D.Next m last) (ha : Q last a) : D.Keeps m x Q := by
  refine ⟨?_, ?_⟩
  · rw [Run.final_of_ok hx]
    exact next
  · intro b last' hb
    rw [hx] at hb
    cases hb
    exact ha

theorem stop {x : Run H α} {Q : Machine H → α → Prop} {h : Halt} (hx : x m = .error h last)
    (next : D.Next m last) : D.Keeps m x Q := by
  refine ⟨?_, ?_⟩
  · rw [Run.final_of_error hx]
    exact next
  · intro b last' hb
    rw [hx] at hb
    cases hb

end Keeps

namespace Kept

variable {limits : Limits} {below : Evaluator H}

theorem stays (kept : D.Kept) (hm : D.machine m) : D.Next m m := ⟨hm, kept.refl m⟩

theorem after (kept : D.Kept) (next : D.Next m m') (next' : D.Next m' last) : D.Next m last :=
  ⟨next'.machine, kept.trans next.change next'.change⟩

theorem pure (kept : D.Kept) {a : α} {Q : Machine H → α → Prop} (hm : D.machine m) (ha : Q m a) :
    D.Keeps m (pure a) Q :=
  .step rfl (kept.stays hm) ha

theorem fail (kept : D.Kept) {e : RuntimeError} {Q : Machine H → α → Prop} (hm : D.machine m) :
    D.Keeps m (Run.fail e) Q :=
  .stop rfl (kept.stays hm)

theorem bind (kept : D.Kept) {x : Run H α} {f : α → Run H β} {Q : Machine H → α → Prop}
    {R : Machine H → β → Prop} (hx : D.Keeps m x Q)
    (hf : ∀ a m', D.Next m m' → Q m' a → D.Keeps m' (f a) R) : D.Keeps m (x >>= f) R := by
  cases h : x m with
  | ok a m' =>
    obtain ⟨next, ha⟩ := hx.of_ok h
    obtain ⟨next', result⟩ := hf a m' next ha
    unfold Keeps Run.final
    rw [Run.bind_of_ok h]
    exact ⟨kept.after next next', result⟩
  | error e m' =>
    have next := hx.1
    rw [Run.final_of_error h] at next
    exact .stop (Run.bind_of_error h) next

/-- A sequence whose first part is a single step. -/
theorem step_then (kept : D.Kept) {x : Run H α} {f : α → Run H β} {R : Machine H → β → Prop}
    {a : α} (hx : x m = .ok a m') (next : D.Next m m') (hf : D.Keeps m' (f a) R) :
    D.Keeps m (x >>= f) R := by
  apply kept.bind (Q := fun last b => last = m' ∧ b = a) (.step hx next ⟨rfl, rfl⟩)
  rintro _ _ _ ⟨rfl, rfl⟩
  exact hf

theorem fail_if (kept : D.Kept) {c : Prop} [Decidable c] {e : RuntimeError} {f : Unit → Run H α}
    {Q : Machine H → α → Prop} (hm : D.machine m) (hf : D.Keeps m (f ()) Q) :
    D.Keeps m (if c then (Run.fail e : Run H Unit) >>= f else f ()) Q := by
  by_cases h : c
  · rw [if_pos h]
    exact kept.bind (kept.fail (Q := fun _ _ => False) hm) fun _ _ _ absurd => absurd.elim
  · rw [if_neg h]
    exact hf

theorem mapM (kept : D.Kept) {f : α → Run H Value} {s : ScopeId}
    (hf : ∀ {m : Machine H} (a : α), D.machine m → D.scope m s → D.Keeps m (f a) D.value)
    (as : List α) (hm : D.machine m) (hs : D.scope m s) :
    D.Keeps m (as.mapM f) fun m vs => ∀ v ∈ vs, D.value m v := by
  induction as generalizing m with
  | nil => exact kept.pure hm nofun
  | cons a as ih =>
    rw [List.mapM_cons]
    apply kept.bind (hf a hm hs)
    intro v m' next hv
    apply kept.bind (ih next.machine (kept.scopeLater next.change hs))
    intro vs m'' next' hvs
    have hv := kept.valueLater next'.change hv
    exact kept.pure next'.machine (List.forall_mem_cons.2 ⟨hv, hvs⟩)

theorem ofExcept (kept : D.Kept) {r : Except RuntimeError α} {Q : Machine H → α → Prop}
    (hm : D.machine m) (h : ∀ a, r = .ok a → Q m a) : D.Keeps m (Run.ofExcept r) Q := by
  cases r with
  | ok a => exact kept.pure hm (h a rfl)
  | error e => exact kept.fail hm

theorem null (kept : D.Kept) : D.value m .null := kept.plain rfl

theorem normal (kept : D.Kept) (hm : D.machine m) :
    D.Keeps m (Pure.pure .normal : Run H Completion) D.completion :=
  kept.pure hm kept.null

theorem log (kept : D.Kept) (e : Event) (hm : D.machine m) :
    D.Keeps m (Run.log e) fun _ _ => True :=
  .step rfl (kept.logs e hm) trivial

theorem lookup (kept : D.Kept) (s : ScopeId) (name : String) (hm : D.machine m)
    (hs : D.scope m s) : D.Keeps m (Run.lookup s name) D.value := by
  cases found : m.store.get? s name with
  | some v => exact .step (Run.lookup_of_some found) (kept.stays hm) (kept.found hm hs found)
  | none => exact .stop (Run.lookup_of_none found) (kept.stays hm)

theorem hostCall (kept : D.Kept) (f : H → Except String α × H)
    (hm : D.machine m) : D.Keeps m (Run.hostCall f) fun _ _ => True := by
  rcases result : f m.host with ⟨reason | a, host⟩
  · exact .stop (Run.hostCall_of_error result) (kept.outside host m.levels hm)
  · exact .step (Run.hostCall_of_ok result) (kept.outside host m.levels hm) trivial

theorem deeper (kept : D.Kept) {x : Run H α} {Q : Machine H → α → Prop} (hm : D.machine m)
    (hx : D.Keeps m.descend x Q)
    (hQ : ∀ {m m' : Machine H} {a : α}, D.change m m' → Q m a → Q m' a) :
    D.Keeps m (Run.deeper limits x) Q := by
  by_cases room : limits.levels ≤ m.levels
  · exact .stop (Run.deeper_of_le room) (kept.stays hm)
  · have opened := kept.outside m.host (m.levels + 1) hm
    have entered := Run.deeper_of_lt (x := x) (Nat.not_le.1 room)
    have closed {last : Machine H} (next : D.Next m.descend last) :
        D.Next m { last with levels := last.levels - 1 } ∧
          D.change last { last with levels := last.levels - 1 } := by
      have closes := kept.outside last.host (last.levels - 1) next.machine
      exact ⟨kept.after opened (kept.after next closes), closes.change⟩
    cases h : x m.descend with
    | ok a last =>
      obtain ⟨next, ha⟩ := hx.of_ok h
      obtain ⟨next, change⟩ := closed next
      exact .step (entered.trans (Run.ensuring_of_ok h)) next (hQ change ha)
    | error e last =>
      have next := hx.1
      rw [Run.final_of_error h] at next
      exact .stop (entered.trans (Run.ensuring_of_error h)) (closed next).1

theorem activate (kept : D.Kept) (obeys : D.Obeys below) {f : Closure} {args : List Value}
    (hm : D.machine m) (hf : D.value m (.verse f)) (hargs : ∀ v ∈ args, D.value m v) :
    D.Keeps m (Eval.activate limits below f args) D.completion := by
  by_cases room : limits.calls ≤ m.calls
  · exact .stop (Eval.activate_of_le room) (kept.stays hm)
  · obtain ⟨opened, scope, body⟩ := kept.enter hm hf hargs
    have hx := obeys.block f.body m.store.scopes.size opened.machine scope body
    have entered : Eval.activate limits below f args m =
        Run.ensuring m.leave (below.block f.body m.store.scopes.size) (m.enter f args) :=
      Eval.activate_of_lt (Nat.not_le.1 room)
    cases h : below.block f.body m.store.scopes.size (m.enter f args) with
    | ok c last =>
      obtain ⟨next, hc⟩ := hx.of_ok h
      have next := kept.after opened next
      exact .step (entered.trans (Run.ensuring_of_ok h)) (kept.leave (some c) hm next)
        (kept.returned hm next hc)
    | error e last =>
      have next := hx.1
      rw [Run.final_of_error h] at next
      have next := kept.after opened next
      exact .stop (entered.trans (Run.ensuring_of_error h)) (kept.leave none hm next)

theorem apply (kept : D.Kept) (op : BinOp) (a b : Value) (hm : D.machine m) :
    D.Keeps m (Run.ofExcept (a.apply op b)) D.value := by
  apply kept.ofExcept hm
  intro v hv
  have computed := Value.computed_apply op a b
  rw [hv] at computed
  exact kept.plain computed

theorem minus (kept : D.Kept) (a : Value) (hm : D.machine m) :
    D.Keeps m (Run.ofExcept a.minus) D.value := by
  apply kept.ofExcept hm
  intro v hv
  rcases a.minus_cases with ⟨r, result, plain⟩ | result
  · rw [result] at hv
    cases hv
    exact kept.plain plain
  · rw [result] at hv
    cases hv

theorem conclude (kept : D.Kept) (obeys : D.Obeys below) (x : Stmt) (s : ScopeId) {v : Value}
    (hm : D.machine m) (hs : D.scope m s) (hx : D.stmt x s) (hv : D.value m v) :
    D.Keeps m (Eval.conclude below s v x) D.completion := by
  cases x with
  | spit name e => exact .step rfl (kept.spit hm hs hx hv) kept.null
  | assign name e =>
    cases owner : m.store.owner? s name with
    | some o =>
      have bound := kept.assign hm hs hx hv owner
      exact .step (Run.bind_of_ok (Run.assign_of_some v owner)) bound kept.null
    | none => exact .stop (Run.bind_of_error (Run.assign_of_none v owner)) (kept.stays hm)
  | battle c thenBranch elseBranch =>
    obtain ⟨opened, scope, first, second⟩ := kept.branch hm hs hx
    have inside {body : List Stmt} (hbody : ∀ y ∈ body, D.stmt y m.store.scopes.size) :
        D.Keeps m (Run.openScope s >>= fun scope => below.block body scope) D.completion :=
      kept.step_then (a := m.store.scopes.size) rfl opened
        (obeys.block body _ opened.machine scope hbody)
    unfold Eval.conclude
    dsimp only
    split
    · rename_i body chosen
      split at chosen
      · cases chosen
        exact inside first
      · exact inside (second body chosen)
    · exact kept.normal hm
  | ret => exact kept.pure hm hv
  | verse | expr => exact kept.normal hm

/-- The second operand of an operator and the operator itself. -/
theorem applyTo (kept : D.Kept) (obeys : D.Obeys below) (op : BinOp) (a : Value) (right : Expr)
    (s : ScopeId) (hm : D.machine m) (hs : D.scope m s) :
    D.Keeps m (below.expr right s >>= fun b => Run.ofExcept (a.apply op b)) D.value :=
  kept.bind (obeys.expr right s hm hs) fun b _ next _ => kept.apply op a b next.machine

theorem stmt (kept : D.Kept) (obeys : D.Obeys below) (x : Stmt) (s : ScopeId) (hm : D.machine m)
    (hs : D.scope m s) (hx : D.stmt x s) : D.Keeps m (Eval.stmt below x s) D.completion := by
  cases operand : x.operand? with
  | some e =>
    rw [Eval.stmt_eq s operand]
    apply kept.bind (obeys.expr e s hm hs)
    intro v _ next hv
    exact kept.conclude obeys x s next.machine (kept.scopeLater next.change hs) hx hv
  | none =>
    cases x with
    | verse name params body => exact .step rfl (kept.verse hm hs hx) kept.null
    | ret value =>
      cases value with
      | none => exact kept.pure hm kept.null
      | some => cases operand
    | _ => cases operand

/-- What follows in a sequence. -/
theorem final_bind (kept : D.Kept) {x : Run H α} {f : α → Run H β} (hx : D.machine (x.final m))
    (hf : ∀ a m', x m = .ok a m' → D.Next m' ((f a).final m')) :
    D.Next (x.final m) ((x >>= f).final m) := by
  cases h : x m with
  | ok a m' =>
    rw [Run.final_of_ok h, Run.final_bind_of_ok h]
    exact hf a m' h
  | error e m' =>
    rw [Run.final_of_error h] at hx
    rw [Run.final_of_error h, Run.final_of_error (Run.bind_of_error h)]
    exact kept.stays hx

/-- What follows in a sequence whose second part does nothing to the machine. -/
theorem final_map (kept : D.Kept) {x : Run H α} {f : α → β} (hx : D.machine (x.final m)) :
    D.Next (x.final m) ((x >>= fun a => Pure.pure (f a)).final m) := by
  refine kept.final_bind hx fun a m' h => kept.stays ?_
  rwa [Run.final_of_ok h] at hx

theorem stmts (kept : D.Kept) (obeys : D.Obeys below) (s : ScopeId) (body : List Stmt)
    (hm : D.machine m) (hs : D.scope m s) (hbody : ∀ x ∈ body, D.stmt x s) :
    D.Keeps m (Eval.stmts below s body) D.completion := by
  induction body generalizing m with
  | nil => exact kept.normal hm
  | cons x xs ih =>
    obtain ⟨hx, hxs⟩ := List.forall_mem_cons.1 hbody
    apply kept.bind (kept.stmt obeys x s hm hs hx)
    intro c m' next hc
    cases c with
    | normal => exact ih next.machine (kept.scopeLater next.change hs) hxs
    | returned v => exact kept.pure next.machine hc

variable [Host H]

theorem routine (kept : D.Kept) (b : Builtin) (args : List Value) (hm : D.machine m) :
    D.Keeps m (Eval.routine b args) D.value := by
  unfold Eval.routine
  apply kept.bind (kept.log _ hm)
  intro _ m' next _
  cases b with
  | flow =>
    apply kept.bind (kept.hostCall _ next.machine)
    intro _ _ next _
    exact kept.pure next.machine kept.null
  | listen =>
    apply kept.fail_if next.machine
    apply kept.bind (kept.hostCall _ next.machine)
    intro line _ next _
    cases line with
    | none => exact kept.pure next.machine kept.null
    | some line => exact kept.pure next.machine (kept.plain rfl)

theorem call (kept : D.Kept) (obeys : D.Obeys below) (name : String) (args : List Expr)
    (s : ScopeId) (hm : D.machine m) (hs : D.scope m s) :
    D.Keeps m (Eval.call limits below name args s) D.value := by
  unfold Eval.call
  apply kept.bind (kept.lookup s name hm hs)
  intro callee m₁ next hcallee
  have hs := kept.scopeLater next.change hs
  have values := kept.mapM (fun e => obeys.expr e s) args next.machine hs
  cases callee with
  | builtin b => exact kept.bind values fun vs _ next _ => kept.routine b vs next.machine
  | verse f =>
    apply kept.fail_if next.machine
    apply kept.bind values
    intro vs m₂ next hvs
    have hcallee := kept.valueLater next.change hcallee
    apply kept.bind (kept.activate obeys next.machine hcallee hvs)
    intro c m₃ next hc
    exact kept.pure next.machine hc
  | _ => exact kept.fail next.machine

theorem expr (kept : D.Kept) (obeys : D.Obeys below) (e : Expr) (s : ScopeId)
    (hm : D.machine m) (hs : D.scope m s) : D.Keeps m (Eval.expr limits below e s) D.value := by
  cases e with
  | literal l =>
    refine kept.pure hm (kept.plain ?_)
    cases l <;> rfl
  | identifier name => exact kept.lookup s name hm hs
  | binary left op right =>
    apply kept.bind (obeys.expr left s hm hs)
    intro a _ next _
    exact kept.applyTo obeys op a right s next.machine (kept.scopeLater next.change hs)
  | neg operand =>
    apply kept.bind (obeys.expr operand s hm hs)
    intro a _ next _
    exact kept.minus a next.machine
  | call name args => exact kept.call obeys name args s hm hs

theorem obeys (kept : D.Kept) (limits : Limits) (fuel : Nat) : D.Obeys (evaluator limits fuel) := by
  induction fuel with
  | zero =>
    exact ⟨fun _ _ hm _ => .stop rfl (kept.stays hm), fun _ _ hm _ _ => .stop rfl (kept.stays hm)⟩
  | succ n ih =>
    have opened {m : Machine H} (hm : D.machine m) : D.Next m m.descend :=
      kept.outside m.host (m.levels + 1) hm
    constructor
    · intro m e s hm hs
      have hs := kept.scopeLater (opened hm).change hs
      exact kept.deeper hm (kept.expr ih e s (opened hm).machine hs) kept.valueLater
    · intro m body s hm hs hbody
      have hs := kept.scopeLater (opened hm).change hs
      exact kept.deeper hm (kept.stmts ih s body (opened hm).machine hs hbody) kept.valueLater

end Kept

/-- The tasks that may be started. -/
def Permits (D : Discipline H) (m : Machine H) : Task → Prop
  | .activation f args => D.value m (.verse f) ∧ ∀ v ∈ args, D.value m v
  | .block body s | .stmts body s => D.scope m s ∧ ∀ x ∈ body, D.stmt x s
  | .stmt x s => D.scope m s ∧ D.stmt x s
  | .expr _ s | .node _ s | .arguments _ s | .call _ _ s => D.scope m s

/-- The results that a task may have. -/
def result (D : Discipline H) : (t : Task) → Machine H → t.Result → Prop
  | .expr .. | .node .. | .call .. => D.value
  | .arguments .. => fun m vs => ∀ v ∈ vs, D.value m v
  | .activation .. | .block .. | .stmts .. | .stmt .. => D.completion

/-- The moments that there may be. -/
def Allows (D : Discipline H) (p : Moment H) : Prop :=
  D.machine p.machine ∧ D.Permits p.machine p.task

namespace Kept

variable [Host H] {limits : Limits}

theorem task (kept : D.Kept) (limits : Limits) (fuel : Nat) (t : Task) (hm : D.machine m)
    (permitted : D.Permits m t) : D.Keeps m (t.run limits fuel) (D.result t) := by
  have obeys := kept.obeys limits fuel
  cases t with
  | expr e s => exact obeys.expr e s hm permitted
  | node e s => exact kept.expr obeys e s hm permitted
  | arguments es s => exact kept.mapM (fun e => obeys.expr e s) es hm permitted
  | call name args s => exact kept.call obeys name args s hm permitted
  | activation f args => exact kept.activate obeys hm permitted.1 permitted.2
  | block body s => exact obeys.block body s hm permitted.1 permitted.2
  | stmts body s => exact kept.stmts obeys s body hm permitted.1 permitted.2
  | stmt x s => exact kept.stmt obeys x s hm permitted.1 permitted.2

theorem final (kept : D.Kept) (limits : Limits) {p : Moment H} (hp : D.Allows p) :
    D.Next p.machine (p.final limits) :=
  (kept.task limits p.fuel p.task hp.1 hp.2).1

/-- A moment that keeps to the discipline starts only such moments. -/
theorem calls (kept : D.Kept) {p q : Moment H} (calls : Moment.Calls limits p q)
    (hp : D.Allows p) : D.Allows q ∧ D.change p.machine q.machine := by
  obtain ⟨hm, permitted⟩ := hp
  have value {n : Nat} {e : Expr} {s : ScopeId} {m m' : Machine H} {a : Value} (hm : D.machine m)
      (hs : D.scope m s) (h : (evaluator limits n).expr e s m = .ok a m') :
      D.Next m m' ∧ D.scope m' s := by
    obtain ⟨next, -⟩ := ((kept.obeys limits n).expr e s hm hs).of_ok h
    exact ⟨next, kept.scopeLater next.change hs⟩
  cases calls with
  | @exprLevel _ e s m =>
    have opened := kept.outside m.host (m.levels + 1) hm
    exact ⟨⟨opened.machine, kept.scopeLater opened.change permitted⟩, opened.change⟩
  | left | operand | call | arguments | firstArgument => exact ⟨⟨hm, permitted⟩, kept.refl _⟩
  | value => exact ⟨⟨hm, permitted.1⟩, kept.refl _⟩
  | right h | moreArguments h =>
    obtain ⟨next, hs⟩ := value hm permitted h
    exact ⟨⟨next.machine, hs⟩, next.change⟩
  | @activation n name args s _ _ f _ found _ h =>
    obtain ⟨next, hvs⟩ := (kept.task limits n (.arguments args s) hm permitted).of_ok h
    have hf := kept.valueLater next.change (kept.found hm permitted found)
    exact ⟨⟨next.machine, hf, hvs⟩, next.change⟩
  | body =>
    obtain ⟨next, hbody⟩ := kept.enter hm permitted.1 permitted.2
    exact ⟨⟨next.machine, hbody⟩, next.change⟩
  | @blockLevel _ body s m =>
    have opened := kept.outside m.host (m.levels + 1) hm
    have hs := kept.scopeLater opened.change permitted.1
    exact ⟨⟨opened.machine, hs, permitted.2⟩, opened.change⟩
  | first => exact ⟨⟨hm, permitted.1, permitted.2 _ List.mem_cons_self⟩, kept.refl _⟩
  | @more n x xs s _ _ h =>
    obtain ⟨hs, hbody⟩ := permitted
    obtain ⟨hx, hxs⟩ := List.forall_mem_cons.1 hbody
    obtain ⟨next, -⟩ := (kept.task limits n (.stmt x s) hm ⟨hs, hx⟩).of_ok h
    exact ⟨⟨next.machine, kept.scopeLater next.change hs, hxs⟩, next.change⟩
  | branch h chosen =>
    obtain ⟨next, hs⟩ := value hm permitted.1 h
    obtain ⟨opened, scope, first, second⟩ := kept.branch next.machine hs permitted.2
    refine ⟨⟨opened.machine, scope, ?_⟩, (kept.after next opened).change⟩
    split at chosen
    · cases chosen
      exact first
    · exact second _ chosen

theorem reaches (kept : D.Kept) {p q : Moment H} (reaches : Moment.Reaches limits p q)
    (hp : D.Allows p) : D.Allows q ∧ D.change p.machine q.machine := by
  induction reaches with
  | refl => exact ⟨hp, kept.refl _⟩
  | tail _ calls ih =>
    obtain ⟨allowed, change⟩ := kept.calls calls ih.1
    exact ⟨allowed, kept.trans ih.2 change⟩

section Ends

variable {n : Nat} {s : ScopeId} {q : Moment H}

theorem ends_arguments (kept : D.Kept) {name : String} {args : List Expr} {v : Value}
    (hm : D.machine m) (hs : D.scope m s) (found : m.store.get? s name = some v)
    (accepts : v.Accepts args.length) :
    D.Next (Moment.final limits ⟨n, .arguments args s, m⟩)
      (Moment.final limits ⟨n, .call name args s, m⟩) := by
  have values := kept.task limits n (.arguments args s) hm hs
  change D.Next _ ((_ >>= _ : Run H Value).final m)
  rw [Run.final_bind_of_ok (Run.lookup_of_some found)]
  cases v with
  | builtin b =>
    refine kept.final_bind values.1.machine fun vs m' h => ?_
    exact (kept.routine b vs (values.of_ok h).1.machine).1
  | verse f =>
    have arity : ¬ args.length ≠ f.params.length := not_not_intro accepts
    dsimp only
    rw [if_neg arity]
    refine kept.final_bind values.1.machine fun vs m' h => ?_
    obtain ⟨next, hvs⟩ := values.of_ok h
    have hf := kept.valueLater next.change (kept.found hm hs found)
    have active := kept.task limits n (.activation f vs) next.machine ⟨hf, hvs⟩
    exact kept.after active.1 (kept.final_map active.1.machine)
  | _ => exact accepts.elim

theorem ends_activation (kept : D.Kept) {name : String} {args : List Expr} {f : Closure}
    {vs : List Value} (found : m.store.get? s name = some (.verse f))
    (arity : args.length = f.params.length)
    (values : (Task.arguments args s).run limits n m = .ok vs m')
    (hlast : D.machine (Moment.final limits ⟨n, .activation f vs, m'⟩)) :
    D.Next (Moment.final limits ⟨n, .activation f vs, m'⟩)
      (Moment.final limits ⟨n, .call name args s, m⟩) := by
  have arity : ¬ args.length ≠ f.params.length := not_not_intro arity
  have values : args.mapM (fun e => (evaluator limits n).expr e s) m = .ok vs m' := values
  change D.Next _ ((_ >>= _ : Run H Value).final m)
  rw [Run.final_bind_of_ok (Run.lookup_of_some found)]
  dsimp only
  rw [if_neg arity, Run.final_bind_of_ok values]
  exact kept.final_map hlast

theorem ends_body {R : Machine H → Machine H → Prop} {f : Closure} {args : List Value}
    (leave : ∀ {last} (c : Option Completion), D.Next m last → R last (m.leave c last))
    (room : m.calls < limits.calls)
    (next : D.Next m (Moment.final limits ⟨n, .block f.body m.store.scopes.size, m.enter f args⟩)) :
    R (Moment.final limits ⟨n, .block f.body m.store.scopes.size, m.enter f args⟩)
      (Moment.final limits ⟨n, .activation f args, m⟩) := by
  change D.Next m (Run.final _ _) at next
  change R (Run.final _ _) ((Eval.activate limits (evaluator limits n) f args).final m)
  cases h : (Task.block f.body m.store.scopes.size).run limits n (m.enter f args) with
  | ok c last =>
    rw [Run.final_of_ok h] at next ⊢
    have left : Eval.activate limits (evaluator limits n) f args m =
        .ok c (m.leave (some c) last) :=
      (Eval.activate_of_lt room).trans (Run.ensuring_of_ok h)
    rw [Run.final_of_ok left]
    exact leave (some c) next
  | error e last =>
    rw [Run.final_of_error h] at next ⊢
    have left : Eval.activate limits (evaluator limits n) f args m =
        .error e (m.leave none last) :=
      (Eval.activate_of_lt room).trans (Run.ensuring_of_error h)
    rw [Run.final_of_error left]
    exact leave none next

end Ends

/-- After a task that it has started, a task goes on with steps that keep to the discipline, or
leaves a call. -/
theorem ends (kept : D.Kept) {R : Machine H → Machine H → Prop} {p q : Moment H}
    (next : ∀ {m m'}, D.Next m m' → R m m')
    (leave : ∀ {m last} (c : Option Completion), D.machine m → D.Next m last →
      R last (m.leave c last))
    (calls : Moment.Calls limits p q) (hp : D.Allows p) : R (q.final limits) (p.final limits) := by
  obtain ⟨hq, change⟩ := kept.calls calls hp
  have ended := kept.final limits hq
  obtain ⟨hm, permitted⟩ := hp
  have value {n : Nat} {e : Expr} {s : ScopeId} {m m' : Machine H} {a : Value} (hm : D.machine m)
      (hs : D.scope m s) (h : (evaluator limits n).expr e s m = .ok a m') :
      D.machine m' ∧ D.scope m' s ∧ D.value m' a := by
    obtain ⟨next, ha⟩ := ((kept.obeys limits n).expr e s hm hs).of_ok h
    exact ⟨next.machine, kept.scopeLater next.change hs, ha⟩
  cases calls with
  | exprLevel room | blockLevel room =>
    apply next
    change D.Next _ ((Run.deeper limits _).final _)
    rw [Run.final_deeper room]
    exact kept.outside _ _ ended.machine
  | @left n l r op s m =>
    apply next
    refine kept.final_bind ended.machine fun a m' h => ?_
    obtain ⟨hm', hs, -⟩ := value hm permitted h
    exact (kept.applyTo (kept.obeys limits n) op a r s hm' hs).1
  | @right n l r op s m m' a h =>
    apply next
    change D.Next _ ((_ >>= _ : Run H Value).final m)
    rw [Run.final_bind_of_ok h]
    refine kept.final_bind ended.machine fun b m'' h' => ?_
    obtain ⟨hm'', -, -⟩ := value hq.1 hq.2 h'
    exact (kept.apply op a b hm'').1
  | operand =>
    apply next
    refine kept.final_bind ended.machine fun a m' h => ?_
    obtain ⟨hm', -, -⟩ := value hm permitted h
    exact (kept.minus a hm').1
  | call => exact next (kept.stays ended.machine)
  | arguments found accepts => exact next (kept.ends_arguments hm permitted found accepts)
  | @firstArgument n e es s m =>
    apply next
    change D.Next _ ((List.mapM _ (e :: es) : Run H (List Value)).final m)
    rw [List.mapM_cons]
    refine kept.final_bind ended.machine fun a m' h => ?_
    obtain ⟨hm', hs, -⟩ := value hm permitted h
    have more := kept.task limits n (.arguments es s) hm' hs
    exact kept.after more.1 (kept.final_map more.1.machine)
  | @moreArguments n e es s m m' a h =>
    apply next
    change D.Next _ ((List.mapM _ (e :: es) : Run H (List Value)).final m)
    rw [List.mapM_cons, Run.final_bind_of_ok h]
    exact kept.final_map ended.machine
  | activation found arity values =>
    exact next (kept.ends_activation found arity values ended.machine)
  | body room =>
    exact ends_body (fun c => leave c hm) room (kept.after ⟨hq.1, change⟩ ended)
  | @first n x xs s m =>
    apply next
    refine kept.final_bind ended.machine fun c m' h => ?_
    obtain ⟨after, -⟩ := (kept.task limits n (.stmt x s) hm hq.2).of_ok h
    cases c with
    | normal =>
      have hs := kept.scopeLater after.change permitted.1
      have hxs := (List.forall_mem_cons.1 permitted.2).2
      exact (kept.task limits n (.stmts xs s) after.machine ⟨hs, hxs⟩).1
    | returned v => exact kept.stays after.machine
  | @more n x xs s m m' h =>
    have same : Moment.final limits ⟨n, .stmts (x :: xs) s, m⟩ =
        Moment.final limits ⟨n, .stmts xs s, m'⟩ := by
      have h : Eval.stmt (evaluator limits n) x s m = .ok .normal m' := h
      change (_ >>= _ : Run H Completion).final m = _
      rw [Run.final_bind_of_ok h]
      rfl
    rw [same]
    exact next (kept.stays ended.machine)
  | @value n x e s m operand =>
    apply next
    change D.Next _ ((Eval.stmt _ x s).final m)
    rw [Eval.stmt_eq s operand]
    refine kept.final_bind ended.machine fun v m' h => ?_
    obtain ⟨hm', hs, hv⟩ := value hm permitted.1 h
    exact (kept.conclude (kept.obeys limits n) x s hm' hs permitted.2 hv).1
  | @branch n c thenBranch body elseBranch s m m' v h chosen =>
    have same : Moment.final limits ⟨n, .stmt (.battle c thenBranch elseBranch) s, m⟩ =
        Moment.final limits ⟨n, .block body m'.store.scopes.size, m'.withScope s⟩ := by
      change (_ >>= _ : Run H Completion).final m = _
      rw [Run.final_bind_of_ok h]
      dsimp only
      rw [chosen]
      rfl
    rw [same]
    exact next (kept.stays ended.machine)

/-- A program starts only moments that keep to the discipline. -/
theorem starts (kept : D.Kept) {p : Program} {q : Moment H} (starts : p.Starts limits m q)
    (hm : D.machine m) (hs : D.scope m m.globals) (hp : ∀ x ∈ p, D.stmt x m.globals) :
    D.Allows q ∧ D.change m q.machine := by
  have begun := kept.logs (.executing p.length) hm
  have hs := kept.scopeLater begun.change hs
  cases starts with
  | statements => exact ⟨⟨begun.machine, hs, hp⟩, begun.change⟩
  | entry ran bound =>
    have block :=
      kept.task limits (limits.levels + 1) (.block p m.globals) begun.machine ⟨hs, hp⟩
    obtain ⟨next, -⟩ := block.of_ok ran
    have dispatched := kept.logs .dispatching next.machine
    have hs := kept.scopeLater next.change hs
    have hf := kept.valueLater dispatched.change (kept.found next.machine hs bound)
    exact ⟨⟨dispatched.machine, hf, List.forall_mem_nil _⟩,
      kept.trans begun.change (kept.trans next.change dispatched.change)⟩

/-- What a program does after its statements keeps to the discipline as well. -/
theorem finish (kept : D.Kept) (limits : Limits) {globals : ScopeId} (c : Completion)
    (hm : D.machine m) (hs : D.scope m globals) (hc : D.completion m c) :
    D.Keeps m (Program.finish limits globals c) fun m r => ∀ v ∈ r, D.value m v := by
  have finished {m : Machine H} (e : Event) (r : Option Value) (hm : D.machine m)
      (hr : ∀ v ∈ r, D.value m v) :
      D.Keeps m (Run.log e >>= fun _ => Pure.pure r) fun m r => ∀ v ∈ r, D.value m v := by
    have logged := kept.logs e hm
    exact kept.step_then rfl logged
      (kept.pure logged.machine fun v mem => kept.valueLater logged.change (hr v mem))
  cases c with
  | returned v =>
    refine finished .topLevelReturn (some v) hm ?_
    rintro _ ⟨⟩
    exact hc
  | normal =>
    unfold Program.finish
    refine kept.step_then (a := m.store.get? globals entryName) rfl (kept.stays hm) ?_
    split
    · rename_i f bound
      have obeys := kept.obeys limits (limits.levels + 1)
      have dispatched := kept.logs .dispatching hm
      have hf := kept.valueLater dispatched.change (kept.found hm hs bound)
      refine kept.step_then rfl dispatched ?_
      apply kept.bind (kept.activate obeys dispatched.machine hf (List.forall_mem_nil _))
      intro c _ next hc
      cases c with
      | normal =>
        refine kept.pure next.machine ?_
        rintro _ ⟨⟩
      | returned v =>
        refine kept.pure next.machine ?_
        rintro _ ⟨⟩
        exact hc
    · refine finished .noEntryPoint none hm ?_
      rintro _ ⟨⟩

/-- A program keeps to the discipline, and gives only a value that there may be. -/
theorem program (kept : D.Kept) (limits : Limits) {p : Program} (hm : D.machine m)
    (hs : D.scope m m.globals) (hp : ∀ x ∈ p, D.stmt x m.globals) :
    D.Keeps m (p.exec limits) fun m r => ∀ v ∈ r, D.value m v := by
  have obeys := kept.obeys limits (limits.levels + 1)
  have begun := kept.logs (.executing p.length) hm
  have hs := kept.scopeLater begun.change hs
  rw [Simulation.exec_eq]
  refine kept.step_then rfl begun ?_
  refine kept.step_then (a := m.globals) rfl (kept.stays begun.machine) ?_
  apply kept.bind (obeys.block p m.globals begun.machine hs hp)
  intro c m₁ next hc
  exact kept.finish limits c next.machine (kept.scopeLater next.change hs) hc

theorem exec (kept : D.Kept) (limits : Limits) {p : Program} (hm : D.machine m)
    (hs : D.scope m m.globals) (hp : ∀ x ∈ p, D.stmt x m.globals) :
    D.Next m ((p.exec limits).final m) :=
  (kept.program limits hm hs hp).1

end Kept

end Discipline

end CypherLang
