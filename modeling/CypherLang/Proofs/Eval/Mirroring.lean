import CypherLang.Proofs.Eval.Renumbering

namespace CypherLang

variable {H : Type}

namespace Twins

variable {T U : Twins H} {s t : ScopeId} {v w : Value} {α β : Type}

/-- A machine before any program and the same machine. -/
def start (host : H) : Twins H where
  left := .start host
  right := .start host
  numbers := {
    scope := fun s t => s = 0 ∧ t = 0
    function := fun _ _ => False
    scope_iff := by
      rintro _ _ _ _ ⟨rfl, rfl⟩ ⟨rfl, rfl⟩
      exact ⟨fun _ => rfl, fun _ => rfl⟩
    function_iff := False.elim }
  mirrors := {
    globals := ⟨rfl, rfl⟩
    parent := by
      rintro _ _ ⟨rfl, rfl⟩
      exact .none
    value := by
      rintro _ _ ⟨rfl, rfl⟩
      apply Renumbering.rel_lookup
      exact .cons ⟨rfl, .plain rfl⟩ (.cons ⟨rfl, .plain rfl⟩ .nil)
    made := False.elim }
  alive := by
    rintro _ _ ⟨rfl, rfl⟩
    exact ⟨.inl rfl, .inl rfl⟩
  sound := ⟨Machine.sound_start host {}, Machine.sound_start host {}⟩
  ordered := ⟨Machine.ordered_start host {}, Machine.ordered_start host {}⟩
  host := rfl
  counters := ⟨rfl, rfl⟩

/-- The twins after a release on either side. -/
def collect (T : Twins H) (mark mark' : Nat) (held held' : Option Closure) : Twins H where
  left := T.left.collect mark held
  right := T.right.collect mark' held'
  numbers := T.numbers.restrict (T.left.collect mark held).Alive (T.right.collect mark' held').Alive
  mirrors := by
    refine T.mirrors.restrict (T.sound.1.collect _ _) (T.sound.2.collect _ _) rfl rfl ?_ ?_ ?_ ?_
    · exact Store.closures_resetAll _
    · exact Store.closures_resetAll _
    · intro s alive
      rw [Machine.scope_collect, if_neg (T.sound.1.alive_collect.1 alive).2]
    · intro t alive
      rw [Machine.scope_collect, if_neg (T.sound.2.alive_collect.1 alive).2]
  alive h := h.2
  sound := ⟨T.sound.1.collect _ _, T.sound.2.collect _ _⟩
  ordered := ⟨T.ordered.1.collect _ _, T.ordered.2.collect _ _⟩
  host := T.host
  counters := T.counters

/-- The twins after calls on `T` whose bodies have ended on `U`. -/
def leave (T U : Twins H) (c c' : Option Completion) : Twins H :=
  let ended := U.inPlace { U.left with calls := U.left.calls - 1 }
    { U.right with calls := U.right.calls - 1 } ⟨rfl, rfl, rfl⟩ ⟨rfl, rfl, rfl⟩ U.host
    ⟨congrArg (· - 1) U.counters.1, U.counters.2⟩
  ended.collect T.left.tracked.size T.right.tracked.size (c.bind Completion.closure?)
    (c'.bind Completion.closure?)

theorem later_leave (later : T.Later U) (c c' : Option Completion) : T.Later (T.leave U c c') := by
  have left := upkeep_kept.leave c T.sound.1 ⟨U.sound.1, later.left⟩
  have right := upkeep_kept.leave c' T.sound.2 ⟨U.sound.2, later.right⟩
  refine ⟨⟨fun {s t} hs => ⟨later.numbers.scope hs, ?_, ?_⟩, later.numbers.function⟩, left.change,
    right.change⟩
  · exact left.change.alive (T.alive hs).1
  · exact right.change.alive (T.alive hs).2

/-- Both blocks come to their end, or they return the same value. -/
inductive SameEnd (T : Twins H) : Completion → Completion → Prop
  | normal : SameEnd T .normal .normal
  | returned {v w : Value} : T.Same v w → SameEnd T (.returned v) (.returned w)

theorem SameEnd.value {c c' : Completion} (h : T.SameEnd c c') : T.Same c.value c'.value := by
  cases h with
  | normal => exact .null
  | returned same => exact same

theorem SameEnd.mono {c c' : Completion} (h : T.SameEnd c c') (later : T.Later U) :
    U.SameEnd c c' := by
  cases h with
  | normal => exact .normal
  | returned same => exact .returned (same.mono later.numbers)

/-- A release leaves the function that is returned where it is. -/
theorem SameEnd.leave {c c' : Completion} (h : U.SameEnd c c') (later : T.Later U) :
    (T.leave U (some c) (some c')).SameEnd c c' := by
  have left := upkeep_kept.returned (c := c) T.sound.1 ⟨U.sound.1, later.left⟩
    (holds_of_same h.value).1
  have right := upkeep_kept.returned (c := c') T.sound.2 ⟨U.sound.2, later.right⟩
    (holds_of_same h.value).2
  cases h with
  | normal => exact .normal
  | returned same =>
    cases same with
    | plain plain => exact .returned (.plain plain)
    | verse function scope =>
      exact .returned (.verse function ⟨scope, left _ rfl, right _ rfl⟩)

/-- The two runs end with the same error, or with results such as `Q` says, and on twins. -/
inductive Agree (T : Twins H) (x x' : Run H α) (Q : Twins H → α → α → Prop) : Prop
  | ok {a a' : α} (U : Twins H) : x T.left = .ok a U.left → x' T.right = .ok a' U.right →
      T.Later U → Q U a a' → Agree T x x' Q
  | error {h : Halt} (U : Twins H) : x T.left = .error h U.left → x' T.right = .error h U.right →
      T.Later U → Agree T x x' Q

namespace Agree

variable {Q : Twins H → α → α → Prop} {R : Twins H → β → β → Prop} {x x' : Run H α}

theorem pure {a a' : α} (h : Q T a a') : T.Agree (pure a) (pure a') Q :=
  .ok T rfl rfl (.refl T) h

theorem fail (e : RuntimeError) : T.Agree (Run.fail e) (Run.fail e) Q :=
  .error T rfl rfl (.refl T)

theorem after (h : U.Agree x x' Q) {y y' : Run H α} (later : T.Later U)
    (left : y T.left = x U.left) (right : y' T.right = x' U.right) : T.Agree y y' Q := by
  cases h with
  | ok V hx hx' next h => exact .ok V (left.trans hx) (right.trans hx') (later.trans next) h
  | error V hx hx' next => exact .error V (left.trans hx) (right.trans hx') (later.trans next)

theorem bind {f f' : α → Run H β} (hx : T.Agree x x' Q)
    (hf : ∀ (U : Twins H) a a', T.Later U → Q U a a' → U.Agree (f a) (f' a') R) :
    T.Agree (x >>= f) (x' >>= f') R := by
  cases hx with
  | ok U left right later h =>
    exact (hf U _ _ later h).after later (Run.bind_of_ok left) (Run.bind_of_ok right)
  | error U left right later =>
    exact .error U (Run.bind_of_error left) (Run.bind_of_error right) later

theorem fail_if {c : Prop} [Decidable c] {e : RuntimeError} {f f' : Unit → Run H α}
    (hf : T.Agree (f ()) (f' ()) Q) :
    T.Agree (if c then (Run.fail e : Run H Unit) >>= f else f ())
      (if c then (Run.fail e : Run H Unit) >>= f' else f' ()) Q := by
  by_cases h : c
  · rw [if_pos h, if_pos h]
    exact .error T rfl rfl (.refl T)
  · rw [if_neg h, if_neg h]
    exact hf

/-- What is done at the end of the runs leaves twins behind. -/
theorem ensuring (after after' : Option α → Machine H → Machine H) (h : U.Agree x x' Q)
    (ok : ∀ V a a', U.Later V → Q V a a' → ∃ W : Twins H, W.left = after (some a) V.left ∧
      W.right = after' (some a') V.right ∧ T.Later W ∧ Q W a a')
    (error : ∀ V, U.Later V → ∃ W : Twins H, W.left = after none V.left ∧
      W.right = after' none V.right ∧ T.Later W) {y y' : Run H α}
    (left : y T.left = Run.ensuring after x U.left)
    (right : y' T.right = Run.ensuring after' x' U.right) : T.Agree y y' Q := by
  cases h with
  | ok V hx hx' later h =>
    obtain ⟨W, hl, hr, next, h⟩ := ok V _ _ later h
    refine .ok W ?_ ?_ next h
    · rw [left, Run.ensuring_of_ok hx, hl]
    · rw [right, Run.ensuring_of_ok hx', hr]
  | @error halt V hx hx' later =>
    obtain ⟨W, hl, hr, next⟩ := error V later
    refine .error (h := halt) W ?_ ?_ next
    · rw [left, Run.ensuring_of_error hx, hl]
    · rw [right, Run.ensuring_of_error hx', hr]

theorem ofExcept {r r' : Except RuntimeError Value} (same : r = r')
    (plain : ∀ v, r = .ok v → v.closure? = none) :
    T.Agree (Run.ofExcept r) (Run.ofExcept r') Same := by
  subst same
  cases r with
  | ok v => exact .pure (.plain (plain v rfl))
  | error e => exact .fail e

theorem apply (op : BinOp) {a a' b b' : Value} (ha : T.Same a a') (hb : T.Same b b') :
    T.Agree (Run.ofExcept (a.apply op b)) (Run.ofExcept (a'.apply op b')) Same := by
  refine .ofExcept (ha.apply op hb) fun v hv => ?_
  have computed := Value.computed_apply op a b
  rwa [hv] at computed

theorem minus {a a' : Value} (ha : T.Same a a') :
    T.Agree (Run.ofExcept a.minus) (Run.ofExcept a'.minus) Same := by
  refine .ofExcept ha.minus fun v hv => ?_
  rcases a.minus_cases with ⟨r, result, plain⟩ | result
  · rw [result] at hv
    cases hv
    exact plain
  · rw [result] at hv
    cases hv

/-- An entry in each of the logs. -/
theorem log (e e' : Event) : T.Agree (Run.log e) (Run.log e') fun _ _ _ => True :=
  .ok (T.inPlace { T.left with log := T.left.log.add e } { T.right with log := T.right.log.add e' }
    ⟨rfl, rfl, rfl⟩ ⟨rfl, rfl, rfl⟩ T.host T.counters) rfl rfl later_inPlace trivial

theorem hostCall (f : H → Except String α × H) :
    T.Agree (Run.hostCall f) (Run.hostCall f) fun _ a a' => a = a' := by
  rcases result : f T.left.host with ⟨answer, host⟩
  let served := T.inPlace { T.left with host } { T.right with host } ⟨rfl, rfl, rfl⟩
    ⟨rfl, rfl, rfl⟩ rfl T.counters
  have later : T.Later served := later_inPlace
  have result' := result
  rw [T.host] at result'
  cases answer with
  | error reason =>
    exact .error served (Run.hostCall_of_error result) (Run.hostCall_of_error result') later
  | ok a => exact .ok served (Run.hostCall_of_ok result) (Run.hostCall_of_ok result') later rfl

theorem lookup (hs : T.numbers.scope s t) (name : String) :
    T.Agree (Run.lookup s name) (Run.lookup t name) Same := by
  have values := T.get? hs name
  cases found : T.left.store.get? s name with
  | some v =>
    rw [found] at values
    generalize found' : T.right.store.get? t name = w at values
    cases values with
    | some same =>
      exact .ok T (Run.lookup_of_some found) (Run.lookup_of_some found') (.refl T) same
  | none =>
    rw [found] at values
    generalize found' : T.right.store.get? t name = w at values
    cases values with
    | none => exact .error T (Run.lookup_of_none found) (Run.lookup_of_none found') (.refl T)

theorem assign (hs : T.numbers.scope s t) (name : String) (hv : T.Same v w) :
    T.Agree (Run.assign s name v) (Run.assign t name w) fun _ _ _ => True := by
  have owners := T.owner? s t hs name
  cases owner : T.left.store.owner? s name with
  | some o =>
    rw [owner] at owners
    generalize owner' : T.right.store.owner? t name = o' at owners
    cases owners with
    | some both =>
      exact .ok (T.bind name both hv) (Run.assign_of_some v owner) (Run.assign_of_some w owner')
        (T.later_bind name both hv) trivial
  | none =>
    rw [owner] at owners
    generalize owner' : T.right.store.owner? t name = o' at owners
    cases owners with
    | none => exact .error T (Run.assign_of_none v owner) (Run.assign_of_none w owner') (.refl T)

theorem mapM {f f' : α → Run H Value}
    (hf : ∀ (U : Twins H) a, T.Later U → U.Agree (f a) (f' a) Same) (as : List α) :
    T.Agree (as.mapM f) (as.mapM f') fun U => List.Forall₂ U.Same := by
  induction as generalizing T with
  | nil => exact .pure .nil
  | cons a as ih =>
    rw [List.mapM_cons, List.mapM_cons]
    apply (hf T a (.refl T)).bind
    intro U v w later hv
    apply (ih fun V a next => hf V a (later.trans next)).bind
    intro V vs ws next hvs
    exact .pure (.cons (hv.mono next.numbers) hvs)

end Agree

variable {limits : Limits}

theorem agree_deeper {x x' : Run H α} {Q : Twins H → α → α → Prop}
    (hx : ∀ U, T.Later U → U.Agree x x' Q)
    (mono : ∀ {U V : Twins H} {a a'}, U.Later V → Q U a a' → Q V a a') :
    T.Agree (Run.deeper limits x) (Run.deeper limits x') Q := by
  have levels := T.counters.2
  by_cases room : limits.levels ≤ T.left.levels
  · exact .error T (Run.deeper_of_le room) (Run.deeper_of_le (levels.symm ▸ room)) (.refl T)
  have room := Nat.not_le.1 room
  have room' : T.right.levels < limits.levels := by rwa [levels]
  let opened := T.inPlace { T.left with levels := T.left.levels + 1 }
    { T.right with levels := T.right.levels + 1 } ⟨rfl, rfl, rfl⟩ ⟨rfl, rfl, rfl⟩ T.host
    ⟨T.counters.1, congrArg (· + 1) levels⟩
  have entered : T.Later opened := later_inPlace
  have closed (V : Twins H) (later : opened.Later V) : ∃ W : Twins H,
      W.left = { V.left with levels := V.left.levels - 1 } ∧
        W.right = { V.right with levels := V.right.levels - 1 } ∧ V.Later W :=
    ⟨V.inPlace { V.left with levels := V.left.levels - 1 }
      { V.right with levels := V.right.levels - 1 } ⟨rfl, rfl, rfl⟩ ⟨rfl, rfl, rfl⟩ V.host
      ⟨V.counters.1, congrArg (· - 1) V.counters.2⟩, rfl, rfl, later_inPlace⟩
  refine (hx opened entered).ensuring _ _ ?_ ?_ (Run.deeper_of_lt room) (Run.deeper_of_lt room')
  · intro V a a' later h
    obtain ⟨W, left, right, next⟩ := closed V later
    exact ⟨W, left, right, entered.trans (later.trans next), mono next h⟩
  · intro V later
    obtain ⟨W, left, right, next⟩ := closed V later
    exact ⟨W, left, right, entered.trans (later.trans next)⟩

end Twins

/-- An evaluator that does the same on twins. -/
structure Evaluator.Agrees (below : Evaluator H) : Prop where
  expr : ∀ (T : Twins H) (e : Expr) {s t : ScopeId}, T.numbers.scope s t →
    T.Agree (below.expr e s) (below.expr e t) Twins.Same
  block : ∀ (T : Twins H) (body : List Stmt) {s t : ScopeId}, T.numbers.scope s t →
    T.Agree (below.block body s) (below.block body t) Twins.SameEnd

namespace Evaluator.Agrees

open Twins

variable {below : Evaluator H} {T : Twins H} {s t : ScopeId} {v w : Value} {limits : Limits}

theorem activate (agrees : below.Agrees) {f g : Closure} {args args' : List Value}
    (hf : T.Same (.verse f) (.verse g)) (hargs : List.Forall₂ T.Same args args') :
    T.Agree (Eval.activate limits below f args) (Eval.activate limits below g args') SameEnd := by
  have calls := T.counters.1
  by_cases room : limits.calls ≤ T.left.calls
  · exact .error T (Eval.activate_of_le room) (Eval.activate_of_le (calls.symm ▸ room)) (.refl T)
  have room := Nat.not_le.1 room
  have room' : T.right.calls < limits.calls := by rwa [calls]
  obtain ⟨U, entered, hs, left, right⟩ := T.exists_enter hf hargs
  have body : g.body = f.body := by
    cases hf <;> rfl
  refine (agrees.block U f.body hs).ensuring T.left.leave T.right.leave ?_ ?_ ?_ ?_
  · intro V c c' later h
    have later := entered.trans later
    exact ⟨T.leave V (some c) (some c'), rfl, rfl, later_leave later _ _, h.leave later⟩
  · intro V later
    have later := entered.trans later
    exact ⟨T.leave V none none, rfl, rfl, later_leave later _ _⟩
  · rw [left]
    exact Eval.activate_of_lt room
  · rw [right, ← body]
    exact Eval.activate_of_lt room'

theorem conclude (agrees : below.Agrees) (x : Stmt) (hs : T.numbers.scope s t) (hv : T.Same v w) :
    T.Agree (Eval.conclude below s v x) (Eval.conclude below t w x) SameEnd := by
  cases x with
  | spit name e =>
    exact .ok (T.bind name hs hv) rfl rfl (T.later_bind name hs hv) .normal
  | assign name e =>
    apply (Agree.assign hs name hv).bind
    intro U _ _ _ _
    exact .pure .normal
  | battle c thenBranch elseBranch =>
    unfold Eval.conclude
    dsimp only
    rw [hv.holds]
    cases (if w.holds then some thenBranch else elseBranch) with
    | none => exact .pure .normal
    | some body =>
      have opened := agrees.block (T.withScope hs) body (.inr ⟨rfl, rfl⟩)
      exact opened.after (T.later_withScope hs) rfl rfl
  | ret => exact .pure (.returned hv)
  | verse | expr => exact .pure .normal

theorem stmt (agrees : below.Agrees) (x : Stmt) (hs : T.numbers.scope s t) :
    T.Agree (Eval.stmt below x s) (Eval.stmt below x t) SameEnd := by
  cases operand : x.operand? with
  | some e =>
    rw [Eval.stmt_eq s operand, Eval.stmt_eq t operand]
    apply (agrees.expr T e hs).bind
    intro U v w later hv
    exact agrees.conclude x (later.numbers.scope hs) hv
  | none =>
    cases x with
    | verse name params body =>
      let made := T.capture name params body s t
      have same := T.same_capture name params body hs
      have later := (T.later_capture name params body s t).trans (made.later_bind name hs same)
      exact .ok (made.bind name hs same) rfl rfl later .normal
    | ret value =>
      cases value with
      | none => exact .pure (.returned .null)
      | some => cases operand
    | _ => cases operand

theorem stmts (agrees : below.Agrees) (body : List Stmt) (hs : T.numbers.scope s t) :
    T.Agree (Eval.stmts below s body) (Eval.stmts below t body) SameEnd := by
  induction body generalizing T with
  | nil => exact .pure .normal
  | cons x xs ih =>
    apply (agrees.stmt x hs).bind
    intro U c c' later hc
    cases hc with
    | normal => exact ih (later.numbers.scope hs)
    | returned same => exact .pure (.returned same)

variable [Host H]

theorem routine (b : Builtin) {vs ws : List Value} (h : List.Forall₂ T.Same vs ws) :
    T.Agree (Eval.routine b vs) (Eval.routine b ws) Same := by
  have texts : vs.map Value.display = ws.map Value.display := by
    induction h with
    | nil => rfl
    | cons same _ ih => rw [List.map_cons, List.map_cons, same.display, ih]
  have empty : vs.isEmpty = ws.isEmpty := by
    cases h <;> rfl
  unfold Eval.routine
  apply (Agree.log _ _).bind
  intro U _ _ _ _
  cases b with
  | flow =>
    dsimp only
    rw [texts]
    apply (Agree.hostCall _).bind
    intro V _ _ _ _
    exact .pure .null
  | listen =>
    dsimp only
    rw [empty, h.length_eq]
    apply Agree.fail_if
    apply (Agree.hostCall _).bind
    rintro V line _ _ rfl
    cases line with
    | none => exact .pure .null
    | some line => exact .pure (.plain rfl)

theorem call (agrees : below.Agrees) (name : String) (args : List Expr)
    (hs : T.numbers.scope s t) :
    T.Agree (Eval.call limits below name args s) (Eval.call limits below name args t) Same := by
  unfold Eval.call
  apply (Agree.lookup hs name).bind
  intro U callee callee' later hcallee
  have values : U.Agree (args.mapM fun e => below.expr e s) (args.mapM fun e => below.expr e t)
      fun V => List.Forall₂ V.Same :=
    .mapM (fun V e next => agrees.expr V e (next.numbers.scope (later.numbers.scope hs))) args
  cases hcallee with
  | verse function hscope =>
    apply Agree.fail_if
    apply values.bind
    intro V vs ws next hvs
    have hf := Renumbering.Same.verse (next.numbers.function function) (next.numbers.scope hscope)
    apply (agrees.activate hf hvs).bind
    intro W c c' _ hc
    exact .pure hc.value
  | plain plain =>
    cases callee with
    | builtin b =>
      apply values.bind
      intro V vs ws next hvs
      exact routine b hvs
    | verse => cases plain
    | _ => exact .fail _

theorem node (agrees : below.Agrees) (e : Expr) (hs : T.numbers.scope s t) :
    T.Agree (Eval.expr limits below e s) (Eval.expr limits below e t) Same := by
  cases e with
  | literal l =>
    refine .pure (.plain ?_)
    cases l <;> rfl
  | identifier name => exact .lookup hs name
  | binary left op right =>
    apply (agrees.expr T left hs).bind
    intro U a a' later ha
    apply (agrees.expr U right (later.numbers.scope hs)).bind
    intro V b b' next hb
    exact .apply op (ha.mono next.numbers) hb
  | neg operand =>
    apply (agrees.expr T operand hs).bind
    intro U a a' _ ha
    exact .minus ha
  | call name args => exact agrees.call name args hs

end Evaluator.Agrees

variable [Host H]

theorem agrees_evaluator (limits : Limits) (fuel : Nat) :
    (evaluator limits fuel : Evaluator H).Agrees := by
  induction fuel with
  | zero => exact ⟨fun T _ _ _ _ => .error T rfl rfl (.refl T),
      fun T _ _ _ _ => .error T rfl rfl (.refl T)⟩
  | succ n ih =>
    constructor
    · intro T e s t hs
      exact Twins.agree_deeper (fun U later => ih.node e (later.numbers.scope hs))
        fun later same => same.mono later.numbers
    · intro T body s t hs
      exact Twins.agree_deeper (fun U later => ih.stmts body (later.numbers.scope hs))
        fun later same => same.mono later

namespace Twins

variable {T : Twins H} {limits : Limits} {s t : ScopeId}

/-- Both programs return nothing, or the same value. -/
abbrev SameOutcome (T : Twins H) : Option Value → Option Value → Prop := Option.Rel T.Same

theorem agree_finish {c c' : Completion} (hs : T.numbers.scope s t) (hc : T.SameEnd c c') :
    T.Agree (Program.finish limits s c) (Program.finish limits t c') SameOutcome := by
  cases hc with
  | @returned v w same =>
    have ended := Agree.log (T := T) .topLevelReturn .topLevelReturn
    exact ended.bind fun U _ _ later _ => .pure (.some (same.mono later.numbers))
  | normal =>
    have without (U : Twins H) :
        U.Agree (Run.log .noEntryPoint >>= fun _ => pure none : Run H (Option Value))
          (Run.log .noEntryPoint >>= fun _ => pure none) SameOutcome :=
      (Agree.log _ _).bind fun _ _ _ _ _ => .pure .none
    have found : T.Agree (Run.find s entryName) (Run.find t entryName) SameOutcome :=
      .ok T rfl rfl (.refl T) (T.get? hs entryName)
    apply found.bind
    intro U v w _ same
    cases same with
    | none => exact without U
    | @some v w same =>
      cases same with
      | plain plain =>
        cases v with
        | verse => cases plain
        | _ => exact without U
      | verse function scope =>
        have logged := Agree.log (T := U) .dispatching .dispatching
        apply logged.bind
        intro V _ _ later _
        have hf := Renumbering.Same.verse (later.numbers.function function)
          (later.numbers.scope scope)
        apply ((agrees_evaluator limits (limits.levels + 1)).activate hf .nil).bind
        intro W c c' _ hc
        cases hc with
        | normal => exact .pure .none
        | returned same => exact .pure (.some same)

/-- A program does the same on twins. -/
theorem agree_exec (T : Twins H) (limits : Limits) (p : Program) :
    T.Agree (p.exec limits) (p.exec limits) SameOutcome := by
  rw [Simulation.exec_eq]
  have begun := Agree.log (T := T) (.executing p.length) (.executing p.length)
  apply begun.bind
  intro U _ _ later _
  have globals : U.Agree Run.globals Run.globals fun V => V.numbers.scope :=
    .ok U rfl rfl (.refl U) U.mirrors.globals
  apply globals.bind
  intro V s t _ hs
  apply ((agrees_evaluator limits (limits.levels + 1)).block V p hs).bind
  intro W c c' next hc
  exact agree_finish (next.numbers.scope hs) hc

end Twins

/-- The programs end with the same error, or with the same result but for the numbers. -/
inductive Renumbering.SameResult (r : Renumbering) :
    Except RuntimeError (Option Value) → Except RuntimeError (Option Value) → Prop
  | ok {v w : Option Value} : Option.Rel r.Same v w → SameResult r (.ok v) (.ok w)
  | error (e : RuntimeError) : SameResult r (.error e) (.error e)

namespace Session

/-- Twin sessions run a program alike, and are twins again. -/
theorem exists_run {s s' : Session H} (T : Twins H) (left : T.left = s.machine)
    (right : T.right = s'.machine) (limits : s'.limits = s.limits) (p : Program) :
    ∃ U : Twins H, U.left = (s.run p).2.machine ∧ U.right = (s'.run p).2.machine ∧
      U.numbers.SameResult (s.run p).1 (s'.run p).1 := by
  have agree := T.agree_exec s.limits p
  unfold run
  rw [limits, ← left, ← right]
  cases agree with
  | ok U hx hx' _ same =>
    rw [hx, hx']
    exact ⟨U, rfl, rfl, .ok same⟩
  | @error h U hx hx' _ =>
    rw [hx, hx']
    cases h with
    | error e => exact ⟨U, rfl, rfl, .error e⟩
    | outOfFuel => exact ⟨U, rfl, rfl, .error _⟩

theorem limits_after (s : Session H) (ps : List Program) : (s.after ps).limits = s.limits :=
  (after_induction (P := fun _ => True) (fun _ _ _ => trivial) trivial ps).2

/-- A session is its own twin. -/
theorem exists_twins_after (limits : Limits) (host : H) (ps : List Program) :
    ∃ T : Twins H, T.left = ((start limits host).after ps).machine ∧
      T.right = ((start limits host).after ps).machine := by
  refine (after_induction (P := fun m => ∃ T : Twins H, T.left = m ∧ T.right = m) ?_ ?_ ps).1
  · rintro p m ⟨T, left, right⟩
    have agree := T.agree_exec (start limits host).limits p
    rw [← left]
    rw [← right] at left
    cases agree with
    | ok U hx hx' =>
      rw [← left, hx] at hx'
      injection hx' with _ same
      exact ⟨U, (Run.final_of_ok hx).symm, same.symm.trans (Run.final_of_ok hx).symm⟩
    | error U hx hx' =>
      rw [← left, hx] at hx'
      injection hx' with _ same
      exact ⟨U, (Run.final_of_error hx).symm, same.symm.trans (Run.final_of_error hx).symm⟩
  · exact ⟨.start host, rfl, rfl⟩

/-- Every task leaves the numbers of calls and levels as it has found them, however it ends; they
stay within the limits, and what is taken off them has been put on them before. So both are zero
after any programs, and what the next program does depends on the host and on what can be got at
from the global scope alone, whatever numbers scopes and functions have. -/
theorem counters_balanced (limits : Limits) :
    (∀ p : Moment H, p.machine.SameCounters (p.final limits)) ∧
    (∀ (p : Program) (m : Machine H), m.SameCounters ((p.exec limits).final m)) ∧
    (∀ p q : Moment H, p.Reaches limits q →
      q.machine.calls ≤ max p.machine.calls limits.calls ∧
        q.machine.levels ≤ max p.machine.levels limits.levels) ∧
    (∀ p q : Moment H, p.Calls limits q →
      p.task.ownCalls ≤ (q.final limits).calls ∧ p.task.ownLevels ≤ (q.final limits).levels) ∧
    (∀ (host : H) (ps : List Program),
      ((start limits host).after ps).machine.calls = 0 ∧
        ((start limits host).after ps).machine.levels = 0) ∧
    ∀ (host host' : H) (ps ps' : List Program) (r : Renumbering),
      let s := (start limits host).after ps
      let s' := (start limits host').after ps'
      r.Mirrors s.machine s'.machine → s.machine.host = s'.machine.host →
        ∀ p, ∃ r' : Renumbering, r'.Mirrors (s.run p).2.machine (s'.run p).2.machine ∧
          (s.run p).2.machine.host = (s'.run p).2.machine.host ∧
            r'.SameResult (s.run p).1 (s'.run p).1 := by
  refine ⟨fun p => Moment.balanced_task limits p.fuel p.task p.machine,
    fun p m => p.balanced_exec limits m, fun _ _ h => h.counters_le, fun _ _ h => h.own_le_final,
    counters_after limits, ?_⟩
  intro host host' ps ps' r s s' mirrors same p
  have sound : s.machine.Sound := sound_after limits host {} ps
  have sound' : s'.machine.Sound := sound_after limits host' {} ps'
  obtain ⟨calls, levels⟩ := counters_after limits host ps
  obtain ⟨calls', levels'⟩ := counters_after limits host' ps'
  obtain ⟨L, hL, -⟩ := exists_twins_after limits host ps
  obtain ⟨R, hR, -⟩ := exists_twins_after limits host' ps'
  let T : Twins H := {
    left := s.machine
    right := s'.machine
    numbers := r.restrict s.machine.Alive s'.machine.Alive
    mirrors := mirrors.restrict sound sound' rfl rfl rfl rfl (fun _ _ => rfl) fun _ _ => rfl
    alive := And.right
    sound := ⟨sound, sound'⟩
    ordered := ⟨hL ▸ L.ordered.1, hR ▸ R.ordered.1⟩
    host := same
    counters := ⟨calls'.trans calls.symm, levels'.trans levels.symm⟩ }
  have known : s'.limits = s.limits :=
    (limits_after (start limits host') ps').trans (limits_after (start limits host) ps).symm
  obtain ⟨U, left, right, results⟩ := exists_run T rfl rfl known p
  exact ⟨U.numbers, left ▸ right ▸ U.mirrors, left ▸ right ▸ U.host, results⟩

/-- A call has failed after it has made a function, so that the function made after it has another
number than in a session without the call. -/
theorem counters_balanced_failed_call :
    let limits : Limits := ⟨2, 8⟩
    let body : List Stmt := [.verse "g" [] [], .expr (.identifier "x")]
    let f : Closure := ⟨0, "f", [], body, 0⟩
    let first : Program := [.verse "f" [] body]
    let wrong : Program := [.expr (.call "f" [])]
    let last : Program := [.verse "h" [] []]
    let before := (start limits ({} : Console)).after [first]
    let s := (start limits ({} : Console)).after [first, wrong, last]
    let s' := (start limits ({} : Console)).after [first, last]
    let call : Moment Console := ⟨3, .activation f [], before.machine⟩
    let inside : Moment Console :=
      ⟨3, .block body before.machine.store.scopes.size, before.machine.enter f []⟩
    (before.run wrong).1 = .error (.undefinedVariable "x" .read) ∧
      call.Calls limits inside ∧ inside.machine.calls ≤ 2 ∧ 1 ≤ (inside.final limits).calls ∧
        s.machine.store.closures = 3 ∧ s'.machine.store.closures = 2 ∧
          ∀ p, ∃ r : Renumbering, r.SameResult (s.run p).1 (s'.run p).1 := by
  intro limits body f first wrong last before s s' call inside
  obtain ⟨-, -, within, taken, zero, next⟩ := counters_balanced (H := Console) limits
  have none : before.machine.calls = 0 := (zero ({} : Console) [first]).1
  have room : before.machine.calls < limits.calls := Nat.lt_of_le_of_lt (Nat.le_of_eq none) two_pos
  have starts : call.Calls limits inside := .body room
  have bound : inside.machine.calls ≤ max before.machine.calls 2 :=
    (within call inside (.single starts)).1
  rw [none] at bound
  have sound : s.machine.Sound := sound_after limits ({} : Console) {} [first, wrong, last]
  have sound' : s'.machine.Sound := sound_after limits ({} : Console) {} [first, last]
  have failed : (before.run wrong).1 = .error (.undefinedVariable "x" .read) := by
    dsimp only [before, wrong, first, body, limits]
    cbv
  have bindings : (s.machine.store.scope 0).bindings =
      [("flow", .builtin .flow), ("listen", .builtin .listen), ("f", .verse f),
        ("h", .verse ⟨2, "h", [], [], 0⟩)] := by
    dsimp only [s, last, wrong, first, f, body, limits]
    cbv
  have bindings' : (s'.machine.store.scope 0).bindings =
      [("flow", .builtin .flow), ("listen", .builtin .listen), ("f", .verse f),
        ("h", .verse ⟨1, "h", [], [], 0⟩)] := by
    dsimp only [s', last, first, f, body, limits]
    cbv
  have closures : s.machine.store.closures = 3 := by
    dsimp only [s, last, wrong, first, body, limits]
    cbv
  have closures' : s'.machine.store.closures = 2 := by
    dsimp only [s', last, first, body, limits]
    cbv
  have host : s.machine.host = s'.machine.host := by
    dsimp only [s, s', last, wrong, first, body, limits]
    cbv
  let r : Renumbering := {
    scope := fun s t => s = 0 ∧ t = 0
    function := fun i j => i = 0 ∧ j = 0 ∨ i = 2 ∧ j = 1
    scope_iff := by
      rintro _ _ _ _ ⟨rfl, rfl⟩ ⟨rfl, rfl⟩
      exact ⟨fun _ => rfl, fun _ => rfl⟩
    function_iff := by omega }
  have zero : r.scope 0 0 := ⟨rfl, rfl⟩
  have same : List.Forall₂ r.SameBinding (s.machine.store.scope 0).bindings
      (s'.machine.store.scope 0).bindings := by
    have known : r.Same (.verse f) (.verse f) := .verse (.inl ⟨rfl, rfl⟩) zero
    rw [bindings, bindings']
    exact .cons ⟨rfl, .plain rfl⟩ (.cons ⟨rfl, .plain rfl⟩ (.cons ⟨rfl, known⟩
      (.cons ⟨rfl, .verse (.inr ⟨rfl, rfl⟩) zero⟩ .nil)))
  have mirrors : r.Mirrors s.machine s'.machine := by
    constructor
    · exact ⟨sound.globals, sound'.globals⟩
    · rintro _ _ ⟨rfl, rfl⟩
      have root := sound.root
      have root' := sound'.root
      rw [sound.globals] at root
      rw [sound'.globals] at root'
      rw [root, root']
      exact .none
    · rintro _ _ ⟨rfl, rfl⟩
      exact Renumbering.rel_lookup same
    · rw [closures, closures']
      rintro i j (⟨rfl, rfl⟩ | ⟨rfl, rfl⟩)
      · decide
      · decide
  refine ⟨failed, starts, bound, (taken call inside starts).1, closures, closures', fun p => ?_⟩
  obtain ⟨r', -, -, results⟩ := next {} {} [first, wrong, last] [first, last] r mirrors host p
  exact ⟨r', results⟩

end Session

end CypherLang
