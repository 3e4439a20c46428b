import CypherLang.Proofs.Syntax.Blame

namespace CypherLang.Parser

open Yield

variable {α β : Type}

/-- An exchange of the tokens `old` at the end of a list for the tokens `new`, with the length and
the last line of the new list. -/
structure Swap where
  old : List Token
  new : List Token
  size : Nat
  endLine : UInt32

namespace Swap

/-- The cursor after the exchange, if what is left of the list ends with the old tokens. -/
def cursor (σ : Swap) (c : Cursor) : Cursor where
  rest := c.rest.take (c.rest.length - σ.old.length) ++ σ.new
  endLine := σ.endLine
  size := σ.size
  depth := c.depth

def result (σ : Swap) : EStateM.Result SyntaxError Cursor α → EStateM.Result SyntaxError Cursor α
  | .ok a c => .ok a (σ.cursor c)
  | .error e c => .error e (σ.cursor c)

/-- Nothing is exchanged. -/
def Trivial (σ : Swap) (c : Cursor) : Prop :=
  σ.old = [] ∧ σ.new = [] ∧ σ.endLine = c.endLine

/-- Enough of the tokens that are left stays in place, or all of them. -/
def Spares (σ : Swap) (enough : List Token → Prop) (c : Cursor) : Prop :=
  ∃ u, c.rest = u ++ σ.old ∧ (enough u ∨ σ.Trivial c)

/-- What stays in place goes beyond line breaks. -/
def PastBreaks (u : List Token) : Prop := ∃ t ∈ u, t.kind ≠ .newline

/-- Where the parser stops, the next token stays in place; where it stops without an error, enough
of them. -/
def Sees (σ : Swap) (enough : List Token → Prop) : EStateM.Result SyntaxError Cursor α → Prop
  | .ok _ c => σ.Spares enough c
  | .error (.unexpectedToken _ _ _) c => σ.Spares (· ≠ []) c
  | .error _ _ => False

variable {σ : Swap} {c c' : Cursor} {enough : List Token → Prop}

theorem rest_cursor {u : List Token} (h : c.rest = u ++ σ.old) :
    (σ.cursor c).rest = u ++ σ.new := by
  simp [cursor, h]

theorem cursor_eq {u : List Token} {d : Cursor} (split : c.rest = u ++ σ.old)
    (rest : d.rest = u ++ σ.new) (endLine : d.endLine = σ.endLine) (size : d.size = σ.size)
    (depth : d.depth = c.depth) : σ.cursor c = d := by
  rw [← rest_cursor split] at rest
  cases d
  cases rest
  cases endLine
  cases size
  cases depth
  rfl

theorem Spares.weaken {few : List Token → Prop} (h : σ.Spares enough c)
    (imp : ∀ {u}, enough u → few u) : σ.Spares few c := by
  obtain ⟨u, split, stays⟩ := h
  exact ⟨u, split, stays.imp_left imp⟩

theorem Spares.earlier (h : σ.Spares enough c') (later : c'.Within c)
    (longer : ∀ v {u}, enough u → enough (v ++ u)) : σ.Spares enough c := by
  obtain ⟨u, split, stays⟩ := h
  obtain ⟨v, before⟩ := later.rest
  refine ⟨v ++ u, by rw [← before, split, List.append_assoc], ?_⟩
  rcases stays with known | none
  · exact .inl (longer v known)
  · exact .inr ⟨none.1, none.2.1, by rw [none.2.2, later.endLine]⟩

theorem token_cursor (h : σ.Spares (· ≠ []) c) : (σ.cursor c).token = c.token := by
  obtain ⟨u, split, stays⟩ := h
  unfold Cursor.token
  rw [rest_cursor split, split]
  cases u with
  | cons t u => rfl
  | nil =>
    obtain ⟨old, new, line⟩ := stays.resolve_left (absurd rfl)
    rw [old, new]
    exact congrArg (Token.mk .eof "") line

theorem kind_cursor (h : σ.Spares (· ≠ []) c) : (σ.cursor c).kind = c.kind := by
  rw [Cursor.kind, token_cursor h, Cursor.kind]

/-- The token before one that stays in place stays there as well. -/
theorem tail_cursor (h : σ.Spares (· ≠ []) { c with rest := c.rest.tail }) :
    { σ.cursor c with rest := (σ.cursor c).rest.tail } =
      σ.cursor { c with rest := c.rest.tail } := by
  obtain ⟨u, split, stays⟩ := h
  change c.rest.tail = u ++ σ.old at split
  have tail : (σ.cursor c).rest.tail = u ++ σ.new := by
    cases tokens : c.rest with
    | cons t r =>
      rw [tokens] at split
      rw [rest_cursor (u := t :: u) (by rw [tokens, List.cons_append, ← split]; rfl)]
      rfl
    | nil =>
      rw [tokens] at split
      obtain ⟨rfl, old⟩ := List.append_eq_nil_iff.1 split.symm
      obtain ⟨-, new, -⟩ := stays.resolve_left (absurd rfl)
      rw [rest_cursor (u := []) (by rw [tokens, old]; rfl), new]
      rfl
  rw [tail, ← rest_cursor (c := { c with rest := c.rest.tail }) split]
  rfl

theorem proper_cursor (h : σ.Spares enough c') (later : c'.Within c)
    (proper : (σ.cursor c).Proper) (within : c'.Proper) : (σ.cursor c').Proper := by
  obtain ⟨u, split, -⟩ := h
  obtain ⟨v, before⟩ := later.rest
  have whole : (σ.cursor c).rest = v ++ u ++ σ.new :=
    rest_cursor (by rw [← before, split, List.append_assoc])
  refine ⟨?_, within.2⟩
  have size := proper.1
  rw [whole] at size
  rw [rest_cursor split]
  simp only [List.length_append] at size ⊢
  exact Nat.le_trans (by omega) size

end Swap

/-- The parser moves forward, and exchanging tokens further on than it sees changes nothing. -/
structure Local (enough : List Token → Prop) (p : Parser α) : Prop where
  forward : ∀ c, Forward c (p c)
  swap : ∀ (σ : Swap) (c : Cursor), c.Proper → (σ.cursor c).Proper → σ.Sees enough (p c) →
    p (σ.cursor c) = σ.result (p c)

/-- A parser that sees no more than the token it stops at. -/
abbrev Tight (p : Parser α) : Prop := Local (· ≠ []) p

/-- A parser that sees no further than the first token which is no line break. -/
abbrev Loose (p : Parser α) : Prop := Local Swap.PastBreaks p

/-- What is enough to stay in place: at least one token, and all that goes further back. -/
structure Enough (enough : List Token → Prop) : Prop where
  ne_nil {u : List Token} : enough u → u ≠ []
  longer (v : List Token) {u : List Token} : enough u → enough (v ++ u)

theorem enough_ne_nil : Enough (· ≠ []) := ⟨id, fun _ => List.append_ne_nil_of_right_ne_nil _⟩

theorem enough_pastBreaks : Enough Swap.PastBreaks where
  ne_nil := by
    rintro _ ⟨t, mem, -⟩ rfl
    cases mem
  longer v u := by
    rintro ⟨t, mem, kind⟩
    exact ⟨t, List.mem_append_right v mem, kind⟩

section Outcomes

variable {σ : Swap} {c c' : Cursor} {enough : List Token → Prop}

/-- Where the next token stays in place when the parser stops, it did so from the start. -/
theorem Swap.Sees.start {r : EStateM.Result SyntaxError Cursor α} (h : σ.Sees enough r)
    (forward : Forward c r) (rules : Enough enough) : σ.Spares (· ≠ []) c := by
  cases r with
  | ok a c' => exact (h.weaken rules.ne_nil).earlier forward enough_ne_nil.longer
  | error e c' =>
    cases e with
    | unexpectedToken => exact Swap.Spares.earlier h forward.1 enough_ne_nil.longer
    | invalidNumber => exact h.elim
    | nestingTooDeep => exact h.elim

end Outcomes

theorem local_pure {enough : List Token → Prop} (a : α) :
    Local enough (pure a : Parser α) where
  forward := forward_pure a
  swap _ _ _ _ _ := rfl

theorem Local.bind {enough : List Token → Prop} (rules : Enough enough) {p : Parser α}
    {f : α → Parser β} (h : Tight p) (hf : ∀ a, Local enough (f a)) : Local enough (p >>= f) where
  forward := forward_bind h.forward fun a => (hf a).forward
  swap σ c proper proper' sees := by
    have first := h.swap σ c proper proper'
    have moved := h.forward c
    cases run : p c with
    | ok a c' =>
      rw [run] at first moved
      rw [bind_apply_of_ok run] at sees ⊢
      have spares := sees.start ((hf a).forward c') rules
      have proper₁ := moved.proper proper
      rw [bind_apply_of_ok (first spares)]
      exact (hf a).swap σ c' proper₁ (Swap.proper_cursor spares moved proper' proper₁) sees
    | error e c' =>
      rw [run] at first
      rw [bind_apply_of_error run] at sees ⊢
      have sees : σ.Sees (· ≠ []) (.error e c' : EStateM.Result _ _ α) := by
        cases e <;> exact sees
      rw [bind_apply_of_error (first sees)]
      rfl

theorem tight_peek : Tight peek where
  forward := forward_peek
  swap σ c _ _ sees := by
    change EStateM.Result.ok (σ.cursor c).kind (σ.cursor c) = .ok c.kind (σ.cursor c)
    rw [Swap.kind_cursor sees]

theorem tight_nextText : Tight (do return (← next).text) where
  forward := forward_bind forward_next fun t => forward_pure t.text
  swap σ c _ _ sees := by
    have later : Cursor.Within { c with rest := c.rest.tail } c := .of_rest (List.tail_suffix _)
    have spares := Swap.Spares.earlier sees later enough_ne_nil.longer
    change EStateM.Result.ok (σ.cursor c).token.text _ = .ok c.token.text _
    rw [Swap.token_cursor spares, Swap.tail_cursor sees]

theorem tight_number : Tight number where
  forward := forward_number
  swap σ c _ _ sees := by
    have later : Cursor.Within { c with rest := c.rest.tail } c := .of_rest (List.tail_suffix _)
    have taken (f : Token → Parser Expr) (c : Cursor) :
        (next >>= f) c = f c.token { c with rest := c.rest.tail } := rfl
    unfold number at sees ⊢
    rw [taken] at sees ⊢
    rw [taken]
    cases literal : Literal.ofNumber? c.token.text with
    | none =>
      rw [literal] at sees
      exact sees.elim
    | some l =>
      rw [literal] at sees
      have spares := Swap.Spares.earlier sees later enough_ne_nil.longer
      rw [Swap.token_cursor spares, literal, Swap.tail_cursor sees]
      rfl

theorem tight_refuse (expected : Wanted) : Tight (refuse expected : Parser α) where
  forward := forward_refuse expected
  swap σ c _ _ sees := by
    change EStateM.Result.error (SyntaxError.unexpectedToken expected (σ.cursor c).token.kind
      (σ.cursor c).token.line) (σ.cursor c) = .error _ (σ.cursor c)
    rw [Swap.token_cursor sees]

theorem tight_before (kind : Token.Kind) {p : Parser α} (h : Tight p) :
    Tight (before kind p) := by
  refine Local.bind enough_ne_nil tight_peek fun found => ?_
  by_cases same : found = kind
  · rwa [if_pos same]
  · rw [if_neg same]
    exact tight_refuse _

theorem tight_enter : Tight enter where
  forward := forward_enter
  swap σ c _ _ sees := by
    rw [enter_apply] at sees ⊢
    rw [enter_apply]
    by_cases room : c.depth < maxNesting
    · rw [if_pos room, if_pos (show (σ.cursor c).depth < maxNesting from room)]
      rfl
    · rw [if_neg room] at sees
      exact sees.elim

/-- The level that a parser leaves behind is not looked at. -/
theorem leaving_swap {p : Parser α} (h : Tight p) {depth : Cursor → Nat} {σ : Swap} {c : Cursor}
    (same : ∀ c', depth (σ.cursor c') = depth c') (proper : c.Proper)
    (proper' : (σ.cursor c).Proper) (sees : σ.Sees (· ≠ []) (leaving depth p c)) :
    leaving depth p (σ.cursor c) = σ.result (leaving depth p c) := by
  have inner := h.swap σ c proper proper'
  unfold leaving at sees ⊢
  cases run : p c with
  | ok a c' =>
    rw [run] at sees inner
    rw [inner sees]
    simp only [Swap.result, same]
    rfl
  | error e c' =>
    rw [run] at sees inner
    have sees : σ.Sees (· ≠ []) (.error e c' : EStateM.Result _ _ α) := by
      cases e <;> exact sees
    rw [inner sees]
    simp only [Swap.result, same]
    rfl

theorem tight_deeper {p : Parser α} (h : Tight p) : Tight (deeper p) := by
  refine Local.bind enough_ne_nil tight_enter fun _ => ⟨?_, ?_⟩
  · exact fun c => forward_leaving (h.forward c) fun _ _ => Counter.exact_down_le
  · intro σ c proper proper' sees
    exact leaving_swap h (fun _ => rfl) proper proper' sees

theorem tight_restoringDepth {p : Parser α} (h : Tight p) : Tight (restoringDepth p) where
  forward := forward_restoringDepth h.forward
  swap _ _ proper proper' sees := leaving_swap h (fun _ => rfl) proper proper' sees

/-- More steps than there are tokens change nothing. -/
theorem Repeatable.repeatUpTo_eq {step : α → Parser (Option α)} (h : Repeatable step)
    (forward : ∀ a c, Forward c (step a c)) {n m : Nat} (le : n ≤ m) :
    ∀ {a : α} {c : Cursor}, c.Proper → c.rest.length ≤ n →
      repeatUpTo step n a c = repeatUpTo step m a c := by
  induction n generalizing m with
  | zero =>
    intro a c _ short
    have empty : c.rest = [] := List.eq_nil_of_length_eq_zero (by omega)
    cases m with
    | zero => rfl
    | succ m =>
      unfold repeatUpTo
      rw [bind_apply_of_ok (h.ends a empty)]
  | succ n ih =>
    intro a c proper short
    obtain ⟨m, rfl⟩ : ∃ k, m = k + 1 := ⟨m - 1, by omega⟩
    have moved := forward a c
    unfold repeatUpTo
    cases run : step a c with
    | error e c' => rw [bind_apply_of_error run, bind_apply_of_error run]
    | ok next c' =>
      rw [run] at moved
      rw [bind_apply_of_ok run, bind_apply_of_ok run]
      cases next with
      | none => rfl
      | some b =>
        have shorter := h.shortens run proper
        exact ih (by omega) (moved.proper proper) (by omega)

theorem tight_repeatUpTo {step : α → Parser (Option α)} (h : ∀ a, Tight (step a)) (n : Nat) :
    ∀ a, Tight (repeatUpTo step n a) := by
  induction n with
  | zero => exact local_pure
  | succ n ih =>
    intro a
    refine Local.bind enough_ne_nil (h a) fun next => ?_
    cases next with
    | some b => exact ih b
    | none => exact local_pure a

theorem tight_iterate {step : α → Parser (Option α)} (a : α) (h : ∀ a, Tight (step a))
    (repeatable : Repeatable step) : Tight (iterate step a) where
  forward c := forward_repeatUpTo (fun a => (h a).forward) c.size a c
  swap σ c proper proper' sees := by
    have bound {d : Cursor} {m : Nat} (le : d.size ≤ m) (proper : d.Proper) :
        iterate step a d = repeatUpTo step m a d :=
      repeatable.repeatUpTo_eq (fun a => (h a).forward) le proper proper.1
    have le : c.size ≤ max c.size σ.size := Nat.le_max_left _ _
    have le' : (σ.cursor c).size ≤ max c.size σ.size := Nat.le_max_right _ _
    rw [bound le proper] at sees ⊢
    rw [bound le' proper']
    exact (tight_repeatUpTo h _ a).swap σ c proper proper' sees

/-- Every expression sees no more than the token it stops at. -/
theorem tight_law : Law Tight where
  forward {α p a c c'} h run := by
    have moved := h.forward c
    rw [run] at moved
    exact moved.rest
  pure := local_pure
  bind := Local.bind enough_ne_nil
  peek := tight_peek
  nextText _ := tight_before _ tight_nextText
  number := tight_before _ tight_number
  refuse := tight_refuse
  tooDeep := ⟨forward_law.tooDeep, fun _ _ _ _ sees => sees.elim⟩
  enter := tight_enter
  deeper := tight_deeper
  restoringDepth := tight_restoringDepth
  iterate := tight_iterate

/-- The parser stops at the second cursor, for an unexpected token or without an error. -/
def StopsAt : EStateM.Result SyntaxError Cursor α → Cursor → Prop
  | .ok _ c, c' => c = c'
  | .error (.unexpectedToken _ _ _) c, c' => c = c'
  | .error _ _, _ => False

/-- The parser does not stop before an identifier. -/
def TakesIdentifier (p : Parser α) : Prop :=
  ∀ c c' : Cursor, c.kind = .identifier → StopsAt (p c) c' → c'.rest <:+ c.rest.tail

theorem Forward.of_stopsAt {c c' : Cursor} {r : EStateM.Result SyntaxError Cursor α}
    (h : Forward c r) (stops : StopsAt r c') : c'.Within c := by
  cases r with
  | ok a d =>
    cases stops
    exact h
  | error e d =>
    cases e with
    | unexpectedToken =>
      cases stops
      exact h.1
    | _ => exact stops.elim

theorem Swap.Sees.stopsAt {σ : Swap} {r : EStateM.Result SyntaxError Cursor α}
    (h : σ.Sees (· ≠ []) r) : ∃ c, StopsAt r c ∧ σ.Spares (· ≠ []) c := by
  cases r with
  | ok a c => exact ⟨c, rfl, h⟩
  | error e c =>
    cases e with
    | unexpectedToken => exact ⟨c, rfl, h⟩
    | _ => exact h.elim

namespace TakesIdentifier

variable {p : Parser α} {f : α → Parser β}

theorem bind (h : TakesIdentifier p) (forward : ∀ a c, Forward c (f a c)) :
    TakesIdentifier (p >>= f) := by
  intro c c' kind stops
  have first := h c
  cases run : p c with
  | ok a d =>
    rw [run] at first
    rw [bind_apply_of_ok run] at stops
    exact ((forward a d).of_stopsAt stops).rest.trans (first d kind rfl)
  | error e d =>
    rw [run] at first
    rw [bind_apply_of_error run] at stops
    refine first c' kind ?_
    cases e <;> exact stops

theorem next : TakesIdentifier next := by
  rintro c _ _ rfl
  exact List.suffix_refl _

theorem identifier : TakesIdentifier identifier := by
  refine bind (fun c c' kind stops => ?_) fun t => forward_pure t.text
  change StopsAt ((if c.kind = .identifier then Parser.next else _ : Parser Token) c) c' at stops
  rw [if_pos kind] at stops
  exact next c c' kind stops

theorem leaving {depth : Cursor → Nat} (h : TakesIdentifier p) :
    TakesIdentifier (leaving depth p) := by
  intro c c' kind stops
  have inner := h c
  unfold Parser.leaving at stops
  cases run : p c with
  | ok a d =>
    rw [run] at inner stops
    cases stops
    exact inner d kind rfl
  | error e d =>
    rw [run] at inner stops
    cases e with
    | unexpectedToken =>
      cases stops
      exact inner d kind rfl
    | _ => exact stops.elim

theorem deeper (h : TakesIdentifier p) : TakesIdentifier (deeper p) := by
  intro c c' kind stops
  change StopsAt ((enter >>= fun _ => Parser.leaving (·.depth - 1) p) c) c' at stops
  obtain ⟨-, run⟩ | run := enter_bind_cases (c := c) fun _ => Parser.leaving (·.depth - 1) p
  · rw [run] at stops
    exact h.leaving { c with depth := c.depth + 1 } c' kind stops
  · rw [run] at stops
    exact stops.elim

theorem chain {operand : Parser Expr} (tier : Tier) (h : TakesIdentifier operand)
    (forward : ∀ c, Forward c (operand c)) : TakesIdentifier (chain (operatorOf tier) operand) := by
  intro c c' kind stops
  refine leaving (h.bind fun e => ?_) c c' kind stops
  exact forward_law.iterate e (forward_law.chainStep tier forward)
    (forward_law.chainStep_repeatable tier forward)

theorem expressionOf {primary : Parser Expr} (h : TakesIdentifier primary)
    (forward : ∀ c, Forward c (primary c)) : TakesIdentifier (expressionOf primary) := by
  have product := forward_law.chain .multiplicative forward
  have sum := forward_law.chain .additive product
  exact deeper (chain .comparison (chain .additive (chain .multiplicative h forward) product) sum)

theorem primary (levels : Nat) : TakesIdentifier (primary levels) := by
  intro c c' kind stops
  cases levels with
  | zero => exact stops.elim
  | succ levels =>
    unfold Parser.primary primaryWith at stops
    rw [kind_eq_firstKind] at kind
    rw [peek_bind_apply, kind] at stops
    have arguments :=
      forward_law.argumentsWith (forward_law.expressionOf (forward_law.primary levels))
    rw [← kind_eq_firstKind] at kind
    exact bind next (fun t => forward_law.callOrName arguments t.text) c c' kind stops

end TakesIdentifier

/-- An identifier is taken whichever statement it starts. So the look at the token after it does not
go further than the parser itself. -/
theorem tight_assignOrExpr : Tight (before .identifier assignOrExpr) := by
  have assign := tight_law.assignment
  have expr : Tight (do return Stmt.expr (← expression)) :=
    tight_law.bind tight_law.expression fun e => tight_law.pure _
  have takes : TakesIdentifier assignOrExpr := by
    intro c c' kind stops
    change StopsAt ((if c.secondKind = .symbol .assign then _ else _ : Parser Stmt) c) c' at stops
    split at stops
    · refine TakesIdentifier.bind .identifier (fun name => ?_) c c' kind stops
      exact forward_law.require .symbol (forward_law.bind forward_law.expression fun e =>
        forward_law.pure _)
    · refine TakesIdentifier.bind ?_ (fun e => forward_pure _) c c' kind stops
      exact .expressionOf (.primary _) (forward_law.primary _)
  have run (c : Cursor) : before .identifier assignOrExpr c =
      (if c.kind = .identifier then assignOrExpr else refuse _ : Parser Stmt) c := rfl
  have inner (c : Cursor) : assignOrExpr c =
      (if c.secondKind = .symbol .assign then _ else _ : Parser Stmt) c := rfl
  refine ⟨forward_programLaw.assignOrExpr, fun σ c proper proper' sees => ?_⟩
  have moved := forward_programLaw.assignOrExpr c
  have spares := sees.start moved enough_ne_nil
  rw [run] at sees moved ⊢
  rw [run, Swap.kind_cursor spares]
  by_cases kind : c.kind = .identifier
  · rw [if_pos kind] at sees moved ⊢
    obtain ⟨c', stops, spares'⟩ := sees.stopsAt
    have later := moved.of_stopsAt stops
    have second : σ.Spares (· ≠ []) { c with rest := c.rest.tail } :=
      spares'.earlier ⟨takes c c' kind stops, later.endLine, later.size, later.depth⟩
        enough_ne_nil.longer
    have same : (σ.cursor c).secondKind = c.secondKind := by
      rw [Cursor.secondKind, Swap.tail_cursor second, Swap.kind_cursor second]
      rfl
    rw [inner] at sees ⊢
    rw [inner, same]
    split at sees
    · rw [if_pos ‹_›]
      exact assign.swap σ c proper proper' sees
    · rw [if_neg ‹_›]
      exact expr.swap σ c proper proper' sees
  · rw [if_neg kind] at sees ⊢
    exact (tight_refuse _).swap σ c proper proper' sees

theorem firstKind_dropWhile (ts : List Token) :
    firstKind (ts.dropWhile (·.kind == .newline)) ≠ .newline := by
  induction ts with
  | nil => simp [firstKind]
  | cons t ts ih =>
    rw [List.dropWhile_cons]
    split
    next => exact ih
    next other => simpa [firstKind] using other

section Breaks

variable {σ : Swap} {c : Cursor}

/-- The token after line breaks stays in place: so do the breaks, and the token ends them. -/
theorem Swap.breaks_cursor
    (h : σ.Spares (· ≠ []) { c with rest := c.rest.dropWhile (·.kind == .newline) }) :
    σ.Spares PastBreaks c ∧
      { σ.cursor c with rest := (σ.cursor c).rest.dropWhile (·.kind == .newline) } =
        σ.cursor { c with rest := c.rest.dropWhile (·.kind == .newline) } := by
  obtain ⟨u, split, stays⟩ := h
  change c.rest.dropWhile (·.kind == .newline) = u ++ σ.old at split
  have whole : c.rest = c.rest.takeWhile (·.kind == .newline) ++ u ++ σ.old := by
    rw [List.append_assoc, ← split, List.takeWhile_append_dropWhile]
  have stop := firstKind_dropWhile c.rest
  rw [split] at stop
  have moved : (σ.cursor c).rest.dropWhile (·.kind == .newline) = u ++ σ.new := by
    rw [rest_cursor whole, List.append_assoc]
    refine dropWhile_breaks (breaks_takeWhile c.rest) ?_
    cases u with
    | cons t u => exact stop
    | nil =>
      obtain ⟨-, new, -⟩ := stays.resolve_left (absurd rfl)
      rw [new]
      exact nofun
  refine ⟨⟨_, whole, ?_⟩, ?_⟩
  · rcases stays with some | none
    · cases u with
      | nil => exact absurd rfl some
      | cons t u => exact .inl ⟨t, by simp, stop⟩
    · exact .inr none
  · rw [moved, ← rest_cursor (c := { c with rest := _ }) split]
    rfl

/-- What stays in place past line breaks does so once they are skipped. -/
theorem Swap.Spares.afterBreaks (h : σ.Spares PastBreaks c) :
    σ.Spares (· ≠ []) { c with rest := c.rest.dropWhile (·.kind == .newline) } := by
  obtain ⟨u, split, stays⟩ := h
  refine ⟨u.dropWhile (·.kind == .newline), ?_, ?_⟩
  · change c.rest.dropWhile (·.kind == .newline) = _
    rw [split]
    rcases stays with ⟨t, mem, kind⟩ | ⟨old, -, -⟩
    · rw [List.dropWhile_append, if_neg]
      intro empty
      exact kind (by simpa using List.dropWhile_eq_nil_iff.1 (List.isEmpty_iff.1 empty) t mem)
    · rw [old, List.append_nil, List.append_nil]
  · rcases stays with ⟨t, mem, kind⟩ | none
    · refine .inl fun empty => ?_
      exact kind (by simpa using List.dropWhile_eq_nil_iff.1 empty t mem)
    · exact .inr none

end Breaks

theorem tight_skipBreaks : Tight skipBreaks where
  forward _ := Cursor.Within.of_rest (List.dropWhile_suffix _)
  swap _ _ _ _ sees := congrArg (EStateM.Result.ok ()) (Swap.breaks_cursor sees).2

/-- Skipping line breaks makes up for having looked past them. -/
theorem Loose.skipBreaks {p : Parser α} (h : Loose p) (g : α → β) :
    Tight (do let a ← p; skipBreaks; return g a) where
  forward := forward_bind h.forward fun a => forward_bind tight_skipBreaks.forward fun _ =>
    forward_pure (g a)
  swap σ c proper proper' sees := by
    have first := h.swap σ c proper proper'
    cases run : p c with
    | ok a c' =>
      rw [run] at first
      rw [bind_apply_of_ok run] at sees ⊢
      obtain ⟨spares, same⟩ := Swap.breaks_cursor sees
      rw [bind_apply_of_ok (first spares)]
      exact congrArg (EStateM.Result.ok (g a)) same
    | error e c' =>
      rw [run] at first
      rw [bind_apply_of_error run] at sees ⊢
      have sees : σ.Sees Swap.PastBreaks (.error e c' : EStateM.Result _ _ α) := by
        cases e <;> exact sees
      rw [bind_apply_of_error (first sees)]
      rfl

theorem Swap.Sees.weaken {σ : Swap} {enough : List Token → Prop} (rules : Enough enough)
    {r : EStateM.Result SyntaxError Cursor α} (h : σ.Sees enough r) : σ.Sees (· ≠ []) r := by
  cases r with
  | ok a c => exact Swap.Spares.weaken h rules.ne_nil
  | error e c => cases e <;> exact h

theorem loose_defeat {p : Parser α} (a : α) (h : Tight p) :
    Loose (do if ← acceptAfterBreaks (.keyword .defeat) then p else return a) where
  forward := forward_programLaw.defeat a h.forward
  swap σ c proper proper' sees := by
    have accepted := acceptAfterBreaks_apply (.keyword .defeat) c
    have accepted' := acceptAfterBreaks_apply (.keyword .defeat) (σ.cursor c)
    let d : Cursor := { c with rest := c.rest.dropWhile (·.kind == .newline) }
    let after : Cursor := { d with rest := d.rest.tail }
    have later : after.Within d := .of_rest (List.tail_suffix _)
    have skipped : d.Within c := .of_rest (List.dropWhile_suffix _)
    -- The token after the line breaks is the same, and so are the tokens up to it.
    have same (spares : σ.Spares (· ≠ []) d) :
        (σ.cursor c).rest.dropWhile (·.kind == .newline) = (σ.cursor d).rest ∧
        firstKind (σ.cursor d).rest = firstKind d.rest := by
      refine ⟨congrArg Cursor.rest (Swap.breaks_cursor spares).2, ?_⟩
      rw [← kind_eq_firstKind, ← kind_eq_firstKind, Swap.kind_cursor spares]
    by_cases found : firstKind (c.rest.dropWhile (·.kind == .newline)) = .keyword .defeat
    · rw [if_pos found] at accepted
      rw [bind_apply_of_ok accepted] at sees ⊢
      change σ.Sees Swap.PastBreaks (p after) at sees
      have sees := sees.weaken enough_pastBreaks
      have spares := sees.start (h.forward after) enough_ne_nil
      have next := Swap.tail_cursor (c := d) spares
      obtain ⟨breaks, kind⟩ := same (spares.earlier later enough_ne_nil.longer)
      rw [breaks, kind, if_pos found] at accepted'
      rw [bind_apply_of_ok accepted']
      change p { σ.cursor d with rest := (σ.cursor d).rest.tail } = σ.result (p after)
      rw [next]
      have proper₁ := (later.trans skipped).proper proper
      exact h.swap σ after proper₁
        (Swap.proper_cursor spares (later.trans skipped) proper' proper₁) sees
    · rw [if_neg found] at accepted
      rw [bind_apply_of_ok accepted] at sees ⊢
      obtain ⟨breaks, kind⟩ := same (Swap.Spares.afterBreaks sees)
      rw [breaks, kind, if_neg found] at accepted'
      rw [bind_apply_of_ok accepted']
      rfl

/-- A statement with the line breaks after it, in place of those before it. -/
def statementThenBreaks (closing : Token.Kind → Bool) (statement : Parser Stmt)
    (done : List Stmt) : Parser (Option (List Stmt)) := do
  if closing (← peek) then return none
  else
    let s ← statement
    skipBreaks
    return some (s :: done)

section Statements

variable {closing : Token.Kind → Bool} {statement : Parser Stmt}

theorem tight_statementThenBreaks (closing : Token.Kind → Bool) (h : Loose statement)
    (done : List Stmt) : Tight (statementThenBreaks closing statement done) := by
  refine Local.bind enough_ne_nil tight_peek fun kind => ?_
  cases closing kind with
  | true => exact local_pure none
  | false => exact h.skipBreaks fun s => some (s :: done)

theorem statementStep_apply (closing : Token.Kind → Bool) (statement : Parser Stmt)
    (done : List Stmt) (c : Cursor) :
    statementStep closing statement done c =
      (if closing (firstKind (c.rest.dropWhile (·.kind == .newline))) then pure none
        else do return some ((← statement) :: done) : Parser (Option (List Stmt)))
        { c with rest := c.rest.dropWhile (·.kind == .newline) } := by
  change (peek >>= fun kind => if closing kind then pure none else _)
    { c with rest := c.rest.dropWhile (·.kind == .newline) } = _
  rw [peek_bind_apply]

theorem dropWhile_of_nil {c : Cursor} (empty : c.rest = []) :
    ({ c with rest := c.rest.dropWhile (·.kind == .newline) } : Cursor) = c := by
  rw [empty, List.dropWhile_nil, ← empty]

theorem statementStep_repeatable (ends : closing .eof) (derives : Derives statement Statement) :
    Repeatable (statementStep closing statement) where
  shortens run proper := by
    obtain ⟨gap, r, hr, -, ⟨none, -⟩ | ⟨s, -, run⟩⟩ := statementStep_ok run
    · cases none
    · have size := proper.1
      rw [hr, List.length_append] at size
      obtain ⟨w, n, hw, -, -, -, derived⟩ :=
        derives _ _ _ run (Nat.le_trans (Nat.le_add_left _ _) size) proper.2
      have taken := List.length_pos_iff.2 derived.ne_nil
      change r = w ++ _ at hw
      rw [hr, hw]
      simp only [List.length_append]
      omega
  ends done empty := by
    rw [statementStep_apply, dropWhile_of_nil empty, empty, List.dropWhile_nil, firstKind,
      if_pos ends]
    rfl

/-- Whether the line breaks are skipped before or after each statement does not matter. -/
theorem repeatUpTo_statementStep (ends : closing .eof) (derives : Derives statement Statement)
    (forward : ∀ c, Forward c (statement c)) (n : Nat) :
    ∀ {done : List Stmt} {c : Cursor}, c.Proper → c.rest.length ≤ n →
      repeatUpTo (statementStep closing statement) n done c =
        (skipBreaks >>= fun _ =>
          repeatUpTo (statementThenBreaks closing statement) n done) c := by
  have skip (f : Unit → Parser (List Stmt)) (c : Cursor) : (skipBreaks >>= f) c =
      f () { c with rest := c.rest.dropWhile (·.kind == .newline) } := rfl
  induction n with
  | zero =>
    intro done c _ short
    have empty : c.rest = [] := List.eq_nil_of_length_eq_zero (by omega)
    rw [skip, dropWhile_of_nil empty]
    rfl
  | succ n ih =>
    intro done c proper short
    have step := statementStep_apply closing statement done c
    rw [skip]
    let d : Cursor := { c with rest := c.rest.dropWhile (·.kind == .newline) }
    change _ = repeatUpTo _ _ _ d
    have step' : statementThenBreaks closing statement done d =
        (if closing (firstKind d.rest) then pure none
          else statement >>= fun s => skipBreaks >>= fun _ => pure (some (s :: done)) :
          Parser (Option (List Stmt))) d :=
      peek_bind_apply _
    unfold repeatUpTo
    by_cases closes : closing (firstKind d.rest)
    · rw [if_pos closes] at step step'
      rw [bind_apply_of_ok step, bind_apply_of_ok step']
    rw [if_neg closes] at step step'
    cases run : statement d with
    | error e c' =>
      rw [bind_apply_of_error run] at step step'
      rw [bind_apply_of_error step, bind_apply_of_error step']
    | ok s c' =>
      rw [bind_apply_of_ok run] at step step'
      have shorter := (statementStep_repeatable ends derives).shortens step proper
      have moved := forward_statementStep closing forward done c
      rw [step] at moved
      rw [bind_apply_of_ok step, bind_apply_of_ok step']
      exact ih (Cursor.Within.proper moved proper) (by omega)

theorem tight_statements (ends : closing .eof) (derives : Derives statement Statement)
    (h : Loose statement) : Tight (statements closing statement) := by
  refine Local.bind enough_ne_nil ⟨fun c => ?_, fun σ c proper proper' sees => ?_⟩
    fun done => local_pure done.reverse
  · exact forward_repeatUpTo (forward_statementStep closing h.forward) c.size [] c
  · have bound {d : Cursor} {m : Nat} (le : d.size ≤ m) (proper : d.Proper) :
        iterate (statementStep closing statement) [] d = (skipBreaks >>= fun _ =>
          repeatUpTo (statementThenBreaks closing statement) m []) d := by
      rw [← repeatUpTo_statementStep ends derives h.forward m proper (proper.1.trans le)]
      exact (statementStep_repeatable ends derives).repeatUpTo_eq
        (forward_statementStep closing h.forward) le proper proper.1
    have le : c.size ≤ max c.size σ.size := Nat.le_max_left _ _
    have le' : (σ.cursor c).size ≤ max c.size σ.size := Nat.le_max_right _ _
    rw [bound le proper] at sees ⊢
    rw [bound le' proper']
    have steps := tight_repeatUpTo (tight_statementThenBreaks closing h) (max c.size σ.size) []
    exact (Local.bind enough_ne_nil tight_skipBreaks fun _ => steps).swap σ c proper proper' sees

end Statements

/-- A program sees no more than the token it stops at, and a statement no further than the line
breaks after it and the token that ends them. -/
theorem tight_programLaw : ProgramLaw Tight Loose where
  toLaw := tight_law
  assignOrExpr := tight_assignOrExpr
  weaken h := ⟨h.forward, fun σ c proper proper' sees =>
    h.swap σ c proper proper' (sees.weaken enough_pastBreaks)⟩
  bindWeak := Local.bind enough_pastBreaks
  defeat := loose_defeat
  statements := tight_statements

end CypherLang.Parser
