import CypherLang.Proofs.Syntax.Locality

namespace CypherLang

/-- The error on another line. -/
def SyntaxError.mapLine (f : UInt32 → UInt32) : SyntaxError → SyntaxError
  | unexpectedToken expected found line => unexpectedToken expected found (f line)
  | invalidNumber text line => invalidNumber text (f line)
  | nestingTooDeep line => nestingTooDeep (f line)

namespace Cursor

/-- The place after the next token. -/
def afterNext (c : Cursor) : Cursor := { c with rest := c.rest.tail }

/-- The place after any line breaks. -/
def afterBreaks (c : Cursor) : Cursor :=
  { c with rest := c.rest.dropWhile (·.kind == .newline) }

/-- The same place at another depth. -/
def withDepth (c : Cursor) (depth : Nat) : Cursor := { c with depth := depth }

end Cursor

namespace Parser

variable {α β : Type}

theorem next_bind_eq (f : Token → Parser α) (c : Cursor) :
    (next >>= f) c = f c.token c.afterNext := rfl

/-- What a run gives, without the place where it ends. -/
def answer : EStateM.Result SyntaxError Cursor α → Except SyntaxError α
  | .ok a _ => .ok a
  | .error e _ => .error e

/-- A relation between cursors in which no step of a parser finds a difference. Of the lines that an
error can tell, `line` keeps what is the same on both sides. -/
structure Likeness (line : UInt32 → UInt32) (Alike : Cursor → Cursor → Prop) : Prop where
  depth {c d : Cursor} : Alike c d → c.depth = d.depth
  withDepth {c d : Cursor} (depth : Nat) : Alike c d → Alike (c.withDepth depth) (d.withDepth depth)
  kind {c d : Cursor} : Alike c d → c.kind = d.kind
  line {c d : Cursor} : Alike c d → line c.token.line = line d.token.line
  text {c d : Cursor} : Alike c d → c.kind.Plain → c.token.text = d.token.text
  afterNext {c d : Cursor} : Alike c d → c.kind.Plain → Alike c.afterNext d.afterNext
  afterBreaks {c d : Cursor} : Alike c d → Alike c.afterBreaks d.afterBreaks

/-- The same value at places that are alike, or the same error but for its line. -/
inductive Agree (line : UInt32 → UInt32) (Alike : Cursor → Cursor → Prop) :
    EStateM.Result SyntaxError Cursor α → EStateM.Result SyntaxError Cursor α → Prop
  | ok {a : α} {c d : Cursor} : Alike c d → Agree line Alike (.ok a c) (.ok a d)
  | error {e e' : SyntaxError} {c d : Cursor} : e.mapLine line = e'.mapLine line →
    Agree line Alike (.error e c) (.error e' d)

theorem Agree.answer_eq {line : UInt32 → UInt32} {Alike : Cursor → Cursor → Prop}
    {r s : EStateM.Result SyntaxError Cursor α} (h : Agree line Alike r s) :
    (answer r).mapError (SyntaxError.mapLine line) =
      (answer s).mapError (SyntaxError.mapLine line) := by
  cases h with
  | ok => rfl
  | error same => exact congrArg Except.error same

/-- The parser moves forward, and it does the same at cursors that are alike. -/
structure Indifferent (line : UInt32 → UInt32) (Alike : Cursor → Cursor → Prop) (p : Parser α) :
    Prop where
  forward : ∀ c, Forward c (p c)
  agree {c d : Cursor} : c.Proper → d.Proper → Alike c d → Agree line Alike (p c) (p d)

namespace Likeness

variable {line : UInt32 → UInt32} {Alike : Cursor → Cursor → Prop} {c d : Cursor}

theorem pure (a : α) : Indifferent line Alike (Pure.pure a : Parser α) where
  forward := forward_pure a
  agree _ _ alike := .ok alike

theorem bind {p : Parser α} {f : α → Parser β} (hp : Indifferent line Alike p)
    (hf : ∀ a, Indifferent line Alike (f a)) : Indifferent line Alike (p >>= f) where
  forward := forward_bind hp.forward fun a => (hf a).forward
  agree {c d} proper proper' alike := by
    have moved := hp.forward c
    have moved' := hp.forward d
    have first := hp.agree proper proper' alike
    generalize run : p c = r at moved first
    generalize run' : p d = s at moved' first
    cases first with
    | @ok a c' d' alike' =>
      rw [bind_apply_of_ok run, bind_apply_of_ok run']
      exact (hf a).agree (moved.proper proper) (moved'.proper proper') alike'
    | error same =>
      rw [bind_apply_of_error run, bind_apply_of_error run']
      exact .error same

section

variable (like : Likeness line Alike)
include like

theorem peek : Indifferent line Alike peek where
  forward := forward_peek
  agree {c d} _ _ alike := by
    change Agree line Alike (.ok c.kind c) (.ok d.kind d)
    rw [like.kind alike]
    exact .ok alike

theorem refuse (expected : Wanted) : Indifferent line Alike (refuse expected : Parser α) where
  forward := forward_refuse expected
  agree {c d} _ _ alike := by
    refine .error ?_
    change SyntaxError.unexpectedToken expected c.kind (line c.token.line) =
      .unexpectedToken expected d.kind (line d.token.line)
    rw [like.kind alike, like.line alike]

theorem before (kind : Token.Kind) {p : Parser α} (forward : ∀ c, Forward c (p c))
    (agree : ∀ {c d : Cursor}, c.Proper → d.Proper → Alike c d → c.kind = kind →
      Agree line Alike (p c) (p d)) : Indifferent line Alike (before kind p) where
  forward := forward_before kind forward
  agree {c d} proper proper' alike := by
    rw [before_apply, before_apply, ← like.kind alike]
    by_cases same : c.kind = kind
    · rw [if_pos same]
      exact agree proper proper' alike same
    · rw [if_neg same]
      exact (like.refuse _).agree proper proper' alike

theorem nextText {kind : Token.Kind} (plain : kind.Plain) :
    Indifferent line Alike (Parser.before kind do return (← next).text) := by
  refine like.before kind (forward_bind forward_next fun t => forward_pure t.text) ?_
  rintro c d - - alike rfl
  change Agree line Alike (.ok c.token.text c.afterNext) (.ok d.token.text d.afterNext)
  rw [like.text alike plain]
  exact .ok (like.afterNext alike plain)

theorem number : Indifferent line Alike (Parser.before .number number) := by
  refine like.before .number forward_number fun {c d} _ _ alike kind => ?_
  have plain : c.kind.Plain := by
    rw [kind]
    decide
  unfold Parser.number
  rw [next_bind_eq, next_bind_eq, like.text alike plain]
  cases Literal.ofNumber? d.token.text with
  | some l => exact .ok (like.afterNext alike plain)
  | none => exact .error (congrArg (SyntaxError.invalidNumber d.token.text) (like.line alike))

theorem tooDeep : Indifferent line Alike
    (do throw (.nestingTooDeep (← get).token.line) : Parser α) where
  forward := forward_law.tooDeep
  agree _ _ alike := .error (congrArg SyntaxError.nestingTooDeep (like.line alike))

theorem enter : Indifferent line Alike enter where
  forward := forward_enter
  agree {c d} _ _ alike := by
    rw [enter_apply, enter_apply, like.depth alike]
    split
    · exact .ok (like.withDepth (d.depth + 1) alike)
    · exact .error (congrArg SyntaxError.nestingTooDeep (like.line alike))

/-- Both runs leave the same depth behind. -/
theorem leaving {p : Parser α} {depth depth' : Cursor → Nat} (h : Agree line Alike (p c) (p d))
    (same : ∀ {c d}, Alike c d → depth c = depth' d) :
    Agree line Alike (leaving depth p c) (leaving depth' p d) := by
  unfold Parser.leaving
  generalize p c = r at h
  generalize p d = s at h
  cases h with
  | @ok a c' d' alike =>
    have left := like.withDepth (depth c') alike
    exact .ok (same alike ▸ left)
  | error same => exact .error same

theorem deeper {p : Parser α} (h : Indifferent line Alike p) :
    Indifferent line Alike (deeper p) := by
  refine bind like.enter fun _ => ⟨?_, fun proper proper' alike => ?_⟩
  · exact fun c => forward_leaving (h.forward c) fun _ _ => Counter.exact_down_le
  · exact like.leaving (h.agree proper proper' alike) fun alike => by rw [like.depth alike]

theorem restoringDepth {p : Parser α} (h : Indifferent line Alike p) :
    Indifferent line Alike (restoringDepth p) where
  forward := forward_restoringDepth h.forward
  agree proper proper' alike :=
    like.leaving (h.agree proper proper' alike) fun _ => like.depth alike

omit like in
theorem repeatUpTo {step : α → Parser (Option α)} (h : ∀ a, Indifferent line Alike (step a))
    (n : Nat) : ∀ a, Indifferent line Alike (repeatUpTo step n a) := by
  induction n with
  | zero => exact pure
  | succ n ih =>
    intro a
    refine bind (h a) fun next => ?_
    cases next with
    | some b => exact ih b
    | none => exact pure a

omit like in
/-- The number of tokens at the start may differ: it only bounds the steps. -/
theorem iterate {step : α → Parser (Option α)} (a : α)
    (h : ∀ a, Indifferent line Alike (step a)) (repeatable : Repeatable step) :
    Indifferent line Alike (iterate step a) where
  forward c := forward_repeatUpTo (fun a => (h a).forward) c.size a c
  agree {c d} proper proper' alike := by
    have bound {c : Cursor} {m : Nat} (le : c.size ≤ m) (proper : c.Proper) :
        Parser.iterate step a c = Parser.repeatUpTo step m a c :=
      repeatable.repeatUpTo_eq (fun a => (h a).forward) le proper proper.1
    rw [bound (Nat.le_max_left c.size d.size) proper,
      bound (Nat.le_max_right c.size d.size) proper']
    exact (repeatUpTo h _ a).agree proper proper' alike

/-- Every expression is read the same way at cursors that are alike. -/
theorem law : Law (Indifferent line Alike) where
  forward {α p a c c'} h run := by
    have moved := h.forward c
    rw [run] at moved
    exact moved.rest
  pure := pure
  bind := bind
  peek := like.peek
  nextText := like.nextText
  number := like.number
  refuse := like.refuse
  tooDeep := like.tooDeep
  enter := like.enter
  deeper := like.deeper
  restoringDepth := like.restoringDepth
  iterate := iterate

theorem assignOrExpr : Indifferent line Alike (Parser.before .identifier assignOrExpr) := by
  have assign := like.law.assignment
  have expr : Indifferent line Alike (do return Stmt.expr (← expression)) :=
    like.law.bind like.law.expression fun e => like.law.pure _
  have run (c : Cursor) : Parser.assignOrExpr c =
      (if c.afterNext.kind = .symbol .assign then _ else _ : Parser Stmt) c := rfl
  refine like.before .identifier forward_assignOrExpr fun {c d} proper proper' alike kind => ?_
  have next := like.afterNext alike (by rw [kind]; decide)
  rw [run, run, ← like.kind next]
  split
  · exact assign.agree proper proper' alike
  · exact expr.agree proper proper' alike

theorem acceptAfterBreaks {kind : Token.Kind} (plain : kind.Plain) :
    Indifferent line Alike (acceptAfterBreaks kind) where
  forward := forward_acceptAfterBreaks kind
  agree {c d} _ _ alike := by
    have breaks := like.afterBreaks alike
    have run (c : Cursor) : Parser.acceptAfterBreaks kind c =
        if c.afterBreaks.kind = kind then .ok true c.afterBreaks.afterNext else .ok false c := by
      rw [acceptAfterBreaks_apply, kind_eq_firstKind]
      rfl
    rw [run, run, ← like.kind breaks]
    split
    next found =>
      rw [← found] at plain
      exact .ok (like.afterNext breaks plain)
    next => exact .ok alike

theorem statementStep (closing : Token.Kind → Bool) {statement : Parser Stmt}
    (h : Indifferent line Alike statement) (done : List Stmt) :
    Indifferent line Alike (statementStep closing statement done) := by
  have skip : Indifferent line Alike skipBreaks :=
    ⟨fun c => Cursor.Within.of_rest (List.dropWhile_suffix _), fun _ _ alike =>
      .ok (like.afterBreaks alike)⟩
  refine bind skip fun _ => bind like.peek fun kind => ?_
  cases closing kind with
  | true => exact pure none
  | false => exact bind h fun s => pure _

/-- And so is every program. -/
theorem programLaw : ProgramLaw (Indifferent line Alike) (Indifferent line Alike) where
  toLaw := like.law
  assignOrExpr := like.assignOrExpr
  weaken := id
  bindWeak := bind
  defeat a h := by
    refine bind (like.acceptAfterBreaks .keyword) fun found => ?_
    cases found with
    | true => exact h
    | false => exact pure a
  statements {_ closing} ends derives h := by
    refine bind (iterate [] (like.statementStep closing h) ?_) fun done => pure _
    exact statementStep_repeatable ends derives

/-- The parser for programs gives the same at cursors that are alike. -/
theorem answer_program (alike : Alike c d) (proper : c.Proper) (proper' : d.Proper) :
    (answer (program c)).mapError (SyntaxError.mapLine line) =
      (answer (program d)).mapError (SyntaxError.mapLine line) :=
  (like.programLaw.program.agree proper proper' alike).answer_eq

end

end Likeness

end Parser

theorem Program.ofTokens_eq_answer (tokens : List Token) :
    ofTokens tokens = Parser.answer (Parser.program (.ofTokens tokens)) := by
  unfold ofTokens
  cases Parser.program (.ofTokens tokens) <;> rfl

end CypherLang
