import CypherLang.Proofs.Syntax.Soundness

namespace CypherLang

/-- The number of tokens at the start bounds those that are left, and the limit the levels. -/
def Cursor.Proper (c : Cursor) : Prop := c.rest.length ≤ c.size ∧ c.depth ≤ maxNesting

/-- A kind that is neither a line break nor the end of the file. -/
def Token.Kind.Plain (kind : Token.Kind) : Prop := kind ≠ .newline ∧ kind ≠ .eof

instance (kind : Token.Kind) : Decidable kind.Plain := inferInstanceAs (Decidable (_ ∧ _))

theorem Token.Kind.Plain.keyword {k : Keyword} : Plain (.keyword k) := by simp [Plain]

theorem Token.Kind.Plain.symbol {s : Symbol} : Plain (.symbol s) := by simp [Plain]

namespace Parser

/-- A step that takes a token whenever it gives a value. Where no token is left it gives none. -/
structure Repeatable (step : α → Parser (Option α)) : Prop where
  shortens {a b : α} {c c' : Cursor} : step a c = .ok (some b) c' → c.Proper →
    c'.rest.length < c.rest.length
  ends {c : Cursor} (a : α) : c.rest = [] → step a c = .ok none c

/-- Runs a parser where a token of the given kind follows. -/
def before (kind : Token.Kind) (p : Parser α) : Parser α := do
  if (← peek) = kind then p else refuse (.kind kind)

/-- A property of the steps of a parser that is kept where steps are put together. It holds only of
parsers that do not put tokens back. A single token is taken after a look at its kind, which has to
be a plain one. -/
structure Law (R : ∀ {α : Type}, Parser α → Prop) : Prop where
  forward {α : Type} {p : Parser α} {a : α} {c c' : Cursor} : R p → p c = .ok a c' →
    c'.rest <:+ c.rest
  pure {α : Type} (a : α) : R (pure a : Parser α)
  bind {α β : Type} {p : Parser α} {f : α → Parser β} : R p → (∀ a, R (f a)) → R (p >>= f)
  peek : R peek
  nextText {kind : Token.Kind} : kind.Plain → R (before kind do return (← next).text)
  number : R (before .number number)
  refuse {α : Type} (expected : Wanted) : R (refuse expected : Parser α)
  tooDeep {α : Type} : R (do throw (.nestingTooDeep (← get).token.line) : Parser α)
  enter : R enter
  deeper {α : Type} {p : Parser α} : R p → R (deeper p)
  restoringDepth {α : Type} {p : Parser α} : R p → R (restoringDepth p)
  iterate {α : Type} {step : α → Parser (Option α)} (a : α) :
    (∀ a, R (step a)) → Repeatable step → R (iterate step a)

/-- What a statement that starts with an identifier is, by the token after it. -/
def assignOrExpr : Parser Stmt := do
  if (← get).secondKind = .symbol .assign then
    let name ← identifier
    let _ ← require (.symbol .assign)
    return .assign name (← expression)
  else return .expr (← expression)

/-- A law for programs. Two steps look further than the next token: one looks at the token after
an identifier, and one past all line breaks for a `defeat`. Of a parser that ends with the second
one there is a property `S` that may be weaker. -/
structure ProgramLaw (R S : ∀ {α : Type}, Parser α → Prop) : Prop extends Law R where
  assignOrExpr : R (before .identifier assignOrExpr)
  weaken {α : Type} {p : Parser α} : R p → S p
  bindWeak {α β : Type} {p : Parser α} {f : α → Parser β} : R p → (∀ a, S (f a)) → S (p >>= f)
  defeat {α : Type} {p : Parser α} (a : α) : R p →
    S (do if ← acceptAfterBreaks (.keyword .defeat) then p else return a)
  statements {statement : Parser Stmt} {closing : Token.Kind → Bool} : closing .eof →
    Derives statement Yield.Statement → S statement → R (statements closing statement)

section Before

variable {α β : Type}

theorem before_apply (kind : Token.Kind) (p : Parser α) (c : Cursor) :
    before kind p c = (if c.kind = kind then p else refuse (.kind kind) : Parser α) c := rfl

theorem before_bind (kind : Token.Kind) (p : Parser α) (f : α → Parser β) :
    before kind p >>= f = before kind (p >>= f) := by
  unfold before
  rw [bind_assoc]
  congr 1
  funext found
  by_cases same : found = kind
  · rw [if_pos same, if_pos same]
  · rw [if_neg same, if_neg same]
    rfl

/-- What follows a look at the next token may rely on its kind. -/
theorem peek_bind_before (f : Token.Kind → Parser α) :
    peek >>= f = peek >>= fun kind => before kind (f kind) := by
  funext c
  change f c.kind c = before c.kind (f c.kind) c
  rw [before_apply, if_pos rfl]

/-- Going one level deeper leaves the next token as it is. -/
theorem before_enter (kind : Token.Kind) (p : Parser α) :
    before kind (do enter; p) = before kind (do enter; before kind p) := by
  funext c
  rw [before_apply, before_apply]
  by_cases same : c.kind = kind
  · rw [if_pos same, if_pos same]
    have run := enter_apply c
    by_cases room : c.depth < maxNesting
    · rw [if_pos room] at run
      have kept : Cursor.kind { c with depth := c.depth + 1 } = kind := same
      rw [bind_apply_of_ok run, bind_apply_of_ok run, before_apply, if_pos kept]
    · rw [if_neg room] at run
      rw [bind_apply_of_error run, bind_apply_of_error run]
  · rw [if_neg same, if_neg same]

end Before

namespace Law

variable {R : ∀ {α : Type}, Parser α → Prop} {α β : Type}

theorem before (law : Law R) (kind : Token.Kind) {p : Parser α} (h : R p) :
    R (before kind p) := by
  refine law.bind law.peek fun found => ?_
  by_cases same : found = kind
  · rwa [if_pos same]
  · rw [if_neg same]
    exact law.refuse _

theorem peekBind (law : Law R) {f : Token.Kind → Parser α}
    (h : ∀ kind, R (Parser.before kind (f kind))) : R (Parser.peek >>= f) := by
  rw [peek_bind_before]
  exact law.bind law.peek h

section Next

variable {kind : Token.Kind}

/-- What follows may depend on the token that was taken, but only through its text. -/
theorem nextBind (law : Law R) (plain : kind.Plain) {f : Token → Parser α}
    (textual : ∀ t u : Token, t.text = u.text → f t = f u) (h : ∀ t, R (f t)) :
    R (Parser.before kind (Parser.next >>= f)) := by
  have taken := law.bind (law.nextText plain) fun text => h ⟨.eof, text, 0⟩
  have same (t : Token) : f ⟨.eof, t.text, 0⟩ = f t := textual _ t rfl
  rw [before_bind, bind_assoc] at taken
  simpa only [pure_bind, same] using taken

theorem next (law : Law R) (plain : kind.Plain) {p : Parser α} (h : R p) :
    R (Parser.before kind do let _ ← Parser.next; p) :=
  law.nextBind plain (fun _ _ _ => rfl) fun _ => h

theorem requireBind (law : Law R) (plain : kind.Plain) {f : Token → Parser α}
    (textual : ∀ t u : Token, t.text = u.text → f t = f u) (h : ∀ t, R (f t)) :
    R (Parser.require kind >>= f) := by
  rw [show Parser.require kind = Parser.before kind Parser.next from rfl, before_bind]
  exact law.nextBind plain textual h

theorem require (law : Law R) (plain : kind.Plain) {p : Parser α} (h : R p) :
    R (do let _ ← Parser.require kind; p) :=
  law.requireBind plain (fun _ _ _ => rfl) fun _ => h

theorem identifier (law : Law R) : R identifier :=
  law.requireBind (by decide) (fun _ _ same => by rw [same]) fun _ => law.pure _

theorem accept (law : Law R) (plain : kind.Plain) : R (accept kind) := by
  refine law.peekBind fun found => ?_
  by_cases same : found = kind
  · rw [if_pos same, same]
    exact law.next plain (law.pure true)
  · rw [if_neg same]
    exact law.before _ (law.pure false)

end Next

theorem commaStep (law : Law R) {item : Parser α} (h : R item) (items : List α) :
    R (commaStep item items) := by
  refine law.bind (law.accept .symbol) fun more => ?_
  cases more with
  | true => exact law.bind h fun a => law.pure _
  | false => exact law.pure none

theorem commaStep_repeatable (law : Law R) {item : Parser α} (h : R item) :
    Repeatable (Parser.commaStep item) where
  shortens run _ := by
    obtain ⟨none, -⟩ | ⟨comma, r, a, hr, -, -, read⟩ := commaStep_ok run
    · cases none
    · rw [hr]
      exact Nat.lt_succ_of_le (law.forward h read).length_le
  ends {c} items empty := by
    obtain ⟨comma, r, hr, -⟩ | ⟨-, run⟩ := accept_bind_cases (k := .symbol .comma) (c := c)
      (fun more => if more then do return some ((← item) :: items) else return none) (by simp)
    · rw [empty] at hr
      cases hr
    · exact run

theorem commaListUnless (law : Law R) (closing : Token.Kind → Bool) {item : Parser α}
    (h : R item) : R (commaListUnless closing item) := by
  refine law.bind law.peek fun kind => ?_
  cases closing kind with
  | true => exact law.pure []
  | false =>
    refine law.bind h fun a => ?_
    have items := law.iterate [a] (law.commaStep h) (law.commaStep_repeatable h)
    exact law.bind items fun items => law.pure _

theorem chainStep (law : Law R) (tier : Tier) {operand : Parser Expr} (h : R operand)
    (left : Expr) : R (chainStep (operatorOf tier) operand left) := by
  refine law.peekBind fun kind => ?_
  cases found : operatorOf tier kind with
  | none => exact law.before _ (law.pure none)
  | some op =>
    obtain ⟨-, rfl⟩ := operatorOf_eq_some_iff.1 found
    change R (Parser.before _ (Parser.enter >>= _))
    rw [before_enter]
    refine law.before _ (law.bind law.enter fun _ => ?_)
    exact law.next .symbol (law.bind h fun e => law.pure _)

theorem chainStep_repeatable (law : Law R) (tier : Tier) {operand : Parser Expr}
    (h : R operand) : Repeatable (Parser.chainStep (operatorOf tier) operand) where
  shortens run _ := by
    obtain ⟨none, -⟩ | ⟨op, o, r, right, hr, -, -, -, -, read⟩ := chainStep_ok run
    · cases none
    · rw [hr]
      exact Nat.lt_succ_of_le (law.forward h read).length_le
  ends left empty := by
    unfold Parser.chainStep foldStep
    rw [peek_bind_apply, empty]
    cases tier <;> rfl

theorem chain (law : Law R) (tier : Tier) {operand : Parser Expr} (h : R operand) :
    R (chain (operatorOf tier) operand) := by
  refine law.restoringDepth (law.bind h fun e => ?_)
  exact law.iterate e (law.chainStep tier h) (law.chainStep_repeatable tier h)

theorem expressionOf (law : Law R) {primary : Parser Expr} (h : R primary) :
    R (expressionOf primary) :=
  law.deeper (law.chain .comparison (law.chain .additive (law.chain .multiplicative h)))

theorem literal (law : Law R) (k : Keyword) (l : Literal) :
    R (Parser.before (.keyword k) (literal l)) :=
  law.next .keyword (law.pure _)

theorem argumentsWith (law : Law R) {argument : Parser Expr} (h : R argument) :
    R (argumentsWith argument) := by
  refine law.require .symbol (law.bind (law.commaListUnless _ h) fun args => ?_)
  exact law.require .symbol (law.pure args)

theorem callOrName (law : Law R) {arguments : Parser (List Expr)} (h : R arguments)
    (name : String) : R (callOrName arguments name) := by
  refine law.bind law.peek fun kind => ?_
  split
  · exact law.bind h fun args => law.pure _
  · exact law.pure _

theorem primary (law : Law R) (levels : Nat) : R (primary levels) := by
  induction levels with
  | zero => exact law.tooDeep
  | succ levels ih =>
    refine law.peekBind fun kind => ?_
    split
    · exact law.number
    · exact law.nextBind (by decide) (fun _ _ same => by rw [same]) fun t => law.pure _
    · exact law.literal _ _
    · exact law.literal _ _
    · exact law.literal _ _
    · exact law.nextBind (by decide) (fun _ _ same => by simp only [same])
        fun t => law.callOrName (law.argumentsWith (law.expressionOf ih)) t.text
    · refine law.next .symbol (law.bind (law.expressionOf ih) fun e => ?_)
      exact law.require .symbol (law.pure e)
    · exact law.next .symbol (law.deeper (law.bind ih fun e => law.pure _))
    · exact law.before _ (law.refuse _)

theorem expression (law : Law R) : R expression := law.expressionOf (law.primary _)

/-- An assignment, after its name has been recognised. -/
theorem assignment (law : Law R) :
    R (do
      let name ← Parser.identifier
      let _ ← Parser.require (.symbol .assign)
      return Stmt.assign name (← Parser.expression)) := by
  refine law.bind law.identifier fun name => law.require .symbol ?_
  exact law.bind law.expression fun e => law.pure _

theorem spit (law : Law R) :
    R (Parser.before (.keyword .spit) do
      let _ ← Parser.next
      let name ← Parser.identifier
      let _ ← Parser.require (.symbol .assign)
      return Stmt.spit name (← Parser.expression)) := by
  refine law.next .keyword (law.bind law.identifier fun name => law.require .symbol ?_)
  exact law.bind law.expression fun e => law.pure _

theorem flow (law : Law R) :
    R (Parser.before (.keyword .flow) do
      let callee := (← Parser.next).text
      return Stmt.expr (.call callee
        (← Parser.commaListUnless Token.Kind.closesStatement Parser.expression))) := by
  refine law.nextBind .keyword (fun _ _ same => by simp only [same]) fun t => ?_
  exact law.bind (law.commaListUnless _ law.expression) fun args => law.pure _

section

variable {block : Parser (List Stmt)}

theorem verse (law : Law R) (h : R block) :
    R (Parser.before (.keyword .verse) do
      let _ ← Parser.next
      let name ← Parser.identifier
      let _ ← Parser.require (.symbol .lparen)
      let params ← Parser.commaListUnless (· == .symbol .rparen) Parser.identifier
      let _ ← Parser.require (.symbol .rparen)
      return Stmt.verse name params (← block)) := by
  refine law.next .keyword (law.bind law.identifier fun name => law.require .symbol ?_)
  refine law.bind (law.commaListUnless _ law.identifier) fun params => law.require .symbol ?_
  exact law.bind h fun body => law.pure _

theorem ret (law : Law R) :
    R (Parser.before (.keyword .ret) do
      let _ ← Parser.next
      if (← Parser.peek).closesStatement then return Stmt.ret none
      else return .ret (some (← Parser.expression))) := by
  refine law.next .keyword (law.bind law.peek fun kind => ?_)
  cases kind.closesStatement with
  | true => exact law.pure _
  | false => exact law.bind law.expression fun e => law.pure _

end

end Law

namespace ProgramLaw

variable {R S : ∀ {α : Type}, Parser α → Prop} {α : Type}

theorem battle (law : ProgramLaw R S) {block : Parser (List Stmt)} (h : R block) :
    S (Parser.before (.keyword .battle) do
      let _ ← Parser.next
      let _ ← Parser.require (.symbol .lparen)
      let condition ← Parser.expression
      let _ ← Parser.require (.symbol .rparen)
      let thenBranch ← block
      if ← Parser.acceptAfterBreaks (.keyword .defeat) then
        return Stmt.battle condition thenBranch (some (← block))
      else return .battle condition thenBranch none) := by
  have upToBlock : R (Parser.before (.keyword .battle) do
      let _ ← Parser.next
      let _ ← Parser.require (.symbol .lparen)
      let condition ← Parser.expression
      let _ ← Parser.require (.symbol .rparen)
      return (condition, ← block)) := by
    refine law.next .keyword (law.require .symbol (law.bind law.expression fun condition => ?_))
    refine law.require .symbol ?_
    exact law.bind h fun thenBranch => law.pure _
  have whole := law.bindWeak upToBlock fun parts => law.defeat (.battle parts.1 parts.2 none)
    (law.bind h fun other => law.pure (Stmt.battle parts.1 parts.2 (some other)))
  simpa only [before_bind, bind_assoc, pure_bind] using whole

theorem statementOf (law : ProgramLaw R S) {block : Parser (List Stmt)} (h : R block) :
    S (statementOf block) := by
  have expr : R (do return Stmt.expr (← Parser.expression)) :=
    law.bind law.expression fun e => law.pure _
  unfold Parser.statementOf statementWith
  rw [peek_bind_before]
  refine law.bindWeak law.peek fun kind => ?_
  split
  · exact law.weaken law.spit
  · exact law.weaken (law.verse h)
  · exact law.weaken (law.next .keyword (law.bind h fun body => law.pure _))
  · exact law.weaken law.flow
  · exact law.battle h
  · exact law.weaken law.ret
  · exact law.weaken law.assignOrExpr
  · exact law.weaken (law.before _ expr)

theorem block (law : ProgramLaw R S) (levels : Nat) : R (block levels) := by
  induction levels with
  | zero => exact law.tooDeep
  | succ levels ih =>
    refine law.require .symbol (law.deeper ?_)
    have statement := statementOf_derives (block_derives levels)
    refine law.bind (law.statements rfl statement (law.statementOf ih)) fun body => ?_
    exact law.require .symbol (law.pure body)

/-- What holds of the steps holds of the parser for programs. -/
theorem program (law : ProgramLaw R S) : R program :=
  law.statements rfl (statementOf_derives (block_derives _)) (law.statementOf (law.block _))

end ProgramLaw

end Parser

end CypherLang
