import CypherLang.Failure
import CypherLang.Proofs.Syntax.PrintedTokens
import CypherLang.Proofs.Syntax.Soundness

namespace CypherLang

mutual

/-- How deep a printed expression nests inside what it stands in. -/
def Expr.printedDepth : Expr → Nat
  | .literal _ => 0
  | .identifier _ => 0
  | .binary l _ r => max (1 + l.printedDepth) (2 + r.printedDepth)
  | .neg e => 1 + e.printedDepth
  | .call _ args => Expr.listDepth args

/-- How deep printed expressions with commas between them nest. -/
def Expr.listDepth : List Expr → Nat
  | [] => 0
  | e :: es => max (1 + e.printedDepth) (Expr.listDepth es)

end

/-- How deep an expression printed as a statement nests. An output statement has its arguments in
place of the call. -/
def Expr.statementDepth : Expr → Nat
  | .call callee args =>
    if callee = outputName then Expr.listDepth args else 1 + (Expr.call callee args).printedDepth
  | e => 1 + e.printedDepth

mutual

def Stmt.printedDepth : Stmt → Nat
  | .spit _ value => 1 + value.printedDepth
  | .verse _ _ body => 1 + Stmt.listDepth body
  | .assign _ value => 1 + value.printedDepth
  | .battle condition thenBranch none =>
    max (1 + condition.printedDepth) (1 + Stmt.listDepth thenBranch)
  | .battle condition thenBranch (some elseBranch) =>
    max (1 + condition.printedDepth)
      (max (1 + Stmt.listDepth thenBranch) (1 + Stmt.listDepth elseBranch))
  | .ret none => 0
  | .ret (some value) => 1 + value.printedDepth
  | .expr e => e.statementDepth

def Stmt.listDepth : List Stmt → Nat
  | [] => 0
  | s :: ss => max s.printedDepth (Stmt.listDepth ss)

end

/-- How deep the printed form of a program nests. -/
def Program.printedDepth (p : Program) : Nat := Stmt.listDepth p

namespace Yield

/-- The kinds of token that follow a printed expression in a list or a statement. -/
def closesExpression : Token.Kind → Bool
  | .symbol .rparen | .symbol .comma | .newline => true
  | _ => false

variable {n m k : Nat} {line : UInt32} {l r e : Expr} {op : BinOp} {tier : Tier} {o : Token}
variable {v w rest : List Token}

theorem not_continues_of_closes (h : closesExpression (firstKind rest)) (tier : Tier) :
    ¬ Continues tier rest := by
  rintro ⟨op, -, kind⟩
  rw [kind] at h
  cases op <;> cases h

theorem ne_lparen_of_closes (h : closesExpression (firstKind rest)) :
    firstKind rest ≠ .symbol .lparen := by
  intro kind
  rw [kind] at h
  cases h

theorem Primary.operand (h : Primary n e w rest)
    (stop : ∀ other : Tier, other.tighter < tier.tighter → ¬ Continues other rest) :
    Operand tier n e w rest := by
  cases tier with
  | multiplicative => exact .primary h
  | additive => exact .product (.operand (.primary h)) (stop _ (by decide))
  | comparison =>
    exact .sum (.operand (.product (.operand (.primary h)) (stop _ (by decide))))
      (stop _ (by decide))

theorem Chain.expression (h : Chain tier k n e w rest) (stop : ∀ tier, ¬ Continues tier rest) :
    Expression (1 + n) e w rest := by
  rw [Nat.add_comm]
  cases tier with
  | multiplicative =>
    exact .comparison (.operand (.sum (.operand (.product h (stop _))) (stop _))) (stop _)
  | additive => exact .comparison (.operand (.sum h (stop _))) (stop _)
  | comparison => exact .comparison h (stop _)

theorem Primary.expression (h : Primary n e w rest) (stop : ∀ tier, ¬ Continues tier rest) :
    Expression (1 + n) e w rest :=
  Chain.expression (.operand (.primary h)) stop

/-- An operator belongs to one precedence only. -/
theorem tier_of_continues (ho : o.kind = .symbol op.sign) (h : Continues tier (o :: v)) :
    tier = op.tier := by
  obtain ⟨op', rfl, kind⟩ := h
  rw [firstKind, ho] at kind
  revert kind
  cases op <;> cases op' <;> simp [BinOp.sign, BinOp.tier]

theorem Expression.binary (left : Primary n l w (o :: v ++ rest)) (ho : o.kind = .symbol op.sign)
    (right : Primary m r v rest) (stop : ∀ tier, ¬ Continues tier rest) :
    Expression (max (1 + n) (2 + m)) (.binary l op r) (w ++ o :: v) rest := by
  have left : Operand op.tier n l w (o :: v ++ rest) := by
    refine left.operand fun other tighter h => ?_
    rw [tier_of_continues ho h] at tighter
    exact Nat.lt_irrefl _ tighter
  have chain := Chain.operator (.operand left) rfl ho (right.operand fun other _ => stop other)
  have depth : 1 + max n (0 + 1 + m) = max (1 + n) (2 + m) := by omega
  rw [← depth]
  exact chain.expression stop

theorem primary_literal {l : Literal} (written : l.Written) :
    Primary 0 (.literal l) [l.token line] rest := by
  cases l with
  | int n => exact .number rfl (Literal.print_int written).2
  | float x =>
    obtain ⟨m, rfl, finite⟩ := written
    exact .number rfl (Literal.print_float finite).2
  | text s => exact .string (t := ⟨.string, s, line⟩) rfl
  | bool b =>
    cases b with
    | false => exact .word rfl rfl
    | true => exact .word rfl rfl
  | null => exact .word rfl rfl

theorem sign_ne_lparen (op : BinOp) : Token.Kind.symbol op.sign ≠ .symbol .lparen := by
  cases op <;> simp [BinOp.sign]

mutual

/-- A printed expression is an operand, whatever stands around it. -/
theorem primary_tokens (line : UInt32) : (e : Expr) → e.Written → ∀ {rest},
    firstKind rest ≠ .symbol .lparen → Primary e.printedDepth e (e.tokens line) rest
  | .literal l, written, rest, stop => primary_literal written
  | .identifier name, written, rest, stop => .identifier (kind_nameToken line name) stop
  | .binary l op r, written, rest, stop => by
    have close : closesExpression (firstKind (Symbol.rparen.token line :: rest)) := rfl
    have right := primary_tokens line r written.2 (ne_lparen_of_closes close)
    have left : Primary _ l _
        (op.sign.token line :: r.tokens line ++ Symbol.rparen.token line :: rest) :=
      primary_tokens line l written.1 (sign_ne_lparen op)
    have h := Primary.group (Symbol.lparen.kind_token line)
      (Expression.binary left rfl right (not_continues_of_closes close))
      (Symbol.rparen.kind_token line)
    simpa [Expr.tokens, Expr.printedDepth] using h
  | .neg e, written, rest, stop => by
    have h := Primary.neg (Symbol.minus.kind_token line) (primary_tokens line e written stop)
    rw [Nat.add_comm] at h
    exact h
  | .call callee [], written, rest, stop =>
    .callEmpty (kind_nameToken line callee) (Symbol.lparen.kind_token line)
      (Symbol.rparen.kind_token line)
  | .call callee (e :: es), written, rest, stop => by
    have close : closesExpression (firstKind (Symbol.rparen.token line :: rest)) := rfl
    have args := arguments_tokens line es written.2.2
      (fun close => (primary_tokens line e written.2.1 (ne_lparen_of_closes close)).expression
        (not_continues_of_closes close)) close
    have h := Primary.call (kind_nameToken line callee) (Symbol.lparen.kind_token line) args
      (Symbol.rparen.kind_token line)
    rw [List.cons_append, List.cons_append, List.append_assoc] at h
    exact h

theorem arguments_tokens (line : UInt32) : (es : List Expr) → Expr.AllWritten es → ∀ {n e w rest},
    (∀ {rest}, closesExpression (firstKind rest) → Expression n e w rest) →
    closesExpression (firstKind rest) →
    Arguments (max n (Expr.listDepth es)) (e :: es) (w ++ Expr.moreTokens line es) rest
  | [], written, n, e, w, rest, first, close => by
    have h := Arguments.last (first close)
    simpa [Expr.listDepth, Expr.moreTokens] using h
  | e' :: es, written, n, e, w, rest, first, close => by
    have more := arguments_tokens line es written.2
      (fun close => (primary_tokens line e' written.1 (ne_lparen_of_closes close)).expression
        (not_continues_of_closes close)) close
    exact .more (first rfl) (Symbol.comma.kind_token line) more

end

theorem expression_tokens {e : Expr} (written : e.Written)
    (close : closesExpression (firstKind rest)) :
    Expression (1 + e.printedDepth) e (e.tokens line) rest :=
  (primary_tokens line e written (ne_lparen_of_closes close)).expression
    (not_continues_of_closes close)

/-- No `defeat` follows after line breaks. -/
def NoDefeat (rest : List Token) : Prop :=
  ∀ gap after, rest = gap ++ after → Breaks gap → firstKind after ≠ .keyword .defeat

theorem Body.noDefeat {ss : List Stmt} (h : Body n ss v rest)
    (close : Parser.closesBlock (firstKind rest)) : NoDefeat (v ++ rest) := by
  have stop : firstKind rest ≠ .newline := by
    intro kind
    rw [kind] at close
    cases close
  have defeat : firstKind rest ≠ .keyword .defeat := by
    intro kind
    rw [kind] at close
    cases close
  refine Parser.firstKind_after_breaks (by simp) ?_
  cases h with
  | nil breaks =>
    rw [Parser.dropWhile_breaks breaks stop]
    exact defeat
  | @cons _ _ _ w _ _ v _ breaks s more =>
    have starts {kind : Token.Kind} (h : startsStatement kind = false) :
        firstKind (w ++ (v ++ rest)) ≠ kind := by
      rintro rfl
      rw [startsStatement_append s.starts] at h
      cases h
    rw [List.append_assoc, List.append_assoc, Parser.dropWhile_breaks breaks (starts rfl)]
    exact starts rfl

theorem Body.break {ss : List Stmt} {t : Token} (h : Body n ss v rest) (ht : t.kind = .newline) :
    Body n ss (t :: v) rest := by
  have breaks {gap : List Token} (h : Breaks gap) : Breaks (t :: gap) := by
    simpa [Breaks, ht] using h
  cases h with
  | nil gap => exact .nil (breaks gap)
  | cons gap s more => exact .cons (breaks gap) s more

theorem not_startsAssignment_tokens (e : Expr) (newline : firstKind rest = .newline) :
    ¬ StartsAssignment (e.tokens line ++ rest) := by
  rintro ⟨first, second⟩
  cases e with
  | literal l =>
    cases l with
    | bool b => cases b <;> cases first
    | _ => cases first
  | identifier name =>
    change firstKind rest = _ at second
    rw [newline] at second
    cases second
  | binary => cases first
  | neg => cases first
  | call callee args => cases args <;> cases second

theorem statement_expr_tokens {e : Expr} (written : e.WrittenStatement)
    (newline : firstKind rest = .newline) :
    Statement e.statementDepth (.expr e) (e.statementTokens line) rest := by
  have close : closesExpression (firstKind rest) := by rw [newline]; rfl
  obtain ⟨args, rfl, written⟩ | written := written
  · unfold Expr.statementDepth Expr.statementTokens
    dsimp only
    rw [if_pos rfl, if_pos rfl]
    cases args with
    | nil => exact .flowEmpty (Keyword.flow.kind_token line) (by rw [newline]; rfl)
    | cons e es =>
      exact .flow (Keyword.flow.kind_token line)
        (arguments_tokens line es written.2 (fun close => expression_tokens written.1 close) close)
        (by simp [newline])
  · have plain : e.statementDepth = 1 + e.printedDepth ∧
        e.statementTokens line = e.tokens line := by
      cases e with
      | call callee args =>
        have name : callee ≠ outputName := by
          rintro rfl
          exact absurd written.1.2 (by decide)
        simp [Expr.statementDepth, Expr.statementTokens, name]
      | _ => exact ⟨rfl, rfl⟩
    rw [plain.1, plain.2]
    exact .expr (expression_tokens written close) (not_startsAssignment_tokens e newline)

theorem names_tokens {names : List String} (ne : names ≠ []) :
    Names names (namesTokens line names) := by
  induction names with
  | nil => exact absurd rfl ne
  | cons name names ih =>
    cases names with
    | nil => exact .last (kind_nameToken line name)
    | cons next names =>
      exact .more (kind_nameToken line name) (Symbol.comma.kind_token line) (ih (by simp))

theorem parameters_tokens (line : UInt32) (names : List String) :
    Parameters names (namesTokens line names) := by
  cases names with
  | nil => exact .none
  | cons name names => exact .some (names_tokens (by simp))

theorem block_tokens {body : List Stmt} {tokens : List Token} (breaks : UInt32)
    (h : ∀ {rest}, Parser.closesBlock (firstKind rest) → Body n body tokens rest) :
    Block (1 + n) body (blockTokens line breaks tokens) rest := by
  have inner : Body n body tokens (Symbol.rbrace.token (line + 1 + breaks) :: rest) := h rfl
  rw [Nat.add_comm]
  exact .braces (Symbol.lbrace.kind_token line) (inner.break (t := newlineToken line) rfl)
    (Symbol.rbrace.kind_token _)

mutual

theorem statement_tokens : (s : Stmt) → s.Written → ∀ line {rest}, firstKind rest = .newline →
    NoDefeat rest → Statement s.printedDepth s (s.tokens line) rest
  | .spit name value, written, line, rest, newline, _ =>
    .spit (Keyword.spit.kind_token line) (kind_nameToken line name)
      (Symbol.assign.kind_token line) (expression_tokens written.2 (by rw [newline]; rfl))
  | .verse name params body, written, line, rest, newline, _ => by
    have block : Block (1 + Stmt.listDepth body) body
        (blockTokens line (Stmt.allBreaks body) (Stmt.allTokens (line + 1) body)) rest :=
      block_tokens _ fun close => body_tokens body written.2 (line + 1) close
    unfold Stmt.tokens
    by_cases entry : isCypherBlock name params
    · obtain ⟨rfl, rfl⟩ : name = entryName ∧ params = [] := by simpa [isCypherBlock] using entry
      exact .cypher (Keyword.cypher.kind_token line) block
    · have h := Statement.verse (Keyword.verse.kind_token line) (kind_nameToken line name)
        (Symbol.lparen.kind_token line) (parameters_tokens line params)
        (Symbol.rparen.kind_token line)
        block
      rw [if_neg entry]
      simp only [List.cons_append, List.append_assoc, List.nil_append]
      exact h
  | .assign name value, written, line, rest, newline, _ =>
    .assign (kind_nameToken line name) (Symbol.assign.kind_token line)
      (expression_tokens written.2 (by rw [newline]; rfl))
  | .battle condition thenBranch none, written, line, rest, newline, noDefeat => by
    have block : Block (1 + Stmt.listDepth thenBranch) thenBranch
        (blockTokens line (Stmt.allBreaks thenBranch) (Stmt.allTokens (line + 1) thenBranch))
        rest :=
      block_tokens _ fun close => body_tokens thenBranch written.2 (line + 1) close
    exact .battle (Keyword.battle.kind_token line) (Symbol.lparen.kind_token line)
      (expression_tokens written.1 rfl) (Symbol.rparen.kind_token line) block noDefeat
  | .battle condition thenBranch (some elseBranch), written, line, rest, newline, _ => by
    have none : Breaks [] := by simp [Breaks]
    have block {rest} : Block (1 + Stmt.listDepth thenBranch) thenBranch
        (blockTokens line (Stmt.allBreaks thenBranch) (Stmt.allTokens (line + 1) thenBranch))
        rest :=
      block_tokens _ fun close => body_tokens thenBranch written.2.1 (line + 1) close
    have other (line : UInt32) : Block (1 + Stmt.listDepth elseBranch) elseBranch
        (blockTokens line (Stmt.allBreaks elseBranch) (Stmt.allTokens (line + 1) elseBranch))
        rest :=
      block_tokens _ fun close => body_tokens elseBranch written.2.2 (line + 1) close
    exact .battleDefeat (Keyword.battle.kind_token line) (Symbol.lparen.kind_token line)
      (expression_tokens written.1 rfl) (Symbol.rparen.kind_token line) block none
      (Keyword.defeat.kind_token _) (other _)
  | .ret none, written, line, rest, newline, _ =>
    .retEmpty (Keyword.ret.kind_token line) (by rw [newline]; rfl)
  | .ret (some value), written, line, rest, newline, _ =>
    .ret (Keyword.ret.kind_token line) (expression_tokens written (by rw [newline]; rfl))
  | .expr e, written, line, rest, newline, _ => statement_expr_tokens written newline

theorem body_tokens : (ss : List Stmt) → Stmt.AllWritten ss → ∀ line {rest},
    Parser.closesBlock (firstKind rest) →
    Body (Stmt.listDepth ss) ss (Stmt.allTokens line ss) rest
  | [], _, line, rest, close => .nil (by simp [Breaks, Stmt.allTokens])
  | s :: ss, written, line, rest, close => by
    have more := (body_tokens ss written.2 (line + s.breaks + 1) close).break
      (t := newlineToken (line + s.breaks)) rfl
    have none : Breaks [] := by simp [Breaks]
    exact .cons none (statement_tokens s written.1 line rfl (more.noDefeat close)) more

end

end Yield

theorem Program.exists_tokens_of_parse {source : String} {p : Program}
    (h : Program.parse source = .ok p) :
    ∃ tokens, Token.lex source = .ok tokens ∧ Program.ofTokens tokens = .ok p := by
  unfold Program.parse at h
  cases lexed : Token.lex source with
  | error e =>
    simp only [lexed] at h
    cases h
  | ok tokens =>
    cases parsed : Program.ofTokens tokens with
    | error e =>
      simp only [lexed, parsed] at h
      cases h
    | ok q =>
      simp only [lexed, parsed] at h
      cases h
      exact ⟨tokens, rfl, parsed⟩

/-- A parsed program is derived, within the limit, from the spelled tokens of its text. -/
theorem Program.body_of_parse {source : String} {p : Program} (h : Program.parse source = .ok p) :
    ∃ n body, n ≤ maxNesting ∧ Yield.Body n p body [] ∧ ∀ t ∈ body, t.Spelled := by
  obtain ⟨tokens, lexed, parsed⟩ := Program.exists_tokens_of_parse h
  obtain ⟨body, last, rfl, hl, spelled⟩ := Token.lex_spelled lexed
  obtain ⟨n, hn, derived⟩ :=
    Yield.body_of_ofTokens hl (fun t ht => (spelled t ht).ne_eof) parsed
  exact ⟨n, body, hn, derived, spelled⟩

/-- A text whose tokens are derived is parsed if they are within the limit on levels, and refused
for nesting too deep otherwise. -/
theorem Program.parse_of_body {source : String} {ts : List Token} {line : UInt32} {n : Nat}
    {p : Program} (lexed : Token.Lexes 1 source.toList ts line [])
    (derived : Yield.Body n p ts []) :
    if n ≤ maxNesting then Program.parse source = .ok p
    else ∃ line, Program.parse source = .error (.parse (.nestingTooDeep line)) := by
  have tokens := lexed.lex
  obtain ⟨body, last, same, hl, spelled⟩ := Token.lex_spelled tokens
  obtain ⟨rfl, ends⟩ := List.append_inj' same rfl
  cases ends
  have run := derived.ofTokens hl fun t ht => (spelled t ht).ne_eof
  unfold Program.parse
  simp only [tokens]
  split at run
  · rw [if_pos ‹_›, run]
  · obtain ⟨line, fails⟩ := run
    rw [if_neg ‹_›, fails]
    exact ⟨line, rfl⟩

/-- A parsed program that is printed and parsed again is the same program if its printed form is
within the limit on levels, and else the printed form is refused for nesting too deep. -/
theorem Program.parse_print {source : String} {p : Program} (h : Program.parse source = .ok p) :
    if p.printedDepth ≤ maxNesting then Program.parse p.print = .ok p
    else ∃ line, Program.parse p.print = .error (.parse (.nestingTooDeep line)) := by
  obtain ⟨n, body, hn, derived, spelled⟩ := Program.body_of_parse h
  have written := derived.written spelled
  have lexed := Stmt.lexesAll p written 1 0 []
  rw [List.append_nil] at lexed
  have printed : Yield.Body p.printedDepth p (Stmt.allTokens 1 p) [] :=
    Yield.body_tokens p written 1 rfl
  exact Program.parse_of_body lexed printed

theorem Program.parse_print_cypher :
    let source := "cypher\x7bflow -x > 1, '\\n\"'\x7d"
    let p : Program := [.verse entryName [] [.expr (.call outputName
      [.binary (.neg (.identifier "x")) .greater (.literal (.int 1)), .literal (.text "\n\"")])]]
    Program.parse source = .ok p ∧ Program.parse p.print = .ok p := by
  intro source p
  have parsed : Program.parse source = .ok p := by cbv
  have again := Program.parse_print parsed
  rw [if_pos (by decide)] at again
  exact ⟨parsed, again⟩

end CypherLang
