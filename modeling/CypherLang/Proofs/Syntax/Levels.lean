import CypherLang.Proofs.Syntax.RoundTrip

namespace CypherLang

mutual

/-- The most levels on a way from the root to a leaf. Every node counts one, but an operator whose
left operand is entered counts `left`. -/
def Expr.levels (left : Nat) : Expr → Nat
  | .literal _ => 1
  | .identifier _ => 1
  | .binary l _ r => max (left + l.levels left) (1 + r.levels left)
  | .neg e => 1 + e.levels left
  | .call _ args => 1 + Expr.listLevels left args

def Expr.listLevels (left : Nat) : List Expr → Nat
  | [] => 0
  | e :: es => max (e.levels left) (Expr.listLevels left es)

end

/-- The call that an output statement stands for counts `left`. -/
def Expr.statementLevels (left : Nat) : Expr → Nat
  | .call callee args =>
    (if callee = outputName then left else 1) + Expr.listLevels left args
  | e => e.levels left

mutual

/-- Every block counts one. -/
def Stmt.levels (left : Nat) : Stmt → Nat
  | .spit _ value => value.levels left
  | .verse _ _ body => 1 + Stmt.listLevels left body
  | .assign _ value => value.levels left
  | .battle condition thenBranch none =>
    max (condition.levels left) (1 + Stmt.listLevels left thenBranch)
  | .battle condition thenBranch (some elseBranch) =>
    max (condition.levels left)
      (max (1 + Stmt.listLevels left thenBranch) (1 + Stmt.listLevels left elseBranch))
  | .ret none => 0
  | .ret (some value) => value.levels left
  | .expr e => e.statementLevels left

def Stmt.listLevels (left : Nat) : List Stmt → Nat
  | [] => 0
  | s :: ss => max (s.levels left) (Stmt.listLevels left ss)

end

/-- The most levels on a way from the root of a program to a leaf. -/
def Program.levels (left : Nat) (p : Program) : Nat := Stmt.listLevels left p

namespace Yield

/-- The most operators that can be entered to the left inside an expression of `n` levels: three
chains at every level, each as long as the level allows. -/
def leftTurns : Nat → Nat
  | 0 => 0
  | n + 1 => leftTurns n + 3 * n

theorem leftTurns_le {n m : Nat} (h : n ≤ m) : leftTurns n ≤ leftTurns m := by
  induction h with
  | refl => exact Nat.le_refl _
  | step _ ih => exact Nat.le_trans ih (Nat.le_add_right _ _)

theorem leftTurns_eq (n : Nat) : 2 * leftTurns n + 3 * n = 3 * (n * n) := by
  induction n with
  | zero => rfl
  | succ n ih =>
    rw [leftTurns, Nat.mul_add, Nat.add_mul n 1 (n + 1), Nat.mul_add n n 1]
    omega

theorem leftTurns_maxNesting : leftTurns maxNesting = 24384 := by
  have total := leftTurns_eq maxNesting
  generalize leftTurns maxNesting = turns at *
  unfold maxNesting at total
  omega

/-- The levels of an operand of a precedence with `n` levels inside it. -/
def operandLevels (left : Nat) (tier : Tier) (n : Nat) : Nat :=
  n + 1 + left * (leftTurns n + tier.tighter * n)

/-- The levels of an expression of `n` levels. -/
def expressionLevels (left n : Nat) : Nat := n + left * leftTurns n

section Bounds

variable (left : Nat) {n m : Nat}

theorem operandLevels_lt (tier : Tier) (h : n < m) :
    operandLevels left tier n < operandLevels left tier m := by
  have turns := leftTurns_le (Nat.le_of_lt h)
  have tighter := Nat.mul_le_mul_left tier.tighter (Nat.le_of_lt h)
  have weighed := Nat.mul_le_mul_left left (Nat.add_le_add turns tighter)
  unfold operandLevels
  omega

theorem operandLevels_le (tier : Tier) (h : n ≤ m) :
    operandLevels left tier n ≤ operandLevels left tier m := by
  obtain rfl | h := Nat.eq_or_lt_of_le h
  · exact Nat.le_refl _
  · exact Nat.le_of_lt (operandLevels_lt left tier h)

theorem expressionLevels_lt (h : n < m) : expressionLevels left n < expressionLevels left m := by
  have weighed := Nat.mul_le_mul_left left (leftTurns_le (Nat.le_of_lt h))
  unfold expressionLevels
  omega

theorem expressionLevels_le (h : n ≤ m) : expressionLevels left n ≤ expressionLevels left m := by
  obtain rfl | h := Nat.eq_or_lt_of_le h
  · exact Nat.le_refl _
  · exact Nat.le_of_lt (expressionLevels_lt left h)

theorem operandLevels_multiplicative (n : Nat) :
    operandLevels left .multiplicative n = expressionLevels left n + 1 := by
  simp only [operandLevels, expressionLevels, Tier.tighter, Nat.zero_mul, Nat.add_zero]
  omega

theorem operandLevels_additive (n : Nat) :
    operandLevels left .additive n = operandLevels left .multiplicative n + left * n := by
  simp only [operandLevels, Tier.tighter, Nat.mul_add, Nat.zero_mul, Nat.one_mul]
  omega

theorem operandLevels_comparison (n : Nat) :
    operandLevels left .comparison n = operandLevels left .additive n + left * n := by
  simp only [operandLevels, Tier.tighter, Nat.mul_add, Nat.one_mul, Nat.two_mul]
  omega

/-- An expression is a full chain of comparisons. -/
theorem expressionLevels_succ (n : Nat) :
    expressionLevels left (n + 1) = operandLevels left .comparison n + left * n := by
  have turns : left * (3 * n) = left * n + left * n + left * n := by
    rw [← Nat.mul_add, ← Nat.mul_add]
    congr 1
    omega
  rw [operandLevels_comparison, operandLevels_additive, operandLevels_multiplicative]
  simp only [expressionLevels, leftTurns, Nat.mul_add, turns]
  omega

end Bounds

mutual

theorem Primary.levels_le {n e w rest} (left : Nat) : Primary n e w rest →
    e.levels left ≤ operandLevels left .multiplicative n
  | .number _ _ => by simp [Expr.levels, operandLevels]
  | .string _ => by simp [Expr.levels, operandLevels]
  | .word _ _ => by simp [Expr.levels, operandLevels]
  | .identifier _ _ => by simp [Expr.levels, operandLevels]
  | .callEmpty _ _ _ => by simp [Expr.levels, Expr.listLevels, operandLevels]
  | .call _ _ args _ => by
    have inner := args.levels_le left
    rw [operandLevels_multiplicative, Expr.levels]
    omega
  | .group _ h _ => by
    have inner := h.levels_le left
    rw [operandLevels_multiplicative]
    omega
  | @Primary.neg _ n _ _ _ _ h => by
    have inner := h.levels_le left
    have deeper := operandLevels_lt left .multiplicative (Nat.lt_add_one n)
    rw [Expr.levels]
    omega

theorem Operand.levels_le {tier n e w rest} (left : Nat) : Operand tier n e w rest →
    e.levels left ≤ operandLevels left tier n
  | .primary h => h.levels_le left
  | .product h _ => by
    obtain ⟨hk, inner⟩ := h.levels_le left
    have turns := Nat.mul_le_mul_left left hk
    rw [operandLevels_additive]
    omega
  | .sum h _ => by
    obtain ⟨hk, inner⟩ := h.levels_le left
    have turns := Nat.mul_le_mul_left left hk
    rw [operandLevels_comparison]
    omega

/-- A chain has no more operators than levels, and each may be entered to the left. -/
theorem Chain.levels_le {tier k n e w rest} (left : Nat) : Chain tier k n e w rest →
    k ≤ n ∧ e.levels left ≤ operandLevels left tier n + left * k
  | .operand h => ⟨Nat.zero_le _, Nat.le_trans (h.levels_le left) (Nat.le_add_right _ _)⟩
  | @Chain.operator tier k n _ _ m _ _ _ _ _ l _ _ r => by
    obtain ⟨hk, first⟩ := l.levels_le left
    have second := r.levels_le left
    have wider := operandLevels_le left tier (Nat.le_max_left n (k + 1 + m))
    have deeper : operandLevels left tier m < operandLevels left tier (max n (k + 1 + m)) :=
      operandLevels_lt left tier (by omega)
    refine ⟨by omega, ?_⟩
    rw [Expr.levels, Nat.mul_add, Nat.mul_one]
    omega

theorem Expression.levels_le {n e w rest} (left : Nat) : Expression n e w rest →
    e.levels left ≤ expressionLevels left n
  | .comparison h _ => by
    obtain ⟨hk, inner⟩ := h.levels_le left
    have turns := Nat.mul_le_mul_left left hk
    rw [expressionLevels_succ]
    omega

theorem Arguments.levels_le {n es w rest} (left : Nat) : Arguments n es w rest →
    Expr.listLevels left es ≤ expressionLevels left n
  | .last h => by
    have inner := h.levels_le left
    rw [Expr.listLevels, Expr.listLevels]
    omega
  | @Arguments.more n _ _ m _ _ _ _ h _ args => by
    have first := h.levels_le left
    have more := args.levels_le left
    have wider := expressionLevels_le left (Nat.le_max_left n m)
    have wider' := expressionLevels_le left (Nat.le_max_right n m)
    rw [Expr.listLevels]
    omega

end

theorem Expression.statementLevels_le {n e w rest} (left : Nat) (h : Expression n e w rest) :
    e.statementLevels left ≤ expressionLevels left n + left := by
  have inner := h.levels_le left
  cases e with
  | call callee args =>
    rw [Expr.levels] at inner
    unfold Expr.statementLevels
    dsimp only
    split <;> omega
  | _ => exact Nat.le_trans inner (Nat.le_add_right _ _)

mutual

theorem Statement.levels_le {n s w rest} (left : Nat) : Statement n s w rest →
    (∀ t ∈ w, t.Spelled) → s.levels left ≤ expressionLevels left n + left
  | .spit _ _ _ h, _ => by
    have inner := h.levels_le left
    rw [Stmt.levels]
    omega
  | .verse _ _ _ _ _ body, spelled => by
    have inner := body.levels_le left fun t ht => spelled t (by simp [ht])
    rw [Stmt.levels]
    omega
  | .cypher _ body, spelled => by
    have inner := body.levels_le left fun t ht => spelled t (by simp [ht])
    rw [Stmt.levels]
    omega
  | .flowEmpty hk _, spelled => by
    have name : _ = outputName := text_of_spelled hk (spelled _ (by simp))
    rw [Stmt.levels, Expr.statementLevels, if_pos name, Expr.listLevels]
    omega
  | .flow hk args _, spelled => by
    have name : _ = outputName := text_of_spelled hk (spelled _ (by simp))
    have inner := args.levels_le left
    rw [Stmt.levels, Expr.statementLevels, if_pos name]
    omega
  | @Statement.battle _ _ _ n _ _ m _ _ _ _ _ cond _ body _, spelled => by
    have first := cond.levels_le left
    have inner := body.levels_le left fun t ht => spelled t (by simp [ht])
    have wider := expressionLevels_le left (Nat.le_max_left n m)
    have wider' := expressionLevels_le left (Nat.le_max_right n m)
    rw [Stmt.levels]
    omega
  | @Statement.battleDefeat _ _ _ _ n _ _ m _ _ _ k _ _ _ _ _ cond _ body _ _ other, spelled => by
    have first := cond.levels_le left
    have inner := body.levels_le left fun t ht => spelled t (by simp [ht])
    have inner' := other.levels_le left fun t ht => spelled t (by simp [ht])
    have wider := expressionLevels_le left (show n ≤ max n (max m k) by omega)
    have wider' := expressionLevels_le left (show m ≤ max n (max m k) by omega)
    have wider'' := expressionLevels_le left (show k ≤ max n (max m k) by omega)
    rw [Stmt.levels]
    omega
  | .retEmpty _ _, _ => Nat.zero_le _
  | .ret _ h, _ => by
    have inner := h.levels_le left
    rw [Stmt.levels]
    omega
  | .assign _ _ h, _ => by
    have inner := h.levels_le left
    rw [Stmt.levels]
    omega
  | .expr h _, _ => h.statementLevels_le left

theorem Block.levels_le {n body w rest} (left : Nat) : Block n body w rest →
    (∀ t ∈ w, t.Spelled) → 1 + Stmt.listLevels left body ≤ expressionLevels left n + left
  | @Block.braces _ _ n _ _ _ _ h _, spelled => by
    have inner := h.levels_le left fun t ht => spelled t (by simp [ht])
    have deeper := expressionLevels_lt left (Nat.lt_add_one n)
    omega

theorem Body.levels_le {n ss w rest} (left : Nat) : Body n ss w rest →
    (∀ t ∈ w, t.Spelled) → Stmt.listLevels left ss ≤ expressionLevels left n + left
  | .nil _, _ => Nat.zero_le _
  | @Body.cons _ n _ _ m _ _ _ _ h more, spelled => by
    have first := h.levels_le left fun t ht => spelled t (by simp [ht])
    have inner := more.levels_le left fun t ht => spelled t (by simp [ht])
    have wider := expressionLevels_le left (Nat.le_max_left n m)
    have wider' := expressionLevels_le left (Nat.le_max_right n m)
    rw [Stmt.listLevels]
    omega

end

end Yield

/-- The call of an output statement is the one node outside the bound on expressions. -/
theorem Program.levels_le_of_parse {source : String} {p : Program}
    (h : Program.parse source = .ok p) (left : Nat) :
    p.levels left ≤ maxNesting + left * 24385 := by
  obtain ⟨n, body, hn, derived, spelled⟩ := Program.body_of_parse h
  have within := derived.levels_le left spelled
  have limit := Yield.expressionLevels_le left hn
  have most : Yield.expressionLevels left maxNesting = maxNesting + left * 24384 := by
    rw [Yield.expressionLevels, Yield.leftTurns_maxNesting]
  unfold Program.levels
  omega

namespace Tower

open Token (Lexes Stops)
open Yield

/-- An operand followed by `k` operators, each with the name `a` on its right. -/
def chain (op : BinOp) (first : Expr) : Nat → Expr
  | 0 => first
  | k + 1 => .binary (chain op first k) op (.identifier "a")

def chainText (op : BinOp) : Nat → List Char
  | 0 => []
  | k + 1 => chainText op k ++ (op.sign.text.toList ++ ['a'])

def chainTokens (op : BinOp) : Nat → List Token
  | 0 => []
  | k + 1 => chainTokens op k ++ [op.sign.token 1, nameToken 1 "a"]

/-- At each level a call, first in three chains that are as long as the level allows. -/
def expr : Nat → Expr
  | 0 => .identifier "a"
  | n + 1 =>
    chain .less (chain .add (chain .mul (.call "a" [expr n]) (n + 1)) (n + 1)) (n + 1)

def text : Nat → List Char
  | 0 => ['a']
  | n + 1 =>
    'a' :: '(' :: (text n ++ ')' ::
      (chainText .mul (n + 1) ++ (chainText .add (n + 1) ++ chainText .less (n + 1))))

def tokens : Nat → List Token
  | 0 => [nameToken 1 "a"]
  | n + 1 =>
    nameToken 1 "a" :: Symbol.lparen.token 1 :: (tokens n ++ Symbol.rparen.token 1 ::
      (chainTokens .mul (n + 1) ++ (chainTokens .add (n + 1) ++ chainTokens .less (n + 1))))

theorem levels_chain (left : Nat) (op : BinOp) (first : Expr) (k : Nat)
    (h : 2 ≤ first.levels left) :
    (chain op first k).levels left = first.levels left + left * k := by
  induction k with
  | zero => rfl
  | succ k ih =>
    rw [chain, Expr.levels, ih, Expr.levels, Nat.mul_add, Nat.mul_one]
    omega

theorem levels_expr (left n : Nat) : (expr n).levels left = expressionLevels left (n + 1) := by
  induction n with
  | zero => rfl
  | succ n ih =>
    have call : (Expr.call "a" [expr n]).levels left = expressionLevels left (n + 1) + 1 := by
      rw [Expr.levels, Expr.listLevels, Expr.listLevels, ih]
      omega
    have two : 2 ≤ expressionLevels left (n + 1) + 1 := by
      unfold expressionLevels
      omega
    have product := levels_chain left .mul (.call "a" [expr n]) (n + 1) (by omega)
    have sum := levels_chain left .add _ (n + 1)
      (show 2 ≤ (chain .mul (.call "a" [expr n]) (n + 1)).levels left by omega)
    rw [expr, levels_chain left .less _ (n + 1) (by omega), sum, product, call,
      expressionLevels_succ left (n + 1), operandLevels_comparison, operandLevels_additive,
      operandLevels_multiplicative]

section Lexing

variable {rest : List Char}

theorem isName_a : Token.IsName "a" := ⟨⟨'a', [], rfl, by decide, by simp⟩, by decide⟩

theorem lexes_chain {op : BinOp} (plain : op.sign ≠ .slash) (k : Nat) (stop : Stops rest) :
    Lexes 1 (chainText op k ++ rest) (chainTokens op k) 1 rest := by
  induction k generalizing rest with
  | zero => exact Lexes.refl
  | succ k ih =>
    have assign : op.sign ≠ .assign := by cases op <;> decide
    rw [chainText, List.append_assoc, List.append_assoc]
    exact (ih .symbol).trans ((Lexes.symbol op.sign assign plain).trans
      (lexes_name isName_a stop))

theorem stops_chain (op : BinOp) (k : Nat) (stop : Stops rest) :
    Stops (chainText op k ++ rest) := by
  induction k generalizing rest with
  | zero => exact stop
  | succ k ih =>
    rw [chainText, List.append_assoc, List.append_assoc]
    exact ih .symbol

theorem lexes_text (n : Nat) (stop : Stops rest) : Lexes 1 (text n ++ rest) (tokens n) 1 rest := by
  induction n generalizing rest with
  | zero => exact lexes_name isName_a stop
  | succ n ih =>
    have stop' := stops_chain .less (n + 1) stop
    have chars : text (n + 1) ++ rest = "a".toList ++ (Symbol.lparen.text.toList ++ (text n ++
        (Symbol.rparen.text.toList ++ (chainText .mul (n + 1) ++ (chainText .add (n + 1) ++
          (chainText .less (n + 1) ++ rest)))))) := by
      simp [text, Symbol.text]
    rw [chars]
    exact (lexes_name isName_a .symbol).trans ((Lexes.symbol .lparen).trans
      ((ih .symbol).trans ((Lexes.symbol .rparen).trans
        ((lexes_chain (by decide) (n + 1) (stops_chain .add (n + 1) stop')).trans
          ((lexes_chain (by decide) (n + 1) stop').trans
            (lexes_chain (by decide) (n + 1) stop))))))

end Lexing

section Deriving

variable {tier : Tier} {op : BinOp} {first : Expr} {n : Nat} {w rest : List Token}

/-- What may follow an operand of a precedence. -/
def Follows (tier : Tier) (rest : List Token) : Prop :=
  firstKind rest ≠ .symbol .lparen ∧
    ∀ other : Tier, other.tighter < tier.tighter → ¬ Continues other rest

theorem follows_sign {v : List Token} : Follows op.tier (op.sign.token 1 :: v) := by
  refine ⟨sign_ne_lparen op, fun other tighter h => ?_⟩
  rw [tier_of_continues (op.sign.kind_token 1) h] at tighter
  exact Nat.lt_irrefl _ tighter

theorem chain_tokens (ops : op.tier = tier)
    (operand : ∀ {rest}, Follows tier rest → Operand tier n first w rest) (k : Nat) :
    ∀ {rest}, Follows tier rest →
      Chain tier k (max n k) (chain op first k) (w ++ chainTokens op k) rest := by
  subst ops
  induction k with
  | zero =>
    intro rest follows
    rw [Nat.max_zero, chainTokens, List.append_nil]
    exact .operand (operand follows)
  | succ k ih =>
    intro rest follows
    have name : Operand op.tier 0 (.identifier "a") [nameToken 1 "a"] rest :=
      Primary.operand (.identifier (kind_nameToken 1 "a") follows.1) follows.2
    have h := Chain.operator (ih (follows_sign (v := nameToken 1 "a" :: rest))) rfl
      (op.sign.kind_token 1) name
    have depth : max (max n k) (k + 1 + 0) = max n (k + 1) := by omega
    rw [depth, List.append_assoc] at h
    exact h

theorem Follows.tighter {other : Tier} (h : Follows tier rest)
    (le : other.tighter ≤ tier.tighter) : Follows other rest :=
  ⟨h.1, fun third lt => h.2 third (Nat.lt_of_lt_of_le lt le)⟩

/-- The three chains around an operand. -/
theorem chains_tokens (operand : ∀ {rest}, Primary n first w rest)
    (follows : Follows .comparison rest) (stop : ¬ Continues .comparison rest) :
    Expression (n + 1) (chain .less (chain .add (chain .mul first n) n) n)
      (w ++ chainTokens .mul n ++ chainTokens .add n ++ chainTokens .less n) rest := by
  have product {rest} (follows : Follows .additive rest) :
      Operand .additive n (chain .mul first n) (w ++ chainTokens .mul n) rest := by
    have h := chain_tokens (show BinOp.mul.tier = _ from rfl) (fun _ => .primary operand) n
      (follows.tighter (by decide))
    rw [Nat.max_self] at h
    exact .product h (follows.2 _ (by decide))
  have sum {rest} (follows : Follows .comparison rest) :
      Operand .comparison n (chain .add (chain .mul first n) n)
        (w ++ chainTokens .mul n ++ chainTokens .add n) rest := by
    have h := chain_tokens (show BinOp.add.tier = _ from rfl) product n
      (follows.tighter (by decide))
    rw [Nat.max_self] at h
    exact .sum h (follows.2 _ (by decide))
  have h := chain_tokens (show BinOp.less.tier = _ from rfl) sum n follows
  rw [Nat.max_self] at h
  exact .comparison h stop

theorem expression_tokens (n : Nat) : ∀ {rest}, firstKind rest ≠ .symbol .lparen →
    (∀ tier, ¬ Continues tier rest) → Expression (n + 1) (expr n) (tokens n) rest := by
  induction n with
  | zero =>
    intro rest lparen stop
    exact Primary.expression (.identifier (kind_nameToken 1 "a") lparen) stop
  | succ n ih =>
    intro rest lparen stop
    have call {rest} : Primary (n + 1) (.call "a" [expr n])
        (nameToken 1 "a" :: Symbol.lparen.token 1 :: tokens n ++ [Symbol.rparen.token 1]) rest := by
      have close : closesExpression (firstKind (Symbol.rparen.token 1 :: rest)) := rfl
      exact .call (kind_nameToken 1 "a") (Symbol.lparen.kind_token 1)
        (.last (ih (ne_lparen_of_closes close) (not_continues_of_closes close)))
        (Symbol.rparen.kind_token 1)
    have h := chains_tokens call ⟨lparen, fun other _ => stop other⟩ (stop _)
    simp only [List.cons_append, List.append_assoc, List.nil_append] at h
    exact h

end Deriving

/-- An output statement with the highest tower that is within the limit. -/
def source : String := "flow " ++ String.ofList (text 127)

def program : Program := [.expr (.call outputName [expr 127])]

theorem parse_source : Program.parse source = .ok program := by
  have lexed : Lexes 1 source.toList (Keyword.flow.token 1 :: tokens 127) 1 [] := by
    have chars : source.toList = Keyword.flow.text.toList ++ ' ' :: (text 127 ++ []) := by
      simp [source, Keyword.text]
    rw [chars]
    exact (Keyword.flow.lexes .blank).trans (lexes_text 127 (by simp [Stops])).blank
  have none : Breaks [] := by simp [Breaks]
  have stop : ∀ tier, ¬ Continues tier [] := by
    rintro tier ⟨op, -, h⟩
    cases h
  have statement : Statement 128 (.expr (.call outputName [expr 127]))
      (Keyword.flow.token 1 :: tokens 127) [] :=
    .flow (Keyword.flow.kind_token 1) (.last (expression_tokens 127 (by simp [firstKind]) stop))
      (by simp [firstKind])
  have derived : Body 128 program (Keyword.flow.token 1 :: tokens 127) [] := by
    have h := Body.cons none statement (.nil none)
    rwa [List.append_nil] at h
  have run := Program.parse_of_body lexed derived
  rwa [if_pos (by decide)] at run

theorem levels_program (left : Nat) : program.levels left = maxNesting + left * 24385 := by
  have call : program.levels left = left + expressionLevels left maxNesting := by
    simp only [Program.levels, program, Stmt.listLevels, Stmt.levels, Expr.statementLevels,
      Expr.listLevels, levels_expr, Nat.max_zero, if_true, maxNesting]
  rw [expressionLevels, leftTurns_maxNesting] at call
  omega

end Tower

/-- The levels of a parsed tree, where an operator counts `left` for its left operand and an output
statement counts `left` for its call: a bound that is attained. It is the limit itself only if
these do not count. -/
theorem Program.levels_of_parse (left : Nat) :
    (∀ source p, Program.parse source = .ok p → p.levels left ≤ maxNesting + left * 24385) ∧
      (∃ source p, Program.parse source = .ok p ∧ p.levels left = maxNesting + left * 24385) ∧
      ((∀ source p, Program.parse source = .ok p → p.levels left ≤ maxNesting) ↔ left = 0) := by
  have bound : ∀ source p, Program.parse source = .ok p →
      p.levels left ≤ maxNesting + left * 24385 :=
    fun _ _ h => Program.levels_le_of_parse h left
  have attained := Tower.levels_program left
  refine ⟨bound, ⟨_, _, Tower.parse_source, attained⟩, ?_, ?_⟩
  · intro within
    have top := within _ _ Tower.parse_source
    rw [attained] at top
    omega
  · rintro rfl source p h
    have top := bound source p h
    rwa [Nat.zero_mul, Nat.add_zero] at top

end CypherLang
