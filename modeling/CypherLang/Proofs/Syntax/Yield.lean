import Mathlib
import CypherLang.Syntax.Grammar

namespace CypherLang

/-- The precedences of the binary operators, loosest first. -/
inductive Tier
  | comparison | additive | multiplicative

/-- How many precedences are tighter. -/
def Tier.tighter : Tier → Nat
  | comparison => 2
  | additive => 1
  | multiplicative => 0

namespace BinOp

def tier : BinOp → Tier
  | add | sub => .additive
  | mul | div => .multiplicative
  | eq | greater | less => .comparison

/-- The symbol that stands for the operator. -/
def sign : BinOp → Symbol
  | add => .plus
  | sub => .minus
  | mul => .star
  | div => .slash
  | eq => .equals
  | greater => .greater
  | less => .less

end BinOp

/-- The literal that a reserved word stands for. -/
def Keyword.literal? : Keyword → Option Literal
  | trueWord => some (.bool true)
  | falseWord => some (.bool false)
  | nullWord => some .null
  | _ => none

namespace Yield

/-- The kind of the first token; where no token is left, the file ends. -/
def firstKind : List Token → Token.Kind
  | [] => .eof
  | t :: _ => t.kind

/-- The next token is an operator of the given precedence. -/
def Continues (tier : Tier) (rest : List Token) : Prop :=
  ∃ op : BinOp, op.tier = tier ∧ firstKind rest = .symbol op.sign

/-- Nothing but line breaks. -/
def Breaks (w : List Token) : Prop := ∀ t ∈ w, t.kind = .newline

mutual

/-- A literal, a name, a call, an expression in parentheses, or one of these after a minus. -/
inductive Primary : Nat → Expr → List Token → List Token → Prop
  | number {t : Token} {l rest} : t.kind = .number → Literal.ofNumber? t.text = some l →
      Primary 0 (.literal l) [t] rest
  | string {t : Token} {rest} : t.kind = .string → Primary 0 (.literal (.text t.text)) [t] rest
  | word {t : Token} {k l rest} : t.kind = .keyword k → k.literal? = some l →
      Primary 0 (.literal l) [t] rest
  | identifier {t : Token} {rest} : t.kind = .identifier → firstKind rest ≠ .symbol .lparen →
      Primary 0 (.identifier t.text) [t] rest
  | callEmpty {t opening closing : Token} {rest} : t.kind = .identifier →
      opening.kind = .symbol .lparen → closing.kind = .symbol .rparen →
      Primary 0 (.call t.text []) [t, opening, closing] rest
  | call {t opening closing : Token} {n args w rest} : t.kind = .identifier →
      opening.kind = .symbol .lparen → Arguments n args w (closing :: rest) →
      closing.kind = .symbol .rparen →
      Primary n (.call t.text args) (t :: opening :: w ++ [closing]) rest
  | group {opening closing : Token} {n e w rest} : opening.kind = .symbol .lparen →
      Expression n e w (closing :: rest) → closing.kind = .symbol .rparen →
      Primary n e (opening :: w ++ [closing]) rest
  | neg {t : Token} {n e w rest} : t.kind = .symbol .minus → Primary n e w rest →
      Primary (n + 1) (.neg e) (t :: w) rest

/-- What stands between the operators of a precedence: a full chain of the next tighter one. -/
inductive Operand : Tier → Nat → Expr → List Token → List Token → Prop
  | primary {n e w rest} : Primary n e w rest → Operand .multiplicative n e w rest
  | product {k n e w rest} : Chain .multiplicative k n e w rest →
      ¬ Continues .multiplicative rest → Operand .additive n e w rest
  | sum {k n e w rest} : Chain .additive k n e w rest →
      ¬ Continues .additive rest → Operand .comparison n e w rest

/-- Operands with `k` operators between them, grouped to the left. The operand after the `k`-th
operator lies `k` levels deeper than the chain. -/
inductive Chain : Tier → Nat → Nat → Expr → List Token → List Token → Prop
  | operand {tier n e w rest} : Operand tier n e w rest → Chain tier 0 n e w rest
  | operator {tier k n l w m r v rest} {o : Token} {op : BinOp} :
      Chain tier k n l w (o :: v ++ rest) → op.tier = tier → o.kind = .symbol op.sign →
      Operand tier m r v rest →
      Chain tier (k + 1) (max n (k + 1 + m)) (.binary l op r) (w ++ o :: v) rest

/-- A full chain of comparisons, one level deeper than what it stands in. -/
inductive Expression : Nat → Expr → List Token → List Token → Prop
  | comparison {k n e w rest} : Chain .comparison k n e w rest →
      ¬ Continues .comparison rest → Expression (n + 1) e w rest

/-- One or more expressions with commas between them. -/
inductive Arguments : Nat → List Expr → List Token → List Token → Prop
  | last {n e w rest} : Expression n e w rest → Arguments n [e] w rest
  | more {n e w m es v rest} {comma : Token} : Expression n e w (comma :: v ++ rest) →
      comma.kind = .symbol .comma → Arguments m es v rest →
      Arguments (max n m) (e :: es) (w ++ comma :: v) rest

end

/-- One or more identifiers with commas between them. -/
inductive Names : List String → List Token → Prop
  | last {t : Token} : t.kind = .identifier → Names [t.text] [t]
  | more {t comma : Token} {names w} : t.kind = .identifier → comma.kind = .symbol .comma →
      Names names w → Names (t.text :: names) (t :: comma :: w)

/-- The parameters of a function, between its parentheses. -/
inductive Parameters : List String → List Token → Prop
  | none : Parameters [] []
  | some {names w} : Names names w → Parameters names w

/-- An identifier before an equals sign: an expression must not start a statement like this. -/
def StartsAssignment (ts : List Token) : Prop :=
  firstKind ts = .identifier ∧ firstKind ts.tail = .symbol .assign

mutual

inductive Statement : Nat → Stmt → List Token → List Token → Prop
  | spit {spit name equals : Token} {n e w rest} : spit.kind = .keyword .spit →
      name.kind = .identifier → equals.kind = .symbol .assign → Expression n e w rest →
      Statement n (.spit name.text e) (spit :: name :: equals :: w) rest
  | verse {verse name opening closing : Token} {params v n body w rest} :
      verse.kind = .keyword .verse → name.kind = .identifier →
      opening.kind = .symbol .lparen → Parameters params v → closing.kind = .symbol .rparen →
      Block n body w rest →
      Statement n (.verse name.text params body)
        (verse :: name :: opening :: v ++ closing :: w) rest
  | cypher {cypher : Token} {n body w rest} : cypher.kind = .keyword .cypher →
      Block n body w rest → Statement n (.verse entryName [] body) (cypher :: w) rest
  | flowEmpty {flow : Token} {rest} : flow.kind = .keyword .flow →
      (firstKind rest).closesStatement → Statement 0 (.expr (.call flow.text [])) [flow] rest
  | flow {flow : Token} {n args w rest} : flow.kind = .keyword .flow →
      Arguments n args w rest → firstKind rest ≠ .symbol .comma →
      Statement n (.expr (.call flow.text args)) (flow :: w) rest
  | battle {battle opening closing : Token} {n e v m body w rest} :
      battle.kind = .keyword .battle → opening.kind = .symbol .lparen →
      Expression n e v (closing :: w ++ rest) → closing.kind = .symbol .rparen →
      Block m body w rest →
      (∀ gap after, rest = gap ++ after → Breaks gap → firstKind after ≠ .keyword .defeat) →
      Statement (max n m) (.battle e body none) (battle :: opening :: v ++ closing :: w) rest
  | battleDefeat {battle opening closing defeat : Token} {n e v m body w gap k other u rest} :
      battle.kind = .keyword .battle → opening.kind = .symbol .lparen →
      Expression n e v (closing :: w ++ (gap ++ defeat :: u) ++ rest) →
      closing.kind = .symbol .rparen → Block m body w (gap ++ defeat :: u ++ rest) →
      Breaks gap → defeat.kind = .keyword .defeat → Block k other u rest →
      Statement (max n (max m k)) (.battle e body (some other))
        (battle :: opening :: v ++ (closing :: w ++ (gap ++ defeat :: u))) rest
  | retEmpty {ret : Token} {rest} : ret.kind = .keyword .ret →
      (firstKind rest).closesStatement → Statement 0 (.ret none) [ret] rest
  | ret {ret : Token} {n e w rest} : ret.kind = .keyword .ret → Expression n e w rest →
      Statement n (.ret (some e)) (ret :: w) rest
  | assign {name equals : Token} {n e w rest} : name.kind = .identifier →
      equals.kind = .symbol .assign → Expression n e w rest →
      Statement n (.assign name.text e) (name :: equals :: w) rest
  | expr {n e w rest} : Expression n e w rest → ¬ StartsAssignment (w ++ rest) →
      Statement n (.expr e) w rest

/-- Statements in braces, one level deeper than what they stand in. -/
inductive Block : Nat → List Stmt → List Token → List Token → Prop
  | braces {opening closing : Token} {n body w rest} : opening.kind = .symbol .lbrace →
      Body n body w (closing :: rest) → closing.kind = .symbol .rbrace →
      Block (n + 1) body (opening :: w ++ [closing]) rest

/-- Statements with any number of line breaks before, between and after them. -/
inductive Body : Nat → List Stmt → List Token → List Token → Prop
  | nil {gap rest} : Breaks gap → Body 0 [] gap rest
  | cons {gap n s w m ss v rest} : Breaks gap → Statement n s w (v ++ rest) →
      Body m ss v rest → Body (max n m) (s :: ss) (gap ++ w ++ v) rest

end

/-- A whole program: statements up to an end of file, nowhere nested beyond the limit. -/
def IsProgram (p : Program) (tokens : List Token) : Prop :=
  ∃ n body last, n ≤ maxNesting ∧ tokens = body ++ [last] ∧ last.kind = .eof ∧
    Body n p body []

end Yield

end CypherLang
