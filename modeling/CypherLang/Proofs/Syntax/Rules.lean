import CypherLang.Proofs.Syntax.Blame

namespace CypherLang.Parser

variable {α β : Type}

/-- The rules of the parser, with one for the chains of each precedence. -/
inductive Rule
  | statement | block | expression
  | chain (tier : Tier)
  | primary | arguments

namespace Rule

abbrev Result : Rule → Type
  | statement => Stmt
  | block => List Stmt
  | arguments => List Expr
  | expression | chain _ | primary => Expr

/-- A parser for every rule. -/
abbrev Table : Type := (r : Rule) → Parser r.Result

/-- What reads the operands of a precedence. -/
def operand (call : Table) : Tier → Parser Expr
  | .comparison => call (chain .additive)
  | .additive => call (chain .multiplicative)
  | .multiplicative => call primary

/-- What a rule does, given what the rules do that it calls. -/
def body (count : Counter) (call : Table) : Table
  | statement => statementWith (call expression) (call block)
  | block => blockWith count (call statement)
  | expression => nested count (call (chain .comparison))
  | chain tier => fold count (operatorOf tier) (operand call tier)
  | primary => primaryWith count (call arguments) (call expression) (call primary)
  | arguments => argumentsWith (call expression)

/-- The parser of a rule, with enough fuel for every place within the limit on levels. -/
def parser : Table
  | statement => Parser.statement
  | block => Parser.block (maxNesting + 1)
  | expression => Parser.expression
  | chain tier => Parser.chain (operatorOf tier) (operandOf (Parser.primary (maxNesting + 1)) tier)
  | primary => Parser.primary (maxNesting + 1)
  | arguments => argumentsWith Parser.expression

end Rule

/-- The limit is checked before the count goes up. -/
theorem descend_eq (count : Counter) : descend count = enter := by
  funext c
  change (if c.depth < maxNesting then _ else _ : Parser Unit) c =
    (if c.depth < maxNesting then _ else _ : Parser Unit) c
  split
  · rw [count.up_eq c.depth ‹_›]
    rfl
  · rfl

theorem fold_eq (count : Counter) (operator : Token.Kind → Option BinOp) (operand : Parser Expr) :
    fold count operator operand = chain operator operand := by
  have step : foldStep count operator operand = chainStep operator operand := by
    funext left
    simp only [foldStep, descend_eq]
    rfl
  rw [fold, step]
  rfl

theorem primary_succ (levels : Nat) :
    primary (levels + 1) = primaryWith .exact (argumentsWith (expressionOf (primary levels)))
      (expressionOf (primary levels)) (primary levels) := rfl

theorem block_succ (levels : Nat) :
    block (levels + 1) = blockWith .exact (statementOf (block levels)) := rfl

/-- Where a parser stops, with a value or with an error. -/
def stop : EStateM.Result SyntaxError Cursor α → Cursor
  | .ok _ c => c
  | .error _ c => c

/-- At the places with `I` two parsers do the same, and stop at such a place again. -/
def Tied (I : Cursor → Prop) (p q : Parser α) : Prop :=
  ∀ c, I c → p c = q c ∧ I (stop (q c))

/-- The places from `start` on that have a level from `low` to `high`. -/
structure Span (start : Cursor) (low high : Nat) (c : Cursor) : Prop where
  within : c.Within start
  low : low ≤ c.depth
  high : c.depth ≤ high

/-- Moving on among the tokens that are left keeps the property of places. -/
def Moves (I : Cursor → Prop) : Prop :=
  ∀ {c : Cursor} {r : List Token}, I c → r <:+ c.rest → I { c with rest := r }

theorem Span.moves {start : Cursor} {low high : Nat} : Moves (Span start low high) :=
  fun h suffix => ⟨(Cursor.Within.of_rest suffix).trans h.within, h.low, h.high⟩

theorem Span.withDepth {start c : Cursor} {low high low' high' depth : Nat}
    (h : Span start low high c) (limit : depth ≤ maxNesting) (above : low' ≤ depth)
    (below : depth ≤ high') : Span start low' high' { c with depth := depth } :=
  ⟨⟨h.within.rest, h.within.endLine, h.within.size, fun _ => limit⟩, above, below⟩

/-- The parser only moves on among the tokens that are left. -/
def Flat (p : Parser α) : Prop :=
  ∀ c, ∃ r, r <:+ c.rest ∧ stop (p c) = { c with rest := r }

namespace Flat

theorem refuse (expected : Wanted) : Flat (refuse expected : Parser α) :=
  fun c => ⟨c.rest, List.suffix_refl _, rfl⟩

theorem next : Flat next := fun c => ⟨c.rest.tail, List.tail_suffix _, rfl⟩

theorem skipBreaks : Flat skipBreaks := fun _ => ⟨_, List.dropWhile_suffix _, rfl⟩

theorem acceptAfterBreaks (kind : Token.Kind) : Flat (acceptAfterBreaks kind) := by
  intro c
  rw [acceptAfterBreaks_apply]
  split
  · exact ⟨_, (List.tail_suffix _).trans (List.dropWhile_suffix _), rfl⟩
  · exact ⟨c.rest, List.suffix_refl _, rfl⟩

end Flat

namespace Tied

section

variable {I : Cursor → Prop} {p q : Parser α}

theorem trans {r : Parser α} (h : Tied I p q) (h' : Tied I q r) : Tied I p r :=
  fun c hc => ⟨(h c hc).1.trans (h' c hc).1, (h' c hc).2⟩

theorem bind {f g : α → Parser β} (h : Tied I p q) (hf : ∀ a, Tied I (f a) (g a)) :
    Tied I (p >>= f) (q >>= g) := by
  intro c hc
  obtain ⟨same, stops⟩ := h c hc
  cases run : q c with
  | ok a c' =>
    rw [run] at same stops
    rw [bind_apply_of_ok same, bind_apply_of_ok run]
    exact hf a c' stops
  | error e c' =>
    rw [run] at same stops
    rw [bind_apply_of_error same, bind_apply_of_error run]
    exact ⟨rfl, stops⟩

theorem pure (a : α) : Tied I (Pure.pure a : Parser α) (Pure.pure a) := fun _ hc => ⟨rfl, hc⟩

theorem peekBind {f g : Token.Kind → Parser α} (h : ∀ kind, Tied I (f kind) (g kind)) :
    Tied I (peek >>= f) (peek >>= g) :=
  fun c hc => h c.kind c hc

theorem getBind {f g : Cursor → Parser α} (h : ∀ c, Tied I (f c) (g c)) :
    Tied I (get >>= f) (get >>= g) :=
  fun c hc => h c c hc

theorem repeatUpTo {step step' : α → Parser (Option α)} (h : ∀ a, Tied I (step a) (step' a))
    (n : Nat) (a : α) : Tied I (repeatUpTo step n a) (repeatUpTo step' n a) := by
  induction n generalizing a with
  | zero => exact pure a
  | succ n ih =>
    refine bind (h a) fun next => ?_
    cases next with
    | some b => exact ih b
    | none => exact pure a

theorem iterate {step step' : α → Parser (Option α)} (h : ∀ a, Tied I (step a) (step' a))
    (a : α) : Tied I (iterate step a) (iterate step' a) :=
  fun c hc => repeatUpTo h c.size a c hc

section

variable (moves : Moves I)
include moves

theorem flat (h : Flat p) : Tied I p p := by
  intro c hc
  obtain ⟨r, suffix, stops⟩ := h c
  rw [stops]
  exact ⟨rfl, moves hc suffix⟩

theorem require (kind : Token.Kind) : Tied I (require kind) (require kind) := by
  refine peekBind fun found => ?_
  split
  · exact flat moves .next
  · exact flat moves (.refuse _)

theorem identifier : Tied I identifier identifier := bind (require moves _) fun _ => pure _

theorem commaListUnless (closing : Token.Kind → Bool) {item item' : Parser α}
    (h : Tied I item item') :
    Tied I (commaListUnless closing item) (commaListUnless closing item') := by
  refine peekBind fun kind => ?_
  split
  · exact pure []
  · refine bind h fun a => bind (iterate (fun items => ?_) _) fun items => pure _
    refine bind (peekBind fun kind => ?_) fun more => ?_
    · split
      · exact bind (flat moves .next) fun _ => pure true
      · exact pure false
    · cases more with
      | true => exact bind h fun a => pure _
      | false => exact pure none

theorem statements (closing : Token.Kind → Bool) {statement statement' : Parser Stmt}
    (h : Tied I statement statement') :
    Tied I (statements closing statement) (statements closing statement') := by
  refine bind (iterate (fun done => ?_) _) fun done => pure _
  refine bind (flat moves .skipBreaks) fun _ => peekBind fun kind => ?_
  split
  · exact pure none
  · exact bind h fun s => pure _

theorem literal (l : Literal) : Tied I (literal l) (literal l) :=
  bind (flat moves .next) fun _ => pure _

theorem number : Tied I number number := by
  refine bind (flat moves .next) fun t => ?_
  split
  · exact pure _
  · exact fun _ hc => ⟨rfl, hc⟩

end

end

theorem leaving {I J : Cursor → Prop} {p q : Parser α} {c : Cursor} {level level' : Cursor → Nat}
    (h : p c = q c ∧ J (stop (q c)))
    (back : ∀ c', J c' → level c' = level' c' ∧ I { c' with depth := level' c' }) :
    leaving level p c = leaving level' q c ∧ I (stop (leaving level' q c)) := by
  obtain ⟨same, stops⟩ := h
  unfold Parser.leaving
  rw [same]
  cases run : q c with
  | ok a c' | error e c' =>
    rw [run] at stops
    obtain ⟨level, left⟩ := back c' stops
    dsimp only
    rw [level]
    exact ⟨rfl, left⟩

section

variable {start : Cursor} {n : Nat}

/-- A step down starts on one of the levels from one to the limit. -/
theorem nested (count count' : Counter) {p q : Parser α}
    (h : n < maxNesting → Tied (Span start (n + 1) (n + 1)) p q) :
    Tied (Span start n n) (nested count p) (nested count' q) := by
  intro c hc
  have depth : c.depth = n := Nat.le_antisymm hc.high hc.low
  have run := enter_apply c
  rw [Parser.nested, Parser.nested, descend_eq, descend_eq]
  by_cases room : c.depth < maxNesting
  · rw [if_pos room] at run
    rw [bind_apply_of_ok run, bind_apply_of_ok run]
    rw [depth] at room
    refine leaving (h room _ (hc.withDepth (by omega) (by omega) (by omega))) fun c' hc' => ?_
    have inside : c'.depth = n + 1 := Nat.le_antisymm hc'.high hc'.low
    rw [inside, count.down_eq n room, count'.down_eq n room]
    exact ⟨rfl, hc'.withDepth (Nat.le_of_lt room) (Nat.le_refl n) (Nat.le_refl n)⟩
  · rw [if_neg room] at run
    rw [bind_apply_of_error run, bind_apply_of_error run]
    exact ⟨rfl, hc⟩

theorem chainStep (operator : Token.Kind → Option BinOp) {p q : Parser Expr}
    (h : Tied (Span start n maxNesting) p q) (left : Expr) :
    Tied (Span start n maxNesting) (chainStep operator p left) (chainStep operator q left) := by
  refine peekBind fun kind => ?_
  split
  · exact pure none
  · refine bind (p := enter) (q := enter) (fun c hc => ?_) fun _ => ?_
    · rw [enter_apply]
      split
      · exact ⟨rfl, hc.withDepth ‹_› (Nat.le_succ_of_le hc.low) ‹_›⟩
      · exact ⟨rfl, hc⟩
    · exact bind (flat Span.moves .next) fun _ => bind h fun right => pure _

/-- Each operator of a chain goes one level deeper, and its end goes back to where it started. -/
theorem chain (limit : n ≤ maxNesting) (operator : Token.Kind → Option BinOp) {p q : Parser Expr}
    (h : ∀ k, n ≤ k → k ≤ maxNesting → Tied (Span start k k) p q) :
    Tied (Span start n n) (chain operator p) (chain operator q) := by
  have operand : Tied (Span start n maxNesting) p q := by
    intro c hc
    obtain ⟨same, stops⟩ := h c.depth hc.low hc.high c ⟨hc.within, Nat.le_refl _, Nat.le_refl _⟩
    exact ⟨same, stops.within, hc.low.trans stops.low, stops.high.trans hc.high⟩
  have operands := bind operand fun e => iterate (chainStep operator operand) e
  intro c hc
  have inside : Span start n maxNesting c := ⟨hc.within, hc.low, hc.high.trans limit⟩
  refine leaving (operands c inside) fun c' hc' => ⟨rfl, ?_⟩
  exact hc'.withDepth (hc.high.trans limit) hc.low hc.high

theorem operandOf (limit : n ≤ maxNesting) (tier : Tier) {p q : Parser Expr}
    (h : ∀ k, n ≤ k → k ≤ maxNesting → Tied (Span start k k) p q) :
    Tied (Span start n n) (operandOf p tier) (operandOf q tier) := by
  have product (k : Nat) (above : n ≤ k) (limit : k ≤ maxNesting) :=
    chain limit multiplicativeOp fun k' above' => h k' (above.trans above')
  cases tier with
  | multiplicative => exact h n (Nat.le_refl n) limit
  | additive => exact product n (Nat.le_refl n) limit
  | comparison => exact chain limit additiveOp product

theorem expressionOf {p q : Parser Expr}
    (h : ∀ k, n < k → k ≤ maxNesting → Tied (Span start k k) p q) :
    Tied (Span start n n) (expressionOf p) (expressionOf q) := by
  refine nested .exact .exact fun room => chain room comparisonOp fun k above limit => ?_
  exact operandOf limit .comparison fun k' above' => h k' (above.trans above')

theorem argumentsWith {p q : Parser Expr} (h : Tied (Span start n n) p q) :
    Tied (Span start n n) (argumentsWith p) (argumentsWith q) := by
  refine bind (require Span.moves _) fun _ => ?_
  refine bind (commaListUnless Span.moves _ h) fun args => ?_
  exact bind (require Span.moves _) fun _ => pure args

theorem primaryWith (count count' : Counter) {arguments arguments' : Parser (List Expr)}
    {expression expression' primary primary' : Parser Expr}
    (ha : Tied (Span start n n) arguments arguments')
    (he : Tied (Span start n n) expression expression')
    (hp : n < maxNesting → Tied (Span start (n + 1) (n + 1)) primary primary') :
    Tied (Span start n n) (primaryWith count arguments expression primary)
      (primaryWith count' arguments' expression' primary') := by
  have next : Tied (Span start n n) Parser.next Parser.next := flat Span.moves .next
  refine peekBind fun kind => ?_
  split
  · exact number Span.moves
  · exact bind next fun t => pure _
  · exact literal Span.moves _
  · exact literal Span.moves _
  · exact literal Span.moves _
  · refine bind next fun t => peekBind fun kind => ?_
    split
    · exact bind ha fun args => pure _
    · exact pure _
  · refine bind next fun _ => bind he fun e => ?_
    exact bind (require Span.moves _) fun _ => pure e
  · exact bind next fun _ => nested _ _ fun room => bind (hp room) fun e => pure _
  · exact flat Span.moves (.refuse _)

theorem blockWith (count count' : Counter) {statement statement' : Parser Stmt}
    (h : n < maxNesting → Tied (Span start (n + 1) (n + 1)) statement statement') :
    Tied (Span start n n) (blockWith count statement) (blockWith count' statement') := by
  refine bind (require Span.moves _) fun _ => nested _ _ fun room => ?_
  refine bind (statements Span.moves _ (h room)) fun body => ?_
  exact bind (require Span.moves _) fun _ => pure body

theorem statementWith {expression expression' : Parser Expr} {block block' : Parser (List Stmt)}
    (he : Tied (Span start n n) expression expression')
    (hb : Tied (Span start n n) block block') :
    Tied (Span start n n) (statementWith expression block) (statementWith expression' block') := by
  have next : Tied (Span start n n) Parser.next Parser.next := flat Span.moves .next
  have expr := bind he fun e => pure (Stmt.expr e)
  refine peekBind fun kind => ?_
  split
  · refine bind next fun _ => bind (identifier Span.moves) fun name => ?_
    exact bind (require Span.moves _) fun _ => bind he fun e => pure _
  · refine bind next fun _ => bind (identifier Span.moves) fun name => ?_
    refine bind (require Span.moves _) fun _ => ?_
    refine bind (commaListUnless Span.moves _ (identifier Span.moves)) fun params => ?_
    exact bind (require Span.moves _) fun _ => bind hb fun body => pure _
  · exact bind next fun _ => bind hb fun body => pure _
  · exact bind next fun t => bind (commaListUnless Span.moves _ he) fun args => pure _
  · refine bind next fun _ => bind (require Span.moves _) fun _ => ?_
    refine bind he fun condition => bind (require Span.moves _) fun _ => ?_
    refine bind hb fun thenBranch => ?_
    refine bind (flat Span.moves (.acceptAfterBreaks _)) fun more => ?_
    split
    · exact bind hb fun other => pure _
    · exact pure _
  · refine bind next fun _ => peekBind fun kind => ?_
    split
    · exact pure _
    · exact bind he fun e => pure _
  · refine getBind fun c => ?_
    split
    · refine bind (identifier Span.moves) fun name => ?_
      exact bind (require Span.moves _) fun _ => bind he fun e => pure _
    · exact expr
  · exact expr

/-- Where the limit on levels comes first, the fuel does not matter. -/
theorem primary {levels levels' : Nat} (limit : n ≤ maxNesting) (enough : maxNesting < n + levels)
    (enough' : maxNesting < n + levels') :
    Tied (Span start n n) (primary levels) (primary levels') := by
  induction levels generalizing levels' n with
  | zero => omega
  | succ levels ih =>
    obtain ⟨levels', rfl⟩ : ∃ l, levels' = l + 1 := ⟨levels' - 1, by omega⟩
    have deeper (k : Nat) (above : n < k) (limit : k ≤ maxNesting) :
        Tied (Span start k k) (Parser.primary levels) (Parser.primary levels') :=
      ih limit (by omega) (by omega)
    have expression := expressionOf deeper
    rw [primary_succ, primary_succ]
    exact primaryWith .exact .exact (argumentsWith expression) expression
      (deeper (n + 1) (Nat.lt_succ_self n))

theorem expression : Tied (Span start n n) expression expression := by
  refine expressionOf fun k _ limit => primary limit ?_ ?_ <;> omega

theorem block {levels levels' : Nat} (limit : n ≤ maxNesting) (enough : maxNesting < n + levels)
    (enough' : maxNesting < n + levels') :
    Tied (Span start n n) (block levels) (block levels') := by
  induction levels generalizing levels' n with
  | zero => omega
  | succ levels ih =>
    obtain ⟨levels', rfl⟩ : ∃ l, levels' = l + 1 := ⟨levels' - 1, by omega⟩
    rw [block_succ, block_succ]
    refine blockWith .exact .exact fun room => ?_
    exact statementWith expression (ih room (by omega) (by omega))

end

end Tied

namespace Rule

variable {start : Cursor} {n : Nat}

/-- The order of the rules that call each other on one level. -/
def rank : Rule → Nat
  | expression | block => 0
  | statement | arguments => 1
  | primary => 2
  | chain tier => 3 + tier.tighter

/-- How far the recursion of a rule is from its end. Levels count more than the rules of one. -/
def weight (r : Rule) (depth : Nat) : Nat := 6 * (maxNesting - depth) + r.rank

theorem rank_lt (r : Rule) : r.rank < 6 := by
  cases r with
  | chain tier => cases tier <;> decide
  | _ => decide

theorem weight_lt_of_level {depth : Nat} (r r' : Rule) (below : n < depth)
    (limit : depth ≤ maxNesting) : r'.weight depth < r.weight n := by
  have := r'.rank_lt
  unfold weight
  omega

/-- One rule at one place may call another one at another place: a later one, on no lower level and
within the limit, from where the recursion ends sooner. -/
structure MayCall (r : Rule) (c : Cursor) (r' : Rule) (c' : Cursor) : Prop where
  within : c'.Within c
  low : c.depth ≤ c'.depth
  limit : c'.depth ≤ maxNesting
  weight : r'.weight c'.depth < r.weight c.depth

/-- Every rule stops on the level on which it has started. -/
theorem tied_self (r : Rule) (limit : n ≤ maxNesting) :
    Tied (Span start n n) r.parser r.parser := by
  have primary (k : Nat) (limit : k ≤ maxNesting) : Tied (Span start k k)
      (Parser.primary (maxNesting + 1)) (Parser.primary (maxNesting + 1)) :=
    .primary limit (by omega) (by omega)
  have block : Tied (Span start n n)
      (Parser.block (maxNesting + 1)) (Parser.block (maxNesting + 1)) :=
    .block limit (by omega) (by omega)
  cases r with
  | statement => exact .statementWith .expression block
  | block => exact block
  | expression => exact .expression
  | chain tier =>
    exact .chain limit _ fun k _ limit => .operandOf limit tier fun k' _ => primary k'
  | primary => exact primary n limit
  | arguments => exact .argumentsWith .expression

theorem operand_eq (tier : Tier) :
    operand parser tier = operandOf (Parser.primary (maxNesting + 1)) tier := by
  cases tier <;> rfl

/-- What a rule does depends only on what the rules do that it may call. -/
theorem tied_body (r : Rule) (count : Counter) {call : Table} {c : Cursor}
    (limit : c.depth ≤ maxNesting)
    (agree : ∀ r' c', r.MayCall c r' c' → call r' c' = r'.parser c') :
    Tied (Span c c.depth c.depth) (r.body count call) r.parser := by
  have called (r' : Rule) {k : Nat} (above : c.depth ≤ k) (limit : k ≤ maxNesting)
      (less : r'.weight k < r.weight c.depth) : Tied (Span c k k) (call r') r'.parser := by
    intro c' hc'
    obtain rfl : c'.depth = k := Nat.le_antisymm hc'.high hc'.low
    exact ⟨agree r' c' ⟨hc'.within, above, limit, less⟩, (r'.tied_self limit c' hc').2⟩
  -- Rules are called on the same level in their order, and on higher levels in any order.
  have here (r' : Rule) (less : r'.rank < r.rank) :
      Tied (Span c c.depth c.depth) (call r') r'.parser :=
    called r' (Nat.le_refl _) limit (Nat.add_lt_add_left less _)
  have above (r' : Rule) (k : Nat) (above : c.depth < k) (limit : k ≤ maxNesting) :
      Tied (Span c k k) (call r') r'.parser :=
    called r' (Nat.le_of_lt above) limit (r.weight_lt_of_level r' above limit)
  have deeper (r' : Rule) := above r' (c.depth + 1) (Nat.lt_succ_self _)
  cases r with
  | statement => exact .statementWith (here expression Nat.one_pos) (here block Nat.one_pos)
  | block =>
    change Tied _ _ (Parser.block (maxNesting + 1))
    rw [block_succ]
    refine .blockWith count .exact fun room => (deeper statement room).trans ?_
    exact .statementWith .expression (.block room (by omega) (by omega))
  | expression =>
    change Tied _ _ (Parser.expressionOf _)
    exact .nested count .exact (deeper (chain .comparison))
  | chain tier =>
    rw [body, fold_eq]
    refine .chain limit _ fun k low limit => ?_
    rw [← operand_eq]
    have operand (r' : Rule) (less : r'.rank < 3 + tier.tighter) :
        Tied (Span c k k) (call r') r'.parser := by
      obtain rfl | higher := Nat.eq_or_lt_of_le low
      · exact here r' less
      · exact above r' k higher limit
    cases tier with
    | comparison => exact operand (chain .additive) (by decide)
    | additive => exact operand (chain .multiplicative) (by decide)
    | multiplicative => exact operand primary (by decide)
  | primary =>
    have inner (k : Nat) (above : c.depth < k) (limit : k ≤ maxNesting) :
        Tied (Span c k k) (Parser.primary (maxNesting + 1)) (Parser.primary maxNesting) :=
      .primary limit (by omega) (by omega)
    have expression := Tied.expressionOf inner
    change Tied _ _ (Parser.primary (maxNesting + 1))
    rw [primary_succ]
    refine .primaryWith count .exact ?_ ?_ fun room => ?_
    · exact (here arguments (by decide)).trans (.argumentsWith expression)
    · exact (here Rule.expression (by decide)).trans expression
    · exact (deeper primary room).trans (inner _ (Nat.lt_succ_self _) room)
  | arguments => exact .argumentsWith (here expression Nat.one_pos)

end Rule

end CypherLang.Parser
