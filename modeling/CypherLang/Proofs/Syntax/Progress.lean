import CypherLang.Proofs.Syntax.Locality
import CypherLang.Proofs.Syntax.Rules

namespace CypherLang.Parser

variable {α : Type} {c c' : Cursor}

theorem Derives.shortens {p : Parser α} {R : Nat → α → List Token → List Token → Prop}
    (derives : Derives p R) (some_token : ∀ {n a w rest}, R n a w rest → w ≠ []) {a : α}
    (proper : c.Proper) (run : p c = .ok a c') : c'.rest.length < c.rest.length := by
  obtain ⟨w, n, hw, -, -, -, derived⟩ := derives c c' a run proper.1 proper.2
  have taken := List.length_pos_iff.2 (some_token derived)
  rw [hw, List.length_append]
  omega

theorem ne_nil_of_startsOperand {w : List Token} (h : Yield.startsOperand (Yield.firstKind w)) :
    w ≠ [] := by
  rintro rfl
  cases h

theorem operandOf_derives (tier : Tier) {primary : Parser Expr}
    (derives : Derives primary Yield.Primary) :
    Derives (operandOf primary tier) (Yield.Operand tier) := by
  cases tier with
  | multiplicative => exact derives.mono .primary
  | additive => exact product_derives derives
  | comparison => exact sum_derives derives

theorem Law.operandOf {R : ∀ {α : Type}, Parser α → Prop} (law : Law R) (tier : Tier)
    {primary : Parser Expr} (h : R primary) : R (operandOf primary tier) := by
  cases tier with
  | multiplicative => exact h
  | additive => exact law.chain .multiplicative h
  | comparison => exact law.chain .additive (law.chain .multiplicative h)

/-- A rule that succeeds has taken a token. -/
theorem Rule.shortens (r : Rule) {a : r.Result} (proper : c.Proper)
    (run : r.parser c = .ok a c') : c'.rest.length < c.rest.length := by
  have primary := primary_derives (maxNesting + 1)
  cases r with
  | statement =>
    exact (statementOf_derives (block_derives _)).shortens Yield.Statement.ne_nil proper run
  | block =>
    refine (block_derives _).shortens ?_ proper run
    rintro _ _ _ _ ⟨⟩
    exact List.cons_ne_nil _ _
  | expression =>
    exact expression_derives.shortens (fun h => ne_nil_of_startsOperand h.starts) proper run
  | chain tier =>
    refine (chain_derives (operandOf_derives tier primary)).shortens ?_ proper run
    rintro _ _ _ _ ⟨⟨k, chain⟩, -⟩
    exact ne_nil_of_startsOperand chain.starts
  | primary => exact primary.shortens (fun h => ne_nil_of_startsOperand h.starts) proper run
  | arguments =>
    obtain ⟨t, r, hr, -, inner⟩ := require_bind_ok run (by simp)
    have size := proper.1
    rw [hr, List.length_cons] at size
    obtain ⟨w, -, hw, -⟩ := (arguments_derive expression_derives).closed id (by simp) _ _ _ inner
      (Nat.le_of_lt size) proper.2
    change r = w ++ c'.rest at hw
    rw [hr, hw, List.length_cons, List.length_append]
    omega

/-- More rounds than there are tokens left change nothing, so a repetition is the loop that has no
bound on its rounds. -/
theorem Repeatable.iterate_eq {step : α → Parser (Option α)} (h : Repeatable step)
    (forward : ∀ a c, Forward c (step a c)) (a : α) (proper : c.Proper) :
    iterate step a c = (step a >>= fun next => next.elim (pure a) (iterate step)) c := by
  have more : iterate step a c = repeatUpTo step (c.size + 1) a c :=
    h.repeatUpTo_eq forward (Nat.le_succ _) proper proper.1
  have moved := forward a c
  rw [more, repeatUpTo]
  cases run : step a c with
  | error e c' => rw [bind_apply_of_error run, bind_apply_of_error run]
  | ok next c' =>
    rw [run] at moved
    rw [bind_apply_of_ok run, bind_apply_of_ok run]
    cases next with
    | none => rfl
    | some b =>
      change _ = repeatUpTo step c'.size b c'
      rw [moved.size]

/-- The loops of the parser. -/
inductive Loop
  | program | block
  | chain (tier : Tier)
  | arguments | parameters

namespace Loop

/-- What a loop has read so far. -/
abbrev State : Loop → Type
  | program | block => List Stmt
  | chain _ => Expr
  | arguments => List Expr
  | parameters => List String

/-- One round of a loop; it gives nothing where the loop stops. -/
def step : (l : Loop) → l.State → Parser (Option l.State)
  | program => statementStep (· == .eof) (Rule.parser .statement)
  | block => statementStep closesBlock (Rule.parser .statement)
  | chain tier => chainStep (operatorOf tier) (Rule.operand Rule.parser tier)
  | arguments => commaStep (Rule.parser .expression)
  | parameters => commaStep identifier

theorem forward (l : Loop) (a : l.State) (c : Cursor) : Forward c (l.step a c) := by
  have statement := forward_programLaw.statementOf (forward_programLaw.block (maxNesting + 1))
  have operand (tier : Tier) := forward_law.operandOf tier (forward_law.primary (maxNesting + 1))
  cases l with
  | program | block => exact forward_statementStep _ statement a c
  | chain tier =>
    rw [step, Rule.operand_eq]
    exact forward_law.chainStep tier (operand tier) a c
  | arguments => exact forward_law.commaStep forward_law.expression a c
  | parameters => exact forward_law.commaStep forward_law.identifier a c

theorem repeatable (l : Loop) : Repeatable l.step := by
  have statement : Derives Parser.statement Yield.Statement :=
    statementOf_derives (block_derives _)
  cases l with
  | program | block => exact statementStep_repeatable rfl statement
  | chain tier =>
    have operand := forward_law.operandOf tier (forward_law.primary (maxNesting + 1))
    have repeatable := forward_law.chainStep_repeatable tier operand
    rwa [← Rule.operand_eq] at repeatable
  | arguments => exact forward_law.commaStep_repeatable forward_law.expression
  | parameters => exact forward_law.commaStep_repeatable forward_law.identifier

/-- How a loop goes on at a place: it is the loop without a bound on its rounds, and each round
takes a token, so there are at most as many of them as tokens are left. -/
structure Ends (l : Loop) (a : l.State) (c : Cursor) : Prop where
  unfolds : iterate l.step a c =
    (l.step a >>= fun next => next.elim (pure a) (iterate l.step)) c
  round : ∀ {b : l.State} {c' : Cursor}, l.step a c = .ok (some b) c' →
    c'.Within c ∧ c'.rest.length < c.rest.length
  rounds : ∀ n, c.rest.length ≤ n → repeatUpTo l.step n a c = iterate l.step a c

theorem ends (l : Loop) (a : l.State) (proper : c.Proper) : l.Ends a c := by
  constructor
  · exact l.repeatable.iterate_eq l.forward a proper
  · intro b c' run
    have moved := l.forward a c
    rw [run] at moved
    exact ⟨moved, l.repeatable.shortens run proper⟩
  · intro n enough
    have bound {m : Nat} (le : m ≤ max n c.size) (enough : c.rest.length ≤ m) :
        repeatUpTo l.step m a c = repeatUpTo l.step (max n c.size) a c :=
      l.repeatable.repeatUpTo_eq l.forward le proper enough
    exact (bound (Nat.le_max_left _ _) enough).trans (bound (Nat.le_max_right _ _) proper.1).symm

end Loop

namespace Rule

/-- At a place the rule depends on what another one does at another place: it does something else
if that is replaced. -/
def Consults (count : Counter) (r : Rule) (c : Cursor) (r' : Rule) (c' : Cursor) : Prop :=
  ∃ call : Table, (∀ q d, ¬(q = r' ∧ d = c') → call q d = q.parser d) ∧
    r.body count call c ≠ r.parser c

/-- How a rule goes on at a place. -/
structure Ends (r : Rule) (c : Cursor) : Prop where
  /-- On success it has moved on, and is back on its level. -/
  ok : ∀ {a : r.Result} {c' : Cursor}, r.parser c = .ok a c' →
    c'.Within c ∧ c'.rest.length < c.rest.length ∧ c'.depth = c.depth
  /-- So it is after any error. -/
  error : ∀ {e : SyntaxError} {c' : Cursor}, r.parser c = .error e c' →
    c'.Within c ∧ c'.depth = c.depth
  /-- It counts neither down from level zero nor up from the limit, and uses up no fuel. -/
  runs : ∀ count, r.body count Rule.parser c = r.parser c
  /-- It depends only on rules at later places within the limit, where the recursion ends sooner. -/
  calls : ∀ {count : Counter} {r' : Rule} {c' : Cursor}, r.Consults count c r' c' →
    r.MayCall c r' c'

theorem span_self (c : Cursor) : Span c c.depth c.depth c :=
  ⟨.refl c, Nat.le_refl _, Nat.le_refl _⟩

theorem body_eq (r : Rule) (count : Counter) {call : Table} (limit : c.depth ≤ maxNesting)
    (agree : ∀ r' c', r.MayCall c r' c' → call r' c' = r'.parser c') :
    r.body count call c = r.parser c :=
  (r.tied_body count limit agree c (span_self c)).1

theorem ends (r : Rule) (proper : c.Proper) : r.Ends c := by
  have limit := proper.2
  have stops := (r.tied_self limit c (span_self c)).2
  constructor
  · intro a c' run
    rw [run] at stops
    exact ⟨stops.within, r.shortens proper run, Nat.le_antisymm stops.high stops.low⟩
  · intro e c' run
    rw [run] at stops
    exact ⟨stops.within, Nat.le_antisymm stops.high stops.low⟩
  · exact fun count => r.body_eq count limit fun _ _ _ => rfl
  · rintro count r' c' ⟨call, others, differs⟩
    refine Classical.byContradiction fun outside => differs ?_
    refine r.body_eq count limit fun q d may => others q d ?_
    rintro ⟨rfl, rfl⟩
    exact outside may

/-- The recursion of the rules has no other solution. -/
theorem eq_of_solves {count : Counter} {call : Table}
    (solves : ∀ (r : Rule) (c : Cursor), c.Proper → call r c = r.body count call c) (r : Rule)
    (c : Cursor) (proper : c.Proper) : call r c = r.parser c := by
  rw [solves r c proper]
  refine r.body_eq count proper.2 fun r' c' may => ?_
  exact eq_of_solves solves r' c' (may.within.proper proper)
termination_by r.weight c.depth
decreasing_by exact may.weight

/-- From every place in any tokens and every level within the limit, each rule of the parser ends on
the level on which it starts. It goes on only on levels from there to the limit, and if it succeeds
then it has moved on among the tokens. Whatever satisfies the equations of the rules is the parser,
and every loop ends. -/
theorem parser_ends :
    (∀ (r : Rule) (c : Cursor), c.Proper → r.Ends c) ∧
      (∀ (count : Counter) (call : Table),
        (∀ (r : Rule) (c : Cursor), c.Proper → call r c = r.body count call c) →
          ∀ (r : Rule) (c : Cursor), c.Proper → call r c = r.parser c) ∧
      ∀ (l : Loop) (a : l.State) (c : Cursor), c.Proper → l.Ends a c :=
  ⟨fun r _ => r.ends, fun _ _ => eq_of_solves, fun l a _ => l.ends a⟩

/-- A call in a block fits just below the limit on levels; one level deeper its argument is refused,
and the block ends on its own level all the same. -/
theorem parser_ends_block :
    let start (depth : Nat) : Cursor := ⟨[⟨.symbol .lbrace, "\x7b", 1⟩, ⟨.identifier, "f", 1⟩,
      ⟨.symbol .lparen, "(", 1⟩, ⟨.number, "1", 1⟩, ⟨.symbol .rparen, ")", 1⟩,
      ⟨.symbol .rbrace, "\x7d", 1⟩, ⟨.newline, "\n", 1⟩], 2, 8, depth⟩
    (∃ c, block.parser (start 125) = .ok [.expr (.call "f" [.literal (.int 1)])] c ∧
      c.Within (start 125) ∧ c.rest.length < 7 ∧ c.depth = 125) ∧
    (∃ c, block.parser (start 126) = .error (.nestingTooDeep 1) c ∧
      c.Within (start 126) ∧ c.depth = 126) ∧
    (∀ count, Rule.parser block (start 126) = body count Rule.parser block (start 126)) ∧
    Rule.parser block (start 126) = block.parser (start 126) ∧
    Loop.Ends .program [] (start 0) := by
  intro start
  obtain ⟨rules, unique, loops⟩ := parser_ends
  have proper (depth : Nat) (limit : depth ≤ maxNesting) : (start depth).Proper :=
    ⟨Nat.le_succ 7, limit⟩
  have runs (count : Counter) (r : Rule) (c : Cursor) (proper : c.Proper) :
      r.parser c = r.body count Rule.parser c := ((rules r c proper).runs count).symm
  have fits : block.parser (start 125) = .ok [.expr (.call "f" [.literal (.int 1)])]
      ⟨[⟨.newline, "\n", 1⟩], 2, 8, 125⟩ := by cbv
  have refused : block.parser (start 126) = .error (.nestingTooDeep 1)
      ⟨[⟨.number, "1", 1⟩, ⟨.symbol .rparen, ")", 1⟩, ⟨.symbol .rbrace, "\x7d", 1⟩,
        ⟨.newline, "\n", 1⟩], 2, 8, 126⟩ := by cbv
  exact ⟨⟨_, fits, (rules block _ (proper 125 (by decide))).ok fits⟩,
    ⟨_, refused, (rules block _ (proper 126 (by decide))).error refused⟩,
    fun count => runs count block _ (proper 126 (by decide)),
    unique .exact Rule.parser (runs .exact) block _ (proper 126 (by decide)),
    loops .program [] _ (proper 0 (by decide))⟩

end Rule

end CypherLang.Parser
