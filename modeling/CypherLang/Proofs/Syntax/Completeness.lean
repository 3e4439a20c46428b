import CypherLang.Proofs.Syntax.Reading

namespace CypherLang.Yield

open CypherLang.Parser

/-- The kinds of token that an expression starts with. -/
def startsOperand : Token.Kind → Bool
  | .number | .string | .identifier | .symbol .lparen | .symbol .minus => true
  | .keyword k => k.literal?.isSome
  | _ => false

theorem startsOperand_ne {k k' : Token.Kind} (h : startsOperand k) (h' : startsOperand k' = false) :
    k ≠ k' := by
  rintro rfl
  rw [h'] at h
  cases h

theorem firstKind_append {w : List Token} (h : firstKind w ≠ .eof) (rest : List Token) :
    firstKind (w ++ rest) = firstKind w := by
  cases w with
  | nil => cases h rfl
  | cons t w => rfl

theorem startsOperand_append {w : List Token} (h : startsOperand (firstKind w))
    (rest : List Token) : startsOperand (firstKind (w ++ rest)) := by
  rw [firstKind_append (startsOperand_ne h rfl)]
  exact h

mutual

theorem Primary.starts {n e w rest} : Primary n e w rest → startsOperand (firstKind w)
  | .number ht _ => by simp [firstKind, startsOperand, ht]
  | .string ht => by simp [firstKind, startsOperand, ht]
  | .word ht hl => by simp [firstKind, startsOperand, ht, hl]
  | .identifier ht _ => by simp [firstKind, startsOperand, ht]
  | .callEmpty ht _ _ => by simp [firstKind, startsOperand, ht]
  | .call ht _ _ _ => by simp [firstKind, startsOperand, ht]
  | .group ho _ _ => by simp [firstKind, startsOperand, ho]
  | .neg ht _ => by simp [firstKind, startsOperand, ht]

theorem Operand.starts {tier n e w rest} : Operand tier n e w rest → startsOperand (firstKind w)
  | .primary h => h.starts
  | .product h _ => h.starts
  | .sum h _ => h.starts

theorem Chain.starts {tier k n e w rest} : Chain tier k n e w rest → startsOperand (firstKind w)
  | .operand h => h.starts
  | .operator h _ _ _ => startsOperand_append h.starts _

end

theorem Expression.starts {n e w rest} : Expression n e w rest → startsOperand (firstKind w)
  | .comparison h _ => h.starts

theorem Arguments.starts {n es w rest} : Arguments n es w rest → startsOperand (firstKind w)
  | .last h => h.starts
  | .more h _ _ => startsOperand_append h.starts _

theorem word_reads {t : Token} {k : Keyword} {l : Literal} {levels d : Nat} {rest : List Token}
    (ht : t.kind = .keyword k) (h : k.literal? = some l) :
    Reads (primary (levels + 1)) d [t] rest (.literal l) d 0 := by
  apply Reads.peek_first_bind ht
  cases k <;> cases h <;> exact Reads.next_bind (Reads.pure _)

theorem call_reads {argument : Parser Expr} {name : String} {opening : Token} {d d' top : Nat}
    {w rest : List Token} {args : List Expr} (ho : opening.kind = .symbol .lparen)
    (h : Reads (do
      let args ← commaListUnless (· == .symbol .rparen) argument
      let _ ← require (.symbol .rparen)
      return args) d w rest args d' top) :
    Reads (callOrName (argumentsWith argument) name) d (opening :: w) rest (.call name args) d'
      top := by
  have arguments : Reads (argumentsWith argument) d (opening :: w) rest args d' top :=
    Reads.require_bind ho h
  apply Reads.peek_bind
  rw [if_pos (show firstKind (opening :: w ++ rest) = .symbol .lparen from ho)]
  exact arguments.map (Expr.call name)

mutual

theorem Primary.reads {n e w rest} : Primary n e w rest → ∀ levels d : Nat, d ≤ maxNesting →
    maxNesting ≤ levels + d → Reads (primary (levels + 1)) d w rest e d (d + n)
  | .number ht hl, levels, d, hd, _ => by
    apply Reads.peek_first_bind ht
    refine Reads.shallow (Reads.next_bind ?_) hd
    simp only [hl]
    exact Reads.pure _
  | .string ht, levels, d, hd, _ => by
    apply Reads.peek_first_bind ht
    exact Reads.shallow (Reads.next_bind (Reads.pure _)) hd
  | .word ht hl, levels, d, hd, _ => (word_reads ht hl).shallow hd
  | .identifier ht stop, levels, d, hd, _ => by
    apply Reads.peek_first_bind ht
    refine Reads.shallow (Reads.next_bind (Reads.peek_bind ?_)) hd
    rw [if_neg (show firstKind ([] ++ rest) ≠ .symbol .lparen from stop)]
    exact Reads.pure _
  | .callEmpty ht ho hc, levels, d, hd, _ => by
    apply Reads.peek_first_bind ht
    refine Reads.shallow (Reads.next_bind (call_reads ho ?_)) hd
    exact (commaListUnless_reads_nil (by simpa [firstKind] using hc)).require_after hc id
  | .call ht ho args hc, levels, d, hd, hl => by
    apply Reads.peek_first_bind ht
    refine Reads.next_bind (call_reads ho ?_)
    have list := args.reads levels d hd hl (by simp [firstKind, hc])
    refine (commaListUnless_reads ?_ list).require_after hc id
    simpa using startsOperand_ne (startsOperand_append args.starts _) rfl
  | .group ho inner hc, levels, d, hd, hl => by
    apply Reads.peek_first_bind ho
    apply Reads.next_bind
    exact (inner.reads levels d hd hl).require_after hc id
  | .neg ht operand, levels, d, hd, hl => by
    apply Reads.peek_first_bind ht
    apply Reads.next_bind
    have h := Reads.deeper (p := do return Expr.neg (← primary levels)) (d := d) fun within => by
      obtain ⟨levels, rfl⟩ : ∃ l, levels = l + 1 := ⟨levels - 1, by omega⟩
      exact (operand.reads levels (d + 1) within (by omega)).map Expr.neg
    exact h.of_iff (by omega)

theorem Operand.reads {tier n e w rest} : Operand tier n e w rest → ∀ levels d : Nat,
    d ≤ maxNesting → maxNesting ≤ levels + d →
    Reads (operandOf (primary (levels + 1)) tier) d w rest e d (d + n)
  | .primary h, levels, d, hd, hl => h.reads levels d hd hl
  | .product h stop, levels, d, hd, hl => by
    have h := h.reads levels d hd hl (List.nil_append rest).symm (chainStep_stops stop)
    have h := h.restoringDepth
    rw [List.append_nil] at h
    exact h.of_iff (by omega)
  | .sum h stop, levels, d, hd, hl => by
    have h := h.reads levels d hd hl (List.nil_append rest).symm (chainStep_stops stop)
    have h := h.restoringDepth
    rw [List.append_nil] at h
    exact h.of_iff (by omega)

/-- The operators of a chain and whatever the steps after them read. -/
theorem Chain.reads {tier k n e w rest} : Chain tier k n e w rest → ∀ levels d : Nat,
    d ≤ maxNesting → maxNesting ≤ levels + d →
    ∀ {v rest' : List Token} {b : Expr} {d' top : Nat}, rest = v ++ rest' →
    Repeats (chainStep (operatorOf tier) (operandOf (primary (levels + 1)) tier)) e (d + k)
      v rest' b d' top →
    Reads (operandOf (primary (levels + 1)) tier >>=
      iterate (chainStep (operatorOf tier) (operandOf (primary (levels + 1)) tier)))
      d (w ++ v) rest' b d' (max (d + n) top)
  | .operand h, levels, d, hd, hl, v, rest', b, d', top, heq, more => by
    have first := h.reads levels d hd hl
    rw [heq] at first
    exact Reads.bind first more.iterate
  | @Chain.operator _ k _ l _ _ _ _ _ _ _ h ht ho operand, levels, d, hd, hl, v, rest', b, d',
      top, heq, more => by
    have step := chainStep_reads (l := l) ht ho fun within =>
      operand.reads levels (d + k + 1) within (by omega)
    rw [heq] at step
    have more := Repeats.go step (List.cons_ne_nil _ _) more
    have h := h.reads levels d hd hl (by rw [heq, ← List.append_assoc]) more
    rw [List.append_assoc]
    exact h.of_iff (by omega)

theorem Expression.reads {n e w rest} : Expression n e w rest → ∀ levels d : Nat,
    d ≤ maxNesting → maxNesting ≤ levels + d →
    Reads (expressionOf (primary levels)) d w rest e d (d + n)
  | .comparison h stop, levels, d, hd, hl => by
    have h : Reads (expressionOf (primary levels)) d w rest e d _ :=
      Reads.deeper fun within => by
        obtain ⟨levels, rfl⟩ : ∃ l, levels = l + 1 := ⟨levels - 1, by omega⟩
        have h := (h.reads levels (d + 1) within (by omega) (List.nil_append rest).symm
          (chainStep_stops stop)).restoringDepth
        rw [List.append_nil] at h
        exact h
    exact h.of_iff (by omega)

theorem Arguments.reads {n es w rest} : Arguments n es w rest → ∀ levels d : Nat,
    d ≤ maxNesting → maxNesting ≤ levels + d → firstKind rest ≠ .symbol .comma →
    Reads (commaList (expressionOf (primary levels))) d w rest es d (d + n)
  | .last h, levels, d, hd, hl, stop => by
    have h := commaList_reads (w := []) (h.reads levels d hd hl)
      (Repeats.stop (commaStep_stops stop))
    rw [List.append_nil] at h
    exact h.of_iff (by omega)
  | .more h hc args, levels, d, hd, hl, stop => by
    have h := commaList_reads (h.reads levels d hd hl) (args.repeats levels d hd hl stop hc)
    rw [List.reverse_append, List.reverse_reverse] at h
    exact h.of_iff (by omega)

theorem Arguments.repeats {n es w rest} : Arguments n es w rest → ∀ levels d : Nat,
    d ≤ maxNesting → maxNesting ≤ levels + d → firstKind rest ≠ .symbol .comma →
    ∀ {comma : Token} {items : List Expr}, comma.kind = .symbol .comma →
    Repeats (commaStep (expressionOf (primary levels))) items d (comma :: w) rest
      (es.reverse ++ items) d (d + n)
  | .last h, levels, d, hd, hl, stop, comma, items, hc => by
    have step := commaStep_reads (h.reads levels d hd hl) hc items
    have h := Repeats.go (w := []) step (List.cons_ne_nil _ _) (Repeats.stop (commaStep_stops stop))
    rw [List.append_nil] at h
    exact h.of_iff (by omega)
  | .more h hc' args, levels, d, hd, hl, stop, comma, items, hc => by
    have step := commaStep_reads (h.reads levels d hd hl) hc items
    have h := Repeats.go step (List.cons_ne_nil _ _) (args.repeats levels d hd hl stop hc')
    rw [List.reverse_cons, List.append_assoc]
    exact h.of_iff (by omega)

end

theorem Names.repeats {names w} : Names names w → ∀ {d : Nat} {rest : List Token} {comma : Token}
    {items : List String}, comma.kind = .symbol .comma → firstKind rest ≠ .symbol .comma →
    Repeats (commaStep identifier) items d (comma :: w) rest (names.reverse ++ items) d 0
  | .last ht, d, rest, comma, items, hc, stop => by
    have name : Reads identifier d [_] rest _ d 0 := Reads.identifier ht
    have step := commaStep_reads name hc items
    exact Repeats.go (w := []) step (List.cons_ne_nil _ _) (Repeats.stop (commaStep_stops stop))
  | .more ht hc' names, d, rest, comma, items, hc, stop => by
    rw [List.reverse_cons, List.append_assoc]
    exact Repeats.go (commaStep_reads (Reads.identifier ht) hc items) (List.cons_ne_nil _ _)
      (names.repeats hc' stop)

theorem Parameters.reads {names w} (h : Parameters names w) {d : Nat} {closing : Token}
    {rest : List Token} (hc : closing.kind = .symbol .rparen) :
    Reads (commaListUnless (· == .symbol .rparen) identifier) d w (closing :: rest) names d 0 := by
  have stop : firstKind (closing :: rest) ≠ .symbol .comma := by simp [firstKind, hc]
  cases h with
  | none => exact commaListUnless_reads_nil (by simpa [firstKind] using hc)
  | some h =>
    cases h with
    | last ht =>
      refine commaListUnless_reads (by simp [firstKind, ht]) ?_
      exact commaList_reads (w := []) (Reads.identifier ht) (Repeats.stop (commaStep_stops stop))
    | more ht hc' names =>
      refine commaListUnless_reads (by simp [firstKind, ht]) ?_
      have h := commaList_reads (Reads.identifier ht) (names.repeats (d := d) hc' stop)
      rw [List.reverse_append, List.reverse_reverse] at h
      exact h

/-- The kinds of token that a statement starts with. -/
def startsStatement : Token.Kind → Bool
  | .keyword .spit | .keyword .verse | .keyword .cypher | .keyword .flow | .keyword .battle
  | .keyword .ret => true
  | kind => startsOperand kind

theorem startsStatement_of_startsOperand {kind : Token.Kind} (h : startsOperand kind) :
    startsStatement kind := by
  unfold startsStatement
  split <;> first | rfl | exact h

theorem startsStatement_append {w : List Token} (h : startsStatement (firstKind w))
    (rest : List Token) : startsStatement (firstKind (w ++ rest)) := by
  have started : firstKind w ≠ .eof := by
    intro h'
    rw [h'] at h
    cases h
  rw [firstKind_append started]
  exact h

theorem Statement.starts {n s w rest} (h : Statement n s w rest) :
    startsStatement (firstKind w) := by
  cases h with
  | expr h _ => exact startsStatement_of_startsOperand h.starts
  | _ => simp_all [firstKind, startsStatement, startsOperand]

theorem closesBlock_of_startsStatement {kind : Token.Kind} (h : startsStatement kind) :
    closesBlock kind = false := by
  unfold closesBlock
  split <;> first | rfl | cases h

theorem breaks_takeWhile (rest : List Token) : Breaks (rest.takeWhile (·.kind == .newline)) := by
  intro t ht
  simpa using List.all_eq_true.1 List.all_takeWhile t ht

theorem closesStatement_of_startsOperand {kind : Token.Kind} (h : startsOperand kind) :
    kind.closesStatement = false := by
  unfold Token.Kind.closesStatement
  split <;> first | rfl | cases h

theorem Expression.reads_statement {n e w rest} (h : Expression n e w rest) {d : Nat}
    (hd : d ≤ maxNesting) : Reads expression d w rest e d (d + n) :=
  h.reads (maxNesting + 1) d hd (by omega)

theorem Statement.ne_nil {n s w rest} (h : Statement n s w rest) : w ≠ [] := by
  intro empty
  have starts := h.starts
  rw [empty] at starts
  cases starts

section Steps

variable {closing : Token.Kind → Bool} {statement : Parser Stmt} {s : Stmt} {done : List Stmt}
variable {d top : Nat} {gap w rest : List Token}

theorem statementStep_stops (breaks : Breaks gap) (closes : closing (firstKind rest))
    (stop : firstKind rest ≠ .newline) :
    Reads (statementStep closing statement done) d gap rest none d 0 := by
  have h : Reads (statementStep closing statement done) d (gap ++ []) rest none d 0 := by
    refine Reads.skipBreaks_bind breaks stop (Reads.peek_bind ?_)
    rw [List.nil_append, if_pos closes]
    exact Reads.pure none
  rwa [List.append_nil] at h

theorem statementStep_reads (breaks : Breaks gap) (starts : startsStatement (firstKind w))
    (opens : ∀ kind, startsStatement kind → closing kind = false) (done : List Stmt)
    (h : Reads statement d w rest s d top) :
    Reads (statementStep closing statement done) d (gap ++ w) rest (some (s :: done)) d top := by
  have starts := startsStatement_append starts rest
  refine Reads.skipBreaks_bind breaks ?_ (Reads.peek_bind ?_)
  · intro newline
    rw [newline] at starts
    cases starts
  · rw [if_neg (by simp [opens _ starts])]
    exact h.map fun s => some (s :: done)

end Steps

mutual

theorem Statement.reads {n s w rest} : Statement n s w rest → ∀ levels d : Nat, d ≤ maxNesting →
    maxNesting ≤ levels + d →
    Reads (statementOf (block (levels + 1))) d w rest s d (d + n)
  | .spit hk hn he h, levels, d, hd, hl => by
    apply Reads.peek_first_bind hk
    refine Reads.next_bind (Reads.identifier_bind hn (Reads.require_bind he ?_))
    exact (h.reads_statement hd).map (Stmt.spit _)
  | .verse hk hn ho params hc body, levels, d, hd, hl => by
    apply Reads.peek_first_bind hk
    refine Reads.next_bind (Reads.identifier_bind hn (Reads.require_bind ho ?_))
    have body := body.reads levels d hd hl
    exact Reads.of_iff (Reads.bind (params.reads hc) (Reads.require_bind hc (body.map _)))
      (by omega)
  | .cypher hk body, levels, d, hd, hl => by
    apply Reads.peek_first_bind hk
    exact Reads.next_bind ((body.reads levels d hd hl).map (Stmt.verse entryName []))
  | .flowEmpty hk closes, levels, d, hd, hl => by
    apply Reads.peek_first_bind hk
    refine Reads.shallow (Reads.next_bind ?_) hd
    exact (commaListUnless_reads_nil closes).map fun args => Stmt.expr (.call _ args)
  | .flow hk args stop, levels, d, hd, hl => by
    apply Reads.peek_first_bind hk
    refine Reads.next_bind ?_
    have list := args.reads (maxNesting + 1) d hd (by omega) stop
    have opens := startsOperand_append args.starts rest
    exact (commaListUnless_reads (closesStatement_of_startsOperand opens) list).map
      fun args => Stmt.expr (.call _ args)
  | .battle hk ho cond hc body noDefeat, levels, d, hd, hl => by
    apply Reads.peek_first_bind hk
    refine Reads.next_bind (Reads.require_bind ho ?_)
    have alone := noDefeat _ _ List.takeWhile_append_dropWhile.symm (breaks_takeWhile rest)
    exact Reads.of_iff (Reads.bind (cond.reads_statement hd) (Reads.require_bind hc
      (Reads.bind_nil (body.reads levels d hd hl)
        (Reads.acceptAfterBreaks_false_bind (w := []) alone (Reads.pure _))))) (by omega)
  | .battleDefeat hk ho cond hc body gap hd' other, levels, d, hd, hl => by
    apply Reads.peek_first_bind hk
    refine Reads.next_bind (Reads.require_bind ho ?_)
    have other := other.reads levels d hd hl
    exact Reads.of_iff (Reads.bind (cond.reads_statement hd) (Reads.require_bind hc
      (Reads.bind (body.reads levels d hd hl)
        (Reads.acceptAfterBreaks_true_bind gap hd' (by simp) (other.map _))))) (by omega)
  | .retEmpty hk closes, levels, d, hd, hl => by
    apply Reads.peek_first_bind hk
    refine Reads.shallow (Reads.next_bind (Reads.peek_bind ?_)) hd
    rw [List.nil_append, if_pos closes]
    exact Reads.pure _
  | .ret hk h, levels, d, hd, hl => by
    apply Reads.peek_first_bind hk
    refine Reads.next_bind (Reads.peek_bind ?_)
    have opens := startsOperand_append h.starts rest
    rw [if_neg (by simp [closesStatement_of_startsOperand opens])]
    exact (h.reads_statement hd).map fun e => Stmt.ret (some e)
  | .assign hn he h, levels, d, hd, hl => by
    apply Reads.peek_first_bind hn
    refine Reads.get_bind fun c hc => ?_
    rw [secondKind_eq_firstKind, hc, if_pos (by simpa [firstKind] using he)]
    refine Reads.identifier_bind hn (Reads.require_bind he ?_)
    exact (h.reads_statement hd).map (Stmt.assign _)
  | .expr h plain, levels, d, hd, hl => by
    apply Reads.peek_bind
    have run := (h.reads_statement hd).map Stmt.expr
    have opens := startsOperand_append h.starts rest
    split
    case h_7 kind =>
      refine Reads.get_bind fun c hc => ?_
      rw [secondKind_eq_firstKind, hc, if_neg fun assign => plain ⟨kind, assign⟩]
      exact run
    case h_8 => exact run
    all_goals
      rw [‹firstKind _ = _›] at opens
      cases opens

theorem Block.reads {n body w rest} : Block n body w rest → ∀ levels d : Nat, d ≤ maxNesting →
    maxNesting ≤ levels + d → Reads (block (levels + 1)) d w rest body d (d + n)
  | @Block.braces _ closing _ _ _ _ ho h hc, levels, d, hd, hl => by
    refine Reads.require_bind ho ?_
    have h : Reads (deeper do
        let body ← statements closesBlock (statementOf (block levels))
        let _ ← require (.symbol .rbrace)
        return body) d (_ ++ [closing]) rest body d _ := Reads.deeper fun within => by
      obtain ⟨levels, rfl⟩ : ∃ l, levels = l + 1 := ⟨levels - 1, by omega⟩
      have body := h.repeats levels (d + 1) within (by omega) closesBlock
        (fun kind => closesBlock_of_startsStatement) (by simp [firstKind, hc, closesBlock])
        (by simp [firstKind, hc]) []
      rw [List.append_nil] at body
      have body := body.iterate.map List.reverse
      rw [List.reverse_reverse] at body
      exact body.require_after hc id
    exact h.of_iff (by omega)

theorem Body.repeats {n ss w rest} : Body n ss w rest → ∀ levels d : Nat, d ≤ maxNesting →
    maxNesting ≤ levels + d → ∀ closing : Token.Kind → Bool,
    (∀ kind, startsStatement kind → closing kind = false) → closing (firstKind rest) →
    firstKind rest ≠ .newline → ∀ done : List Stmt,
    Repeats (statementStep closing (statementOf (block (levels + 1)))) done d w rest
      (ss.reverse ++ done) d (d + n)
  | .nil gap, levels, d, hd, hl, closing, opens, closes, stop, done => by
    exact Repeats.of_iff (Repeats.stop (statementStep_stops gap closes stop)) (by omega)
  | .cons gap h more, levels, d, hd, hl, closing, opens, closes, stop, done => by
    have step := statementStep_reads gap h.starts opens done (h.reads levels d hd hl)
    have h := Repeats.go step (List.append_ne_nil_of_right_ne_nil _ h.ne_nil)
      (more.repeats levels d hd hl closing opens closes stop _)
    rw [List.reverse_cons, List.append_assoc (List.reverse _)]
    exact h.of_iff (by omega)

end

theorem rest_ofTokens {body : List Token} {last : Token} (hl : last.kind = .eof)
    (inner : ∀ t ∈ body, t.kind ≠ .eof) : (Cursor.ofTokens (body ++ [last])).rest = body := by
  change (body ++ [last]).takeWhile (·.kind != .eof) = body
  rw [List.takeWhile_append_of_pos (by simpa using inner)]
  simp [hl]

/-- A derived word is parsed if it is within the limit on levels, and refused for nesting too deep
otherwise. -/
theorem Body.ofTokens {n p body} (h : Body n p body []) {last : Token} (hl : last.kind = .eof)
    (inner : ∀ t ∈ body, t.kind ≠ .eof) :
    if n ≤ maxNesting then Program.ofTokens (body ++ [last]) = .ok p
    else ∃ line, Program.ofTokens (body ++ [last]) = .error (.nestingTooDeep line) := by
  have opens : ∀ kind, startsStatement kind → (kind == Token.Kind.eof) = false := by
    intro kind starts
    cases kind <;> first | rfl | cases starts
  have repeats := h.repeats maxNesting 0 (Nat.zero_le _) (Nat.le_refl _) (· == .eof) opens rfl
    (by simp [firstKind]) []
  rw [List.append_nil, Nat.zero_add] at repeats
  have read : Reads program 0 body [] p 0 n := by
    have read := repeats.iterate.map List.reverse
    rwa [List.reverse_reverse] at read
  have start := rest_ofTokens hl inner
  have size : (Cursor.ofTokens (body ++ [last])).rest.length ≤ (body ++ [last]).length := by
    rw [start, List.length_append]
    omega
  have run := read (.ofTokens (body ++ [last])) (by rw [start, List.append_nil]) rfl size
  unfold Program.ofTokens
  split at run
  · rw [if_pos ‹_›, run]
  · obtain ⟨line, c, fails⟩ := run
    rw [if_neg ‹_›, fails]
    exact ⟨line, rfl⟩

end CypherLang.Yield
