import CypherLang.Proofs.Syntax.Following

namespace CypherLang

namespace Yield

variable {k : UInt32}

theorem Body.breaks {n ss v rest gap} (h : Body n ss v rest) (breaks : Breaks gap) :
    Body n ss (gap ++ v) rest := by
  induction gap with
  | nil => exact h
  | cons t gap ih =>
    have more := ih fun u mem => breaks u (List.mem_cons_of_mem t mem)
    exact more.break (breaks t List.mem_cons_self)

/-- Statements in front of statements. -/
theorem Body.append {n ss w m ss' v rest rest'} (h : Body n ss w rest') (split : rest' = v ++ rest)
    (h' : Body m ss' v rest) : Body (max n m) (ss ++ ss') (w ++ v) rest := by
  induction ss generalizing n w with
  | nil =>
    cases h with
    | nil breaks =>
      rw [Nat.max_eq_right (Nat.zero_le m)]
      exact h'.breaks breaks
  | cons s ss ih =>
    cases h with
    | cons breaks s more =>
      subst split
      rw [← List.append_assoc] at s
      rw [Nat.max_assoc, List.append_assoc]
      exact .cons breaks s (ih more)

/-- A program in front of a line break and another program on later lines. -/
theorem Body.join {n p w m q v} (h : Body n p w []) (h' : Body m q v []) {newline : Token}
    (kind : newline.kind = .newline) :
    Body (max n m) (p ++ q) (w ++ newline :: v.map (Token.later k)) [] := by
  have second : Body m q (newline :: v.map (Token.later k)) [] :=
    (h'.moved (.tail (ends_of_closesBlock rfl))).break kind
  have noDefeat := second.noDefeat rfl
  rw [List.append_nil] at noDefeat
  have ends : Ends (newline :: v.map (Token.later k)) := ⟨by rw [firstKind, kind]; rfl, noDefeat⟩
  have first : Body n p w (newline :: v.map (Token.later k)) := h.before (.tail ends)
  exact first.append (List.append_nil _).symm second

end Yield

/-- A parsed program is derived, within the limit, from the tokens of the partition of its text. -/
theorem Program.partition_of_parse {source : String} {p : Program}
    (h : Program.parse source = .ok p) :
    ∃ n body, n ≤ maxNesting ∧ Token.Partition [] [] source.toList body ∧
      Yield.Body n p body [] := by
  obtain ⟨tokens, lexed, parsed⟩ := Program.exists_tokens_of_parse h
  obtain ⟨body, parts, same⟩ := Token.partition_of_lex lexed
  subst same
  obtain ⟨n, hn, derived⟩ := Yield.body_of_ofTokens rfl parts.ne_eof parsed
  exact ⟨n, body, hn, parts, derived⟩

/-- Two programs with a line break between them are the statements of both, if every string of the
first one is closed by its quote. -/
theorem Program.parse_append {first second : String} {p q : Program}
    (h : Program.parse first = .ok p) (closed : Token.ClosedStrings first.toList)
    (h' : Program.parse second = .ok q) :
    Program.parse (first ++ "\n" ++ second) = .ok (p ++ q) := by
  obtain ⟨n, body, hn, parts, derived⟩ := Program.partition_of_parse h
  obtain ⟨m, body', hm, parts', derived'⟩ := Program.partition_of_parse h'
  have chars : (first ++ "\n" ++ second).toList = first.toList ++ '\n' :: second.toList := by simp
  have lexed := parts.join closed parts'
  rw [← chars] at lexed
  have parsed := Program.parse_of_body lexed (derived.join derived' rfl)
  rwa [if_pos (Nat.max_le.2 ⟨hn, hm⟩)] at parsed

/-- The first text ends in a comment after a block that could be continued by a `defeat`, and the
second one starts with what could continue an expression. -/
theorem Program.parse_append_comment :
    let first := "flow 'a'\nbattle (x) \x7b return \x7d // no defeat"
    let second := "(-y)"
    let p : Program := [.expr (.call outputName [.literal (.text "a")]),
      .battle (.identifier "x") [.ret none] none]
    let q : Program := [.expr (.neg (.identifier "y"))]
    Program.parse first = .ok p ∧ Token.ClosedStrings first.toList ∧
      Program.parse second = .ok q ∧ Program.parse (first ++ "\n" ++ second) = .ok (p ++ q) := by
  intro first second p q
  let body : List Token := [⟨.keyword .flow, "flow", 1⟩, ⟨.string, "a", 1⟩, ⟨.newline, "\n", 1⟩,
    ⟨.keyword .battle, "battle", 2⟩, ⟨.symbol .lparen, "(", 2⟩, ⟨.identifier, "x", 2⟩,
    ⟨.symbol .rparen, ")", 2⟩, ⟨.symbol .lbrace, "\x7b", 2⟩, ⟨.keyword .ret, "return", 2⟩]
  have lexed : Token.lex first =
      .ok (body ++ [⟨.symbol .rbrace, "\x7d", 2⟩] ++ [⟨.eof, "", 2⟩]) := by cbv
  have closed := Token.closedStrings_of_last lexed (by decide)
  have parsed : Program.parse first = .ok p := by
    rw [Program.parse, lexed]
    cbv
  have parsed' : Program.parse second = .ok q := by cbv
  exact ⟨parsed, closed, parsed', Program.parse_append parsed closed parsed'⟩

end CypherLang
