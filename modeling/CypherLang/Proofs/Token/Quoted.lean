import CypherLang.Proofs.Token.Lexing

namespace CypherLang.Token

/-- The tokens that have been read already stay in front of those still to come. -/
theorem lexFrom_append (first done : Array Token) (line : UInt32) (cs : List Char) :
    lexFrom (first ++ done) line cs = (lexFrom done line cs).map (first ++ ·) := by
  fun_induction lexFrom done line cs with
  | case1 done line cs blanks =>
    rw [lexFrom_eq, blanks]
    simp [Except.map]
  | case2 done line cs c r blanks e read =>
    rw [lexFrom_eq, blanks]
    dsimp only
    rw [read]
    rfl
  | case3 done line cs c r blanks x read ih =>
    rw [lexFrom_eq, blanks]
    dsimp only
    rw [read, ← ih, Array.append_push]

/-- Where lexing starts with these tokens, the others follow them. -/
theorem Lexes.lex_append {source rest : String} {ts : List Token}
    (h : Lexes 1 (source.toList ++ rest.toList) ts 1 rest.toList) :
    Token.lex (source ++ rest) = (Token.lex rest).map (ts ++ ·) := by
  have start := lexFrom_append ts.toArray #[] 1 rest.toList
  rw [Array.append_empty] at start
  unfold Token.lex
  rw [String.toList_append, h, Array.empty_append, start]
  cases lexFrom #[] 1 rest.toList with
  | error e => rfl
  | ok tokens => simp [Except.map]

/-- An escape never holds a line break. -/
theorem newline_not_mem_escape (c : Char) : '\n' ∉ escape c := by
  unfold escape
  split
  case h_5 newline _ => simpa using Ne.symm newline
  all_goals decide

theorem newline_not_mem_quote (text : String) : '\n' ∉ (quote text).toList := by
  have inside : '\n' ∉ text.toList.flatMap escape := by
    rw [List.mem_flatMap]
    rintro ⟨c, -, mem⟩
    exact newline_not_mem_escape c mem
  simp [quote, inside]

/-- A printed text is read as one string with that very text, whatever follows it and whatever has
been read before it. Reading goes on right behind its closing quote and on the same line, for it
holds no line break. So if a source starts with a printed text, its tokens are the string and those
of the rest, and what is wrong with it is what is wrong with the rest. -/
theorem lex_print_text (text : String) :
    (∀ (line : UInt32) (rest : List Char), ∃ c cs,
      (Literal.text text).print.toList ++ rest = c :: cs ∧
        readLexeme line c cs = .ok ⟨.string, text, rest, line⟩) ∧
    (∀ (done : Array Token) (line : UInt32) (rest : List Char),
      lexFrom done line ((Literal.text text).print.toList ++ rest) =
        lexFrom (done.push ⟨.string, text, line⟩) line rest) ∧
    (∀ rest : String, lex ((Literal.text text).print ++ rest) =
      (lex rest).map (⟨.string, text, 1⟩ :: ·)) ∧
    '\n' ∉ (Literal.text text).print.toList := by
  refine ⟨?_, ?_, ?_, newline_not_mem_quote text⟩
  · intro line rest
    exact ⟨'"', _, toList_quote_append text, readLexeme_escapes line text⟩
  · intro done line rest
    exact (lexes_quote text done).trans (congrArg (lexFrom · line rest) Array.append_singleton)
  · intro rest
    exact Lexes.lex_append (lexes_quote text)

/-- A backslash before the letter of an escape, and one right before the closing quote. -/
example : lex ((Literal.text "\\n\\").print ++ "\"") =
    .ok [⟨.string, "\\n\\", 1⟩, ⟨.string, "", 1⟩, ⟨.eof, "", 1⟩] := by cbv

end CypherLang.Token
