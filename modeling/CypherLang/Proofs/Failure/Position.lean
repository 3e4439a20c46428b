import CypherLang.Failure
import CypherLang.Proofs.Listing.Lines
import CypherLang.Proofs.Syntax.Blame
import CypherLang.Proofs.Token.Positions

namespace CypherLang

namespace Failure

/-- The failure is on line `n` of the program, and its report shows that line: `text`, which is what
stands between two line breaks without the carriage returns at its end. -/
structure Located (f : Failure) (s : Listing) (n : Nat) (text : List Char) : Prop where
  number : f.line?.map UInt32.toNat = some n
  inside : 1 ≤ n ∧ n ≤ s.numLines
  isLine : ∃ line, Listing.IsLine s.text.toList n line ∧ Listing.Trimmed line text
  found : s.line? (.ofNat n) = some (.ofList text)
  reportedNumber : (f.report s).line.map UInt32.toNat = some n
  reportedText : (f.report s).sourceLine = some (.ofList text)

/-- What is wrong on line `n`, which reads `text`: a character that stands on it, or a token of the
program that starts on it or, for an end of file, ends the program there. -/
def Explained (source : String) (n : Nat) (text : List Char) : Failure → Prop
  | lex e => e.char ∈ text ∧
      ∃ before after, source.toList = before ++ e.char :: after ∧ n = 1 + before.count '\n'
  | parse e => ∃ tokens t before, Token.lex source = .ok tokens ∧ t ∈ tokens ∧ e.Concerns t ∧
      n = 1 + before.count '\n' ∧
      ((∃ lexeme, Token.Occurs source.toList before lexeme t.kind t.text) ∨
        t.kind = .eof ∧ before = source.toList)
  | eval _ => False

theorem located_of_isLine {f : Failure} {s : Listing} {n : Nat} {line : List Char}
    (short : s.numLines < 2 ^ 32) (number : f.line? = some (.ofNat n))
    (isLine : Listing.IsLine s.text.toList n line) :
    f.Located s n (Listing.trimReturns line) := by
  obtain ⟨positive, bounded, found⟩ := Listing.line?_of_isLine short isLine
  have fits : (UInt32.ofNat n).toNat = n :=
    UInt32.toNat_ofNat_of_lt (Nat.lt_of_le_of_lt bounded short)
  exact {
    number := by simp [number, fits]
    inside := ⟨positive, bounded⟩
    isLine := ⟨line, isLine, Listing.trimmed_trimReturns line⟩
    found
    reportedNumber := by simp [report, number, Diagnostic.withLine, fits]
    reportedText := by simp [report, number, Diagnostic.withLine, found] }

end Failure

namespace Program

/-- A text is refused by the lexer, or its tokens are refused by the parser. -/
theorem parse_error_cases {source : String} {f : Failure} (h : Program.parse source = .error f) :
    (∃ e, f = .lex e ∧ Token.lex source = .error e) ∨
      ∃ tokens e, f = .parse e ∧ Token.lex source = .ok tokens ∧
        Program.ofTokens tokens = .error e := by
  unfold Program.parse at h
  cases lexed : Token.lex source with
  | error e =>
    rw [lexed] at h
    cases h
    exact .inl ⟨e, rfl, rfl⟩
  | ok tokens =>
    rw [lexed] at h
    cases parsed : Program.ofTokens tokens with
    | error e =>
      simp only [parsed] at h
      cases h
      exact .inr ⟨tokens, e, rfl, rfl, parsed⟩
    | ok p =>
      simp only [parsed] at h
      cases h

/-- The tokens of a text are refused because of one of them. -/
theorem exists_concerned_of_lex {source : String} {tokens : List Token} {e : SyntaxError}
    (lexed : Token.lex source = .ok tokens) (h : Program.ofTokens tokens = .error e) :
    ∃ t ∈ tokens, e.Concerns t := by
  obtain ⟨body, parts, same⟩ := Token.partition_of_lex lexed
  subst same
  exact exists_concerned parts.ne_eof h

/-- Every failure to read a program is reported with the line on which the offending character or
token starts. -/
theorem failure_located (name source : String) {f : Failure}
    (short : (Listing.mk name source).numLines < 2 ^ 32) (h : Program.parse source = .error f) :
    ∃ n text, f.Located ⟨name, source⟩ n text ∧ f.Explained source n text := by
  rcases parse_error_cases h with ⟨e, same, refused⟩ | ⟨tokens, e, same, lexed, refused⟩
  · subst same
    obtain ⟨u, v, split, line, ne, ne'⟩ := Token.stray_of_lex refused
    obtain ⟨shown, isLine, mem⟩ := Listing.exists_isLine_mem u v ne
    rw [← split] at isLine
    have number : (Failure.lex e).line? = some (.ofNat (1 + u.count '\n')) := by
      rw [← Token.one_add_breaks, ← line]
      rfl
    refine ⟨_, _, Failure.located_of_isLine short number isLine, ?_, u, v, split, rfl⟩
    exact (Listing.trimmed_trimReturns shown).mem mem ne'
  · subst same
    obtain ⟨t, mem, concerns⟩ := exists_concerned_of_lex lexed refused
    obtain ⟨before, line, place⟩ := Token.line_of_mem_lex lexed mem
    have starts : ∃ after, source.toList = before ++ after := by
      rcases place with ⟨lexeme, done, rest, split, -⟩ | ⟨-, split⟩
      · exact ⟨_, split⟩
      · exact ⟨[], by simp [split]⟩
    obtain ⟨after, split⟩ := starts
    obtain ⟨l, r, -, -, -, isLine⟩ := Listing.exists_isLine before after
    rw [← split] at isLine
    have number : (Failure.parse e).line? = some (.ofNat (1 + before.count '\n')) := by
      rw [← Token.one_add_breaks, ← line, concerns.line_eq]
      rfl
    exact ⟨_, _, Failure.located_of_isLine short number isLine, tokens, t, before, lexed, mem,
      concerns, rfl, place⟩

theorem failure_located_broken_text :
    let source := "spit x = 'a\nb' // c\r\nflow x +\r\n\r\n"
    let f := Failure.parse (.unexpectedToken .expression .newline 3)
    (Listing.mk "a.cy" source).numLines < 2 ^ 32 ∧ Program.parse source = .error f ∧
      ∃ n text, f.Located ⟨"a.cy", source⟩ n text ∧ f.Explained source n text := by
  intro source f
  have short : (Listing.mk "a.cy" source).numLines < 2 ^ 32 := by cbv
  have fails : Program.parse source = .error f := by cbv
  exact ⟨short, fails, failure_located "a.cy" source short fails⟩

end Program

end CypherLang
