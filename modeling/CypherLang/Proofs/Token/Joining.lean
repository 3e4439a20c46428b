import CypherLang.Proofs.Token.Positions

namespace CypherLang.Token

/-- A string with both of its quotes. -/
def Quoted (lexeme : List Char) : Prop :=
  ∃ quote raw text, (quote = '"' ∨ quote = '\'') ∧ Content quote raw text ∧
    lexeme = quote :: (raw ++ [quote])

/-- Every string of a text is closed by its quote. -/
def ClosedStrings (source : List Char) : Prop :=
  ∀ before lexeme text, Occurs source before lexeme .string text → Quoted lexeme

section

variable {rest : List Char}

theorem head?_append_break {cs : List Char} {c : Char} (ne : c ≠ '\n')
    (h : (cs ++ '\n' :: rest).head? = some c) : cs.head? = some c := by
  cases cs with
  | nil =>
    have same : '\n' = c := Option.some.inj h
    exact absurd same.symm ne
  | cons d cs => exact h

/-- What may not follow a lexeme still does not. -/
theorem stop_append_break {p : Char → Bool} {cs : List Char} (ends : p '\n' = false)
    (h : ∀ c ∈ cs.head?, p c = false) : ∀ c ∈ (cs ++ '\n' :: rest).head?, p c = false := by
  intro c hc
  by_cases isBreak : c = '\n'
  · rw [isBreak]
    exact ends
  · exact h c (head?_append_break isBreak hc)

theorem Trivia.append_break {cs t : List Char} (h : Trivia cs t) :
    Trivia (cs ++ '\n' :: rest) t := by
  induction h with
  | none => exact .none
  | blank hc _ ih => exact .blank hc ih
  | comment inside ends =>
    refine .comment inside (.inr ?_)
    cases cs with
    | nil => rfl
    | cons c cs => simpa using ends

/-- A quoted string is read with the same text whatever follows it. -/
theorem Spells.of_quoted {text : String} {lexeme cs : List Char}
    (h : Spells .string text lexeme cs) (quoted : Quoted lexeme) :
    Spells .string text lexeme rest := by
  obtain ⟨quote, raw, content, isQuote, inside, split⟩ := quoted
  subst split
  obtain ⟨c, r, chars, -, read⟩ := h.readLexeme 0
  have same : quote = c ∧ raw ++ quote :: cs = r := by simpa using chars
  obtain ⟨first, more⟩ := same
  subst first more
  rw [readLexeme_string isQuote inside] at read
  have texts : String.ofList content = text := congrArg Lexeme.text (Except.ok.inj read)
  rw [← texts]
  exact .string isQuote inside

theorem Spells.append_break {kind : Kind} {text : String} {lexeme cs : List Char}
    (h : Spells kind text lexeme cs) (closed : kind = .string → Quoted lexeme) :
    Spells kind text lexeme (cs ++ '\n' :: rest) := by
  by_cases isString : kind = .string
  · subst isString
    exact h.of_quoted (closed rfl)
  cases h with
  | newline => exact .newline
  | symbol s assign slash =>
    refine .symbol s (fun same head => ?_) (fun same head => ?_)
    · exact assign same (head?_append_break (by decide) head)
    · exact slash same (head?_append_break (by decide) head)
  | number number stop => exact .number number (stop_append_break (by decide) stop)
  | keyword k stop => exact .keyword k (stop_append_break (by decide) stop)
  | name word other stop => exact .name word other (stop_append_break (by decide) stop)
  | string | cutOff | cutOffEscape => exact absurd rfl isString

end

/-- A token of the rest of a text is one of the whole text. -/
theorem Occurs.after {t lexeme more before lexeme' : List Char} {kind kind' : Kind}
    {text text' : String} (trivia : Trivia (lexeme ++ more) t)
    (spells : Spells kind text lexeme more) (h : Occurs more before lexeme' kind' text') :
    Occurs (t ++ (lexeme ++ more)) (t ++ (lexeme ++ before)) lexeme' kind' text' := by
  obtain ⟨done, rest, split, parts, spells'⟩ := h
  subst split
  have later := parts.later (t ++ lexeme)
  rw [List.append_nil] at later
  exact ⟨_, rest, by simp, .token trivia spells later, spells'⟩

theorem ClosedStrings.after {t lexeme more : List Char} {kind : Kind} {text : String}
    (h : ClosedStrings (t ++ (lexeme ++ more))) (trivia : Trivia (lexeme ++ more) t)
    (spells : Spells kind text lexeme more) :
    (kind = .string → Quoted lexeme) ∧ ClosedStrings more := by
  constructor
  · intro isString
    subst isString
    exact h t lexeme text ⟨[], more, rfl, .done trivia, spells⟩
  · intro before lexeme' text' occurs
    exact h _ lexeme' text' (occurs.after trivia spells)

theorem Partition.append_break {rest before cs : List Char} {ts : List Token}
    (h : Partition [] before cs ts) (closed : ClosedStrings cs) :
    Partition ('\n' :: rest) before cs ts := by
  induction h with
  | done trivia => exact .done trivia.append_break
  | @token before t lexeme more kind text ts trivia spells _ ih =>
    rw [List.append_nil] at trivia spells
    have ⟨quoted, tail⟩ := closed.after trivia spells
    have trivia' : Trivia (lexeme ++ (more ++ '\n' :: rest)) t := by
      rw [← List.append_assoc]
      exact trivia.append_break
    exact .token trivia' (spells.append_break quoted) (ih tail)

/-- The tokens of two texts with a line break between them: those of the first one, a line break,
and those of the second one on later lines. -/
theorem Partition.join {first second : List Char} {ts us : List Token}
    (h : Partition [] [] first ts) (closed : ClosedStrings first) (h' : Partition [] [] second us) :
    Lexes 1 (first ++ '\n' :: second)
      (ts ++ ⟨.newline, "\n", 1 + breaks first⟩ :: us.map (Token.later (breaks first + 1)))
      (1 + breaks (first ++ '\n' :: second)) [] := by
  have one : Lexes 1 (first ++ '\n' :: second) ts (1 + breaks first) ('\n' :: second) := by
    simpa using (h.append_break closed).lexes rfl
  have two := (h'.later (first ++ ['\n'])).lexes rfl
  have lines : breaks (first ++ ['\n']) = breaks first + 1 := by simp
  rw [List.append_nil, List.append_nil, lines, ← UInt32.add_assoc, List.append_assoc] at two
  exact one.trans (Lexes.newline.trans two)

/-- One more lexeme after a partition. -/
theorem Partition.concat {rest rest' before u lexeme : List Char} {kind : Kind} {text : String}
    {done : List Token} (h : Partition rest' before u done) (split : rest' = lexeme ++ rest)
    (spells : Spells kind text lexeme rest) :
    Partition rest before (u ++ lexeme) (done ++ [⟨kind, text, 1 + breaks (before ++ u)⟩]) := by
  subst split
  induction h with
  | @done before t trivia =>
    have trivia : Trivia (lexeme ++ ([] ++ rest)) t := trivia
    rw [← List.append_nil lexeme]
    exact .token trivia spells (.done .none)
  | @token before t first more kind' text' ts trivia spells' _ ih =>
    rw [← List.append_assoc more] at trivia spells'
    have tail := ih
    simp only [List.append_assoc] at tail ⊢
    exact .token trivia spells' (by simpa using tail)

/-- Only the last token of a text can be a string that is cut off. -/
theorem closedStrings_of_last {source : String} {ts : List Token} {t : Token} {line : UInt32}
    (h : lex source = .ok (ts ++ [t] ++ [⟨.eof, "", line⟩])) (ne : t.kind ≠ .string) :
    ClosedStrings source.toList := by
  intro before lexeme text occurs
  obtain ⟨done, rest, split, parts, spells⟩ := occurs
  have last (ends : rest = []) : False := by
    subst ends
    have whole := parts.concat rfl spells
    rw [List.append_nil] at split
    rw [← split] at whole
    rw [whole.lex] at h
    have tokens := (List.append_inj' (Except.ok.inj h) rfl).1
    have same := List.head_eq_of_cons_eq (List.append_inj' tokens rfl).2
    exact ne (congrArg Token.kind same).symm
  cases spells with
  | string isQuote content => exact ⟨_, _, _, isQuote, content, rfl⟩
  | cutOff => exact (last rfl).elim
  | cutOffEscape => exact (last rfl).elim

end CypherLang.Token
