import CypherLang.Proofs.Syntax.Completion
import CypherLang.Proofs.Syntax.Locality

namespace CypherLang

/-- The tokens with an end of file as the last of them. Where it has been missing, it stands on the
line of the last token. -/
def Token.terminated (tokens : List Token) : List Token :=
  match tokens.getLast? with
  | none => [⟨.eof, "", 1⟩]
  | some t => if t.kind = .eof then tokens else tokens ++ [⟨.eof, "", t.line⟩]

/-- The token at index `i` settles the error: whatever follows it, the error is the same, and
without it there are tokens with which no error is left but nesting too deep. -/
structure SyntaxError.SettledAt (e : SyntaxError) (tokens : List Token) (i : Nat) : Prop where
  settled : ∀ rest, Program.ofTokens (tokens.take (i + 1) ++ rest) = .error e
  unsettled : ∃ rest, (∃ p, Program.ofTokens (tokens.take i ++ rest) = .ok p) ∨
    ∃ line, Program.ofTokens (tokens.take i ++ rest) = .error (.nestingTooDeep line)

namespace Cursor

variable {w rest : List Token} {last : Token}

theorem ofTokens_inner (tokens : List Token) : ∀ t ∈ (ofTokens tokens).rest, t.kind ≠ .eof := by
  intro t mem
  simpa using List.mem_takeWhile_imp mem

theorem proper_ofTokens (tokens : List Token) : (ofTokens tokens).Proper :=
  ⟨(List.takeWhile_prefix _).length_le, Nat.zero_le _⟩

theorem rest_ofTokens_append (inner : ∀ t ∈ w, t.kind ≠ .eof) :
    (ofTokens (w ++ rest)).rest = w ++ (ofTokens rest).rest :=
  List.takeWhile_append_of_pos (by simpa using inner)

theorem endLine_ofTokens_eof (inner : ∀ t ∈ w, t.kind ≠ .eof) (eof : last.kind = .eof) :
    (ofTokens (w ++ last :: rest)).endLine = last.line := by
  have first : (w ++ last :: rest).find? (·.kind == .eof) = some last := by
    have none : w.find? (·.kind == .eof) = none := by simpa using inner
    rw [List.find?_append, none, Option.none_or, List.find?_cons_of_pos (by simpa using eof)]
  unfold ofTokens
  rw [first]

theorem rest_ofTokens_eof (eof : last.kind = .eof) : (ofTokens (last :: rest)).rest = [] := by
  change (last :: rest).takeWhile (·.kind != .eof) = []
  rw [List.takeWhile_cons_of_neg (by simpa using eof)]

/-- The tokens that are read are followed by an end of file on the line where they end. -/
theorem exists_last (tokens : List Token) :
    ∃ last after, Token.terminated tokens = (ofTokens tokens).rest ++ last :: after ∧
      last.kind = .eof ∧ last.line = (ofTokens tokens).endLine := by
  cases found : tokens.find? (·.kind == .eof) with
  | some last =>
    obtain ⟨eof, w, after, split, inner⟩ := List.find?_eq_some_iff_append.1 found
    have eof : last.kind = .eof := by simpa using eof
    have inner : ∀ t ∈ w, t.kind ≠ .eof := by simpa using inner
    obtain ⟨x, whole⟩ : ∃ x, Token.terminated tokens = tokens ++ x := by
      unfold Token.terminated
      split
      next empty => exact ⟨_, by rw [List.getLast?_eq_none_iff.1 empty, List.nil_append]⟩
      next => split <;> exact ⟨_, by first | rfl | exact (List.append_nil _).symm⟩
    refine ⟨last, after ++ x, ?_, eof, ?_⟩
    · rw [whole, split, rest_ofTokens_append inner, rest_ofTokens_eof eof]
      simp
    · rw [split, endLine_ofTokens_eof inner eof]
  | none =>
    have inner : ∀ t ∈ tokens, t.kind ≠ .eof := by simpa using found
    have rest : (ofTokens tokens).rest = tokens := by
      have all : (ofTokens (tokens ++ [])).rest = _ := rest_ofTokens_append inner
      rwa [List.append_nil, show (ofTokens []).rest = [] from rfl, List.append_nil] at all
    have line : (ofTokens tokens).endLine = (tokens.getLast?.map Token.line).getD 1 := by
      unfold ofTokens
      rw [found]
    rw [rest, line]
    refine ⟨⟨.eof, "", (tokens.getLast?.map Token.line).getD 1⟩, [], ?_, rfl, rfl⟩
    unfold Token.terminated
    cases final : tokens.getLast? with
    | none =>
      rw [List.getLast?_eq_none_iff.1 final]
      rfl
    | some t =>
      dsimp only
      rw [if_neg (inner t (List.mem_of_getLast? final))]
      rfl

end Cursor

namespace Parser

variable {tokens tokens' : List Token} {c : Cursor} {expected : Wanted} {found : Token.Kind}
variable {line : UInt32}

/-- The next token is one of the terminated tokens. Exchanging what comes after it for other tokens
leaves it in place. -/
theorem exists_next (later : c.Within (.ofTokens tokens)) :
    ∃ w t after, (Cursor.ofTokens tokens).rest = w ++ c.rest ∧
      Token.terminated tokens = w ++ t :: after ∧ t.kind = c.kind ∧ t.line = c.token.line ∧
      ∀ rest, ∃ σ : Swap, σ.cursor (.ofTokens tokens) = .ofTokens (w ++ t :: rest) ∧
        σ.Spares (· ≠ []) c := by
  obtain ⟨last, after, whole, eof, ends⟩ := Cursor.exists_last tokens
  obtain ⟨w, split⟩ := later.rest
  have inner : ∀ t ∈ w ++ c.rest, t.kind ≠ .eof := by
    rw [split]
    exact Cursor.ofTokens_inner tokens
  rw [← split, List.append_assoc] at whole
  cases left : c.rest with
  | nil =>
    -- The file ends here: nothing is exchanged, since what comes after an end is not read.
    rw [left] at whole split inner
    rw [List.append_nil] at inner
    have token : c.token = ⟨.eof, "", c.endLine⟩ := by rw [Cursor.token, left]; rfl
    refine ⟨w, last, after, split.symm, whole, ?_, ?_, fun rest => ?_⟩
    · rw [eof, Cursor.kind, token]
    · rw [ends, token, later.endLine]
    · have read : (Cursor.ofTokens (w ++ last :: rest)).rest = w ++ [] := by
        rw [Cursor.rest_ofTokens_append inner, Cursor.rest_ofTokens_eof eof]
      refine ⟨⟨[], [], (w ++ last :: rest).length, last.line⟩, ?_, [], by rw [left]; rfl, .inr ?_⟩
      · exact Swap.cursor_eq split.symm read (Cursor.endLine_ofTokens_eof inner eof) rfl rfl
      · exact ⟨rfl, rfl, ends.trans later.endLine.symm⟩
  | cons t r =>
    -- Only what comes after the next token is exchanged, up to the end among the new tokens.
    rw [left] at whole split inner
    have token : c.token = t := by rw [Cursor.token, left]; rfl
    refine ⟨w, t, r ++ last :: after, split.symm, whole, ?_, ?_, fun rest => ?_⟩
    · rw [Cursor.kind, token]
    · rw [token]
    · let d := Cursor.ofTokens (w ++ t :: rest)
      have known : ∀ u ∈ w ++ [t], u.kind ≠ .eof := fun u mem => inner u (by
        rw [List.append_cons]
        exact List.mem_append_left r mem)
      have read : d.rest = w ++ [t] ++ (Cursor.ofTokens rest).rest := by
        rw [← Cursor.rest_ofTokens_append known, List.append_assoc]
        rfl
      rw [List.append_cons] at split
      refine ⟨⟨r, (Cursor.ofTokens rest).rest, d.size, d.endLine⟩, ?_, [t], by rw [left]; rfl,
        .inl (List.cons_ne_nil t [])⟩
      exact Swap.cursor_eq split.symm read rfl rfl rfl

/-- A run that stops at an unexpected token does so on all tokens that agree up to it. -/
theorem error_of_swap {σ : Swap} (moved : σ.cursor (.ofTokens tokens) = .ofTokens tokens')
    (run : program (.ofTokens tokens) = .error (.unexpectedToken expected found line) c)
    (spares : σ.Spares (· ≠ []) c) :
    Program.ofTokens tokens' = .error (.unexpectedToken expected found line) := by
  have sees : σ.Sees (· ≠ []) (program (.ofTokens tokens)) := by
    rw [run]
    exact spares
  have proper' : (σ.cursor (.ofTokens tokens)).Proper := by
    rw [moved]
    exact Cursor.proper_ofTokens tokens'
  have again := tight_programLaw.program.swap σ _ (Cursor.proper_ofTokens tokens) proper' sees
  rw [moved, run] at again
  unfold Program.ofTokens
  rw [again]
  rfl

/-- What has been read before an unexpected token starts a program. -/
theorem exists_completion {w : List Token}
    (run : program (.ofTokens tokens) = .error (.unexpectedToken expected found line) c)
    (split : (Cursor.ofTokens tokens).rest = w ++ c.rest) :
    ∃ rest, (∃ p, Program.ofTokens (w ++ rest) = .ok p) ∨
      ∃ line, Program.ofTokens (w ++ rest) = .error (.nestingTooDeep line) := by
  have proper := Cursor.proper_ofTokens tokens
  obtain ⟨u, split', n, p, v, inner, derived⟩ :=
    program_completable _ c.rest ⟨expected, found, line, c, run, rfl⟩ proper.1 proper.2
  obtain rfl := List.append_cancel_right (split.symm.trans split')
  have all : ∀ t ∈ w ++ v, t.kind ≠ .eof := by
    intro t mem
    rcases List.mem_append.1 mem with read | added
    · refine Cursor.ofTokens_inner tokens t ?_
      rw [split]
      exact List.mem_append_left _ read
    · exact inner t added
  let last : Token := ⟨.eof, "", 1⟩
  have parsed := (derived [] rfl).ofTokens (show last.kind = .eof from rfl) all
  refine ⟨v ++ [last], ?_⟩
  rw [← List.append_assoc]
  split at parsed
  · exact .inl ⟨p, parsed⟩
  · exact .inr parsed

end Parser

/-- A token that was not expected is the first one that is wrong. -/
theorem Program.ofTokens_correct_prefix {tokens : List Token} {expected : Wanted}
    {found : Token.Kind} {line : UInt32}
    (h : Program.ofTokens tokens = .error (.unexpectedToken expected found line)) :
    ∃ i t, (Token.terminated tokens)[i]? = some t ∧ t.kind = found ∧ t.line = line ∧
      SyntaxError.SettledAt (.unexpectedToken expected found line) (Token.terminated tokens) i := by
  have forward := Parser.forward_programLaw.program (.ofTokens tokens)
  unfold Program.ofTokens at h
  cases run : Parser.program (.ofTokens tokens) with
  | ok p c =>
    rw [run] at h
    cases h
  | error e c =>
    rw [run] at h forward
    cases h
    obtain ⟨later, t, -, concerns, next⟩ := forward
    obtain rfl := next _ _ _ rfl
    obtain ⟨w, t, after, split, whole, kind, line, exchange⟩ := Parser.exists_next later
    have token : (Token.terminated tokens).take w.length = w := by
      rw [whole, List.take_left]
    have upTo : (Token.terminated tokens).take (w.length + 1) = w ++ [t] := by
      rw [whole, List.take_length_add_append]
      rfl
    refine ⟨w.length, t, by rw [whole]; simp, kind.trans concerns.1, line.trans concerns.2, ?_, ?_⟩
    · intro rest
      obtain ⟨σ, moved, spares⟩ := exchange rest
      rw [upTo, List.append_assoc]
      exact Parser.error_of_swap moved run spares
    · rw [token]
      exact Parser.exists_completion run split

/-- No statement starts with `versus`, where a `defeat` could have followed; that the block of the
function is left open is not what is wrong. -/
theorem Program.ofTokens_correct_prefix_versus :
    let tokens : List Token := [⟨.keyword .verse, "verse", 1⟩, ⟨.identifier, "f", 1⟩,
      ⟨.symbol .lparen, "(", 1⟩, ⟨.symbol .rparen, ")", 1⟩, ⟨.symbol .lbrace, "\x7b", 1⟩,
      ⟨.keyword .battle, "battle", 1⟩, ⟨.symbol .lparen, "(", 1⟩, ⟨.identifier, "a", 1⟩,
      ⟨.symbol .rparen, ")", 1⟩, ⟨.symbol .lbrace, "\x7b", 1⟩, ⟨.symbol .rbrace, "\x7d", 1⟩,
      ⟨.newline, "\n", 1⟩, ⟨.keyword .versus, "versus", 2⟩, ⟨.identifier, "b", 2⟩]
    Program.ofTokens tokens =
        .error (.unexpectedToken .expression (.keyword .versus) 2) ∧
      ∃ i t, (Token.terminated tokens)[i]? = some t ∧ t.kind = .keyword .versus ∧ t.line = 2 ∧
        SyntaxError.SettledAt (.unexpectedToken .expression (.keyword .versus) 2)
          (Token.terminated tokens) i := by
  intro tokens
  have refused : Program.ofTokens tokens =
      .error (.unexpectedToken .expression (.keyword .versus) 2) := by
    dsimp only [tokens]
    cbv
  exact ⟨refused, Program.ofTokens_correct_prefix refused⟩

end CypherLang
