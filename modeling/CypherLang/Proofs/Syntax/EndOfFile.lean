import CypherLang.Proofs.Syntax.CorrectPrefix
import CypherLang.Proofs.Syntax.Likeness

namespace CypherLang

namespace Cursor

variable {c d : Cursor}

/-- The start of a list of tokens, without looking for an end of file in it. -/
def whole (tokens : List Token) : Cursor where
  rest := tokens
  size := tokens.length
  endLine := (tokens.getLast?.map Token.line).getD 1
  depth := 0

/-- The cursor `d` has the tokens that are left at `c`, and after them an end of file on the line
where those at `c` end, with anything behind it. -/
structure Prolonged (c d : Cursor) : Prop where
  depth : c.depth = d.depth
  rest : ∃ more, d.rest = c.rest ++ more ∧
    ({ d with rest := more } : Cursor).kind = .eof ∧
    ({ d with rest := more } : Cursor).token.line = c.endLine

theorem Prolonged.of_rest {more : List Token} (depth : c.depth = d.depth)
    (rest : d.rest = c.rest ++ more) (kind : ({ d with rest := more } : Cursor).kind = .eof)
    (line : ({ d with rest := more } : Cursor).token.line = c.endLine) : Prolonged c d :=
  ⟨depth, more, rest, kind, line⟩

theorem Prolonged.token (h : Prolonged c d) : c.kind = d.kind ∧ c.token.line = d.token.line ∧
    (c.kind ≠ .eof → c.token.text = d.token.text ∧ Prolonged c.afterNext d.afterNext) := by
  obtain ⟨depth, more, rest, kind, line⟩ := h
  cases left : c.rest with
  | nil =>
    have here : ({ d with rest := more } : Cursor) = d := by
      rw [left, List.nil_append] at rest
      rw [← rest]
    have token : c.token = ⟨.eof, "", c.endLine⟩ := by rw [Cursor.token, left]; rfl
    rw [here] at kind line
    rw [Cursor.kind, token]
    exact ⟨kind.symm, line.symm, fun inside => absurd rfl inside⟩
  | cons t r =>
    rw [left] at rest
    have here : c.token = t := by rw [Cursor.token, left]; rfl
    have there : d.token = t := by rw [Cursor.token, rest]; rfl
    have next : d.rest.tail = c.rest.tail ++ more := by rw [rest, left]; rfl
    rw [Cursor.kind, Cursor.kind, here, there]
    exact ⟨rfl, rfl, fun _ => ⟨rfl, .of_rest depth next kind line⟩⟩

theorem Prolonged.afterBreaks (h : Prolonged c d) : Prolonged c.afterBreaks d.afterBreaks := by
  obtain ⟨depth, more, rest, kind, line⟩ := h
  have stays : more.dropWhile (·.kind == .newline) = more := by
    refine Parser.dropWhile_breaks (v := []) nofun ?_
    rw [Parser.kind_eq_firstKind] at kind
    rw [kind]
    decide
  refine .of_rest depth ?_ kind line
  change d.rest.dropWhile _ = c.rest.dropWhile _ ++ more
  rw [rest, List.dropWhile_append]
  split
  next empty => rw [stays, List.isEmpty_iff.1 empty, List.nil_append]
  next => rfl

theorem prolonged_likeness : Parser.Likeness id Prolonged where
  depth alike := alike.depth
  withDepth _ alike := ⟨rfl, alike.rest⟩
  kind alike := alike.token.1
  line alike := alike.token.2.1
  text alike plain := (alike.token.2.2 plain.2).1
  afterNext alike plain := (alike.token.2.2 plain.2).2
  afterBreaks alike := alike.afterBreaks

/-- Cutting the tokens off at their first end of file is no change for a parser. -/
theorem prolonged_whole (tokens : List Token) : Prolonged (ofTokens tokens) (whole tokens) := by
  have first : tokens.find? (·.kind == .eof) = (tokens.dropWhile (·.kind != .eof)).head? :=
    List.find?_eq_head?_dropWhile_not _ _
  have split : tokens = (ofTokens tokens).rest ++ tokens.dropWhile (·.kind != .eof) :=
    List.takeWhile_append_dropWhile.symm
  cases behind : tokens.dropWhile (·.kind != .eof) with
  | nil =>
    have line : (ofTokens tokens).endLine = (whole tokens).endLine := by
      rw [behind] at first
      unfold ofTokens
      rw [first]
      rfl
    rw [behind] at split
    exact .of_rest rfl split rfl line.symm
  | cons z r =>
    rw [behind] at first split
    have eof := List.find?_some first
    have line : (ofTokens tokens).endLine = z.line := by
      unfold ofTokens
      rw [first]
      rfl
    exact .of_rest rfl split (beq_iff_eq.1 eof) line.symm

end Cursor

theorem SyntaxError.mapLine_id (e : SyntaxError) : e.mapLine id = e := by
  cases e <;> rfl

namespace Program

variable {ts : List Token} {z : Token}

/-- The answer is the same at a prolonged cursor, its line included. -/
theorem answer_of_prolonged {c d : Cursor} (h : Cursor.Prolonged c d) (proper : c.Proper)
    (proper' : d.Proper) : Parser.answer (Parser.program d) = Parser.answer (Parser.program c) := by
  have same := Cursor.prolonged_likeness.answer_program h proper proper'
  have unchanged (r : Except SyntaxError Program) : r.mapError (SyntaxError.mapLine id) = r := by
    cases r with
    | ok p => rfl
    | error e => exact congrArg Except.error e.mapLine_id
  rw [unchanged, unchanged] at same
  exact same.symm

/-- The tokens before an end of file and its line decide the answer. -/
theorem ofTokens_congr {us : List Token}
    (rest : (Cursor.ofTokens ts).rest = (Cursor.ofTokens us).rest)
    (line : (Cursor.ofTokens ts).endLine = (Cursor.ofTokens us).endLine) :
    ofTokens ts = ofTokens us := by
  have prolonged : Cursor.Prolonged (.ofTokens us) (.ofTokens ts) :=
    .of_rest rfl (rest.trans (List.append_nil _).symm) rfl line
  rw [ofTokens_eq_answer, ofTokens_eq_answer]
  exact answer_of_prolonged prolonged (Cursor.proper_ofTokens us) (Cursor.proper_ofTokens ts)

/-- What stands behind the first end of file is not read, and the parser need not be kept from it:
it gives the same where it is free to go on. An end of file that is missing is as good as one on the
line of the last token. -/
theorem ofTokens_endOfFile (rest : List Token) (inner : ∀ t ∈ ts, t.kind ≠ .eof)
    (eof : z.kind = .eof) :
    ofTokens (ts ++ z :: rest) = ofTokens (ts ++ [z]) ∧
    Parser.answer (Parser.program (.whole (ts ++ z :: rest))) = ofTokens (ts ++ [z]) ∧
    (z.line = (ts.getLast?.map Token.line).getD 1 → ofTokens ts = ofTokens (ts ++ [z])) := by
  have read (rest : List Token) : (Cursor.ofTokens (ts ++ z :: rest)).rest = ts := by
    rw [Cursor.rest_ofTokens_append inner, Cursor.rest_ofTokens_eof eof, List.append_nil]
  have line (rest : List Token) : (Cursor.ofTokens (ts ++ z :: rest)).endLine = z.line :=
    Cursor.endLine_ofTokens_eof inner eof
  have cut : ofTokens (ts ++ z :: rest) = ofTokens (ts ++ [z]) :=
    ofTokens_congr ((read rest).trans (read []).symm) ((line rest).trans (line []).symm)
  refine ⟨cut, ?_, fun last => ofTokens_congr ?_ ?_⟩
  · rw [← cut, ofTokens_eq_answer]
    exact answer_of_prolonged (Cursor.prolonged_whole _) (Cursor.proper_ofTokens _)
      ⟨Nat.le_refl _, Nat.zero_le _⟩
  · have all : (Cursor.ofTokens (ts ++ [])).rest = ts ++ [] := Cursor.rest_ofTokens_append inner
    rw [List.append_nil] at all
    exact all.trans (read []).symm
  · have none : ts.find? (·.kind == .eof) = none := by simpa using inner
    rw [line, last]
    unfold Cursor.ofTokens
    rw [none]

/-- A `defeat` behind the end of file belongs to no `battle` before it. -/
theorem ofTokens_endOfFile_defeat :
    let ts : List Token := [⟨.keyword .battle, "battle", 1⟩, ⟨.symbol .lparen, "(", 1⟩,
      ⟨.identifier, "a", 1⟩, ⟨.symbol .rparen, ")", 1⟩, ⟨.symbol .lbrace, "\x7b", 1⟩,
      ⟨.symbol .rbrace, "\x7d", 1⟩, ⟨.newline, "\n", 1⟩]
    let z : Token := ⟨.eof, "", 1⟩
    let rest : List Token := [⟨.keyword .defeat, "defeat", 2⟩, ⟨.symbol .lbrace, "\x7b", 2⟩,
      ⟨.symbol .rbrace, "\x7d", 2⟩]
    ((∀ t ∈ ts, t.kind ≠ .eof) ∧ z.kind = .eof ∧
        z.line = (ts.getLast?.map Token.line).getD 1) ∧
      ofTokens (ts ++ [z]) = .ok [.battle (.identifier "a") [] none] ∧
      ofTokens (ts ++ z :: rest) = ofTokens (ts ++ [z]) ∧
      Parser.answer (Parser.program (.whole (ts ++ z :: rest))) = ofTokens (ts ++ [z]) ∧
      ofTokens ts = ofTokens (ts ++ [z]) := by
  intro ts z rest
  have inner : ∀ t ∈ ts, t.kind ≠ .eof := by decide
  have parsed : ofTokens (ts ++ [z]) = .ok [.battle (.identifier "a") [] none] := by
    dsimp only [ts, z]
    cbv
  obtain ⟨cut, whole, missing⟩ := ofTokens_endOfFile (z := z) rest inner rfl
  exact ⟨⟨inner, rfl, rfl⟩, parsed, cut, whole, missing rfl⟩

end Program

end CypherLang
