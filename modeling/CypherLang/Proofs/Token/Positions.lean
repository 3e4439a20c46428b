import CypherLang.Proofs.Token.Partition

namespace CypherLang.Token

/-- A token of some kind and text stands in a text: it is written with the characters `lexeme`, and
the characters `before` it are other lexemes and trivia. -/
def Occurs (source before lexeme : List Char) (kind : Kind) (text : String) : Prop :=
  ∃ done rest, source = before ++ (lexeme ++ rest) ∧ Partition (lexeme ++ rest) [] before done ∧
    Spells kind text lexeme rest

/-- The same token on a later line. -/
def later (lines : UInt32) (t : Token) : Token := { t with line := t.line + lines }

@[simp]
theorem later_zero (t : Token) : t.later 0 = t := by simp [later]

theorem Partition.lex {source : String} {body : List Token}
    (h : Partition [] [] source.toList body) :
    lex source = .ok (body ++ [⟨.eof, "", 1 + breaks source.toList⟩]) := by
  have lexed : Lexes 1 source.toList body (1 + breaks source.toList) [] := by
    simpa using h.lexes rfl
  exact lexed.lex

/-- A text is lexed by its partition, or refused at the first character that starts nothing. -/
theorem lex_cases (source : String) :
    (∃ body, Partition [] [] source.toList body ∧
      lex source = .ok (body ++ [⟨.eof, "", 1 + breaks source.toList⟩])) ∨
    ∃ u c v, source.toList = u ++ c :: v ∧ StartsNothing c ∧
      lex source = .error ⟨c, 1 + breaks u⟩ := by
  rcases exists_partition [] source.toList with
    ⟨body, parts⟩ | ⟨u, c, v, body, split, parts, nothing⟩
  · exact .inl ⟨body, parts, parts.lex⟩
  · have ⟨start, fails⟩ := nothing.lexFrom (#[] ++ body.toArray) (1 + breaks u) v
    have read := parts.lexes start #[]
    rw [List.nil_append, breaks_nil, UInt32.add_zero, ← split, fails] at read
    have refused : lex source = .error ⟨c, 1 + breaks u⟩ := by
      rw [lex, read]
      rfl
    exact .inr ⟨u, c, v, split, nothing, refused⟩

theorem partition_of_lex {source : String} {ts : List Token} (h : lex source = .ok ts) :
    ∃ body, Partition [] [] source.toList body ∧
      ts = body ++ [⟨.eof, "", 1 + breaks source.toList⟩] := by
  rcases lex_cases source with ⟨body, parts, lexed⟩ | ⟨u, c, v, split, nothing, refused⟩
  · rw [lexed] at h
    exact ⟨body, parts, (Except.ok.inj h).symm⟩
  · rw [refused] at h
    cases h

/-- Neither a line break nor a carriage return is refused. -/
theorem StartsNothing.ne_break {c : Char} (h : StartsNothing c) : c ≠ '\n' ∧ c ≠ '\r' := by
  constructor
  · intro same
    subst same
    exact h.2 .newline "\n" [] [] .newline
  · intro same
    subst same
    exact h.1 [] [] (.blank (by simp) .none)

theorem stray_of_lex {source : String} {e : StrayChar} (h : lex source = .error e) :
    ∃ u v, source.toList = u ++ e.char :: v ∧ e.line = 1 + breaks u ∧
      e.char ≠ '\n' ∧ e.char ≠ '\r' := by
  rcases lex_cases source with ⟨body, parts, lexed⟩ | ⟨u, c, v, split, nothing, refused⟩
  · rw [lexed] at h
    cases h
  · rw [refused] at h
    cases h
    exact ⟨u, v, split, rfl, nothing.ne_break⟩

namespace Partition

variable {rest before cs : List Char} {ts : List Token}

/-- After other characters the same tokens are read, on later lines. -/
theorem later (h : Partition rest before cs ts) (pre : List Char) :
    Partition rest (pre ++ before) cs (ts.map (later (breaks pre))) := by
  induction h with
  | done trivia => exact .done trivia
  | @token before t lexeme more kind text ts trivia spells _ ih =>
    have line : 1 + breaks (before ++ t) + breaks pre = 1 + breaks (pre ++ before ++ t) := by
      simp only [breaks_append]
      ac_rfl
    rw [← List.append_assoc, ← List.append_assoc] at ih
    rw [List.map_cons, Token.later]
    simp only [line]
    exact .token trivia spells ih

/-- Every token of a partition has its place in it, and the line of that place. -/
theorem exists_place {t : Token} (h : Partition rest before cs ts) (mem : t ∈ ts) :
    ∃ u lexeme more done, cs = u ++ (lexeme ++ more) ∧
      Partition (lexeme ++ (more ++ rest)) before u done ∧
      Spells t.kind t.text lexeme (more ++ rest) ∧ t.line = 1 + breaks (before ++ u) := by
  induction h with
  | done => cases mem
  | @token before triv lexeme more kind text ts trivia spells _ ih =>
    rcases List.mem_cons.1 mem with rfl | mem
    · exact ⟨triv, lexeme, more, [], rfl, .done trivia, spells, rfl⟩
    · obtain ⟨u, lexeme', more', done, rfl, parts, spells', line⟩ := ih mem
      rw [List.append_assoc, List.append_assoc] at trivia spells
      refine ⟨triv ++ (lexeme ++ u), lexeme', more', _, by simp, .token trivia spells parts,
        spells', ?_⟩
      rw [line]
      simp

end Partition

/-- Every token of a text carries the line on which it starts; an end of file is on the last one. -/
theorem line_of_mem_lex {source : String} {ts : List Token} {t : Token} (h : lex source = .ok ts)
    (mem : t ∈ ts) : ∃ before, t.line = 1 + breaks before ∧
      ((∃ lexeme, Occurs source.toList before lexeme t.kind t.text) ∨
        t.kind = .eof ∧ before = source.toList) := by
  obtain ⟨body, parts, rfl⟩ := partition_of_lex h
  rcases List.mem_append.1 mem with mem | last
  · obtain ⟨u, lexeme, more, done, split, parts, spells, line⟩ := parts.exists_place mem
    rw [List.append_nil] at parts spells
    exact ⟨u, line, .inl ⟨lexeme, done, more, split, parts, spells⟩⟩
  · obtain rfl := List.mem_singleton.1 last
    exact ⟨source.toList, rfl, .inr ⟨rfl, rfl⟩⟩

end CypherLang.Token
