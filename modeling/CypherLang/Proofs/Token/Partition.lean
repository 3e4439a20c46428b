import CypherLang.Proofs.Token.Lexing

namespace CypherLang.Token

/-- Blanks and a comment that stand before `rest`. A comment reaches up to the next line break or
up to the end. -/
inductive Trivia (rest : List Char) : List Char → Prop
  | none : Trivia rest []
  | blank {c : Char} {t : List Char} :
      c = ' ' ∨ c = '\t' ∨ c = '\r' → Trivia rest t → Trivia rest (c :: t)
  | comment {t : List Char} :
      '\n' ∉ t → rest = [] ∨ rest.head? = some '\n' → Trivia rest ('/' :: '/' :: t)

/-- The characters between the quotes of a string, and the text they stand for. -/
inductive Content (quote : Char) : List Char → List Char → Prop
  | nil : Content quote [] []
  | plain {c : Char} {raw text : List Char} :
      c ≠ quote → c ≠ '\\' → Content quote raw text → Content quote (c :: raw) (c :: text)
  | escaped {raw text : List Char} (c : Char) :
      Content quote raw text → Content quote ('\\' :: c :: raw) (unescape c :: text)

/-- A token of some kind and text is written with the characters `lexeme` when `rest` follows, and
with no more of them. A string that is cut off by the end loses a backslash that stands last. -/
inductive Spells : Kind → String → (lexeme rest : List Char) → Prop
  | newline {rest : List Char} : Spells .newline "\n" ['\n'] rest
  | symbol {rest : List Char} (s : Symbol) :
      (s = .assign → rest.head? ≠ some '=') → (s = .slash → rest.head? ≠ some '/') →
        Spells (.symbol s) s.text s.text.toList rest
  | number {text : String} {rest : List Char} :
      IsNumber text → (∀ c ∈ rest.head?, continuesNumber c = false) →
        Spells .number text text.toList rest
  | keyword {rest : List Char} (k : Keyword) :
      (∀ c ∈ rest.head?, continuesName c = false) →
        Spells (.keyword k) k.text k.text.toList rest
  | name {text : String} {rest : List Char} :
      IsWord text → (∀ k : Keyword, text ≠ k.text) →
        (∀ c ∈ rest.head?, continuesName c = false) → Spells .identifier text text.toList rest
  | string {quote : Char} {raw text rest : List Char} :
      quote = '"' ∨ quote = '\'' → Content quote raw text →
        Spells .string (.ofList text) (quote :: (raw ++ [quote])) rest
  | cutOff {quote : Char} {raw text : List Char} :
      quote = '"' ∨ quote = '\'' → Content quote raw text →
        Spells .string (.ofList text) (quote :: raw) []
  | cutOffEscape {quote : Char} {raw text : List Char} :
      quote = '"' ∨ quote = '\'' → Content quote raw text →
        Spells .string (.ofList text) (quote :: (raw ++ ['\\'])) []

/-- The number of line breaks among some characters, in the 32 bits in which lines are counted. -/
def breaks (cs : List Char) : UInt32 := .ofNat (cs.count '\n')

/-- The characters that stand after `before` and in front of `rest` are lexemes with trivia around
them, and these are their tokens. -/
inductive Partition (rest : List Char) : (before chars : List Char) → List Token → Prop
  | done {before t : List Char} : Trivia rest t → Partition rest before t []
  | token {before t lexeme more : List Char} {kind : Kind} {text : String} {ts : List Token} :
      Trivia (lexeme ++ (more ++ rest)) t → Spells kind text lexeme (more ++ rest) →
        Partition rest (before ++ t ++ lexeme) more ts →
          Partition rest before (t ++ (lexeme ++ more))
            (⟨kind, text, 1 + breaks (before ++ t)⟩ :: ts)

/-- Neither trivia nor a lexeme starts with the character. -/
def StartsNothing (c : Char) : Prop :=
  (∀ rest t, ¬ Trivia rest (c :: t)) ∧ ∀ kind text l rest, ¬ Spells kind text (c :: l) rest

@[simp]
theorem breaks_nil : breaks [] = 0 := rfl

@[simp]
theorem breaks_append (cs cs' : List Char) : breaks (cs ++ cs') = breaks cs + breaks cs' := by
  rw [breaks, List.count_append, UInt32.ofNat_add]
  rfl

@[simp]
theorem breaks_newline (cs : List Char) : breaks ('\n' :: cs) = breaks cs + 1 := by
  rw [breaks, List.count_cons_self, UInt32.ofNat_add]
  rfl

theorem breaks_cons_of_ne {c : Char} (h : c ≠ '\n') (cs : List Char) :
    breaks (c :: cs) = breaks cs := by
  rw [breaks, List.count_cons_of_ne h, breaks]

/-- The number of a line, which is counted modulo 2 ^ 32. -/
theorem one_add_breaks (cs : List Char) : 1 + breaks cs = .ofNat (1 + cs.count '\n') := by
  rw [UInt32.ofNat_add]
  rfl

theorem toNat_one_add_breaks (cs : List Char) :
    (1 + breaks cs).toNat = (1 + cs.count '\n') % 2 ^ 32 := by
  rw [one_add_breaks, UInt32.toNat_ofNat']

/-- After 2 ^ 32 - 1 line breaks the lines are counted from zero again. -/
theorem line_starts_over {cs : List Char} (h : 1 + cs.count '\n' = 2 ^ 32) : 1 + breaks cs = 0 := by
  rw [one_add_breaks, h]
  rfl

theorem breaks_eq_zero {cs : List Char} (h : '\n' ∉ cs) : breaks cs = 0 := by
  rw [breaks, List.count_eq_zero.2 h]
  rfl

namespace Trivia

variable {rest t : List Char}

theorem breaks_eq_zero (h : Trivia rest t) : breaks t = 0 := by
  induction h with
  | none => rfl
  | blank hc _ ih => rcases hc with rfl | rfl | rfl <;> exact ih
  | comment ht => exact Token.breaks_eq_zero (by simpa using ht)

theorem dropBlanks (h : Trivia rest t) (start : dropBlanks rest = rest) :
    Token.dropBlanks (t ++ rest) = rest := by
  induction h with
  | none => exact start
  | blank hc _ ih => rcases hc with rfl | rfl | rfl <;> exact ih
  | comment ht stop =>
    refine (takeWhile_append_stop (p := (· != '\n')) ?_ ?_).2
    · intro c hc
      have : c ≠ '\n' := fun h => ht (h ▸ hc)
      simpa using this
    · intro c hc
      rcases stop with rfl | stop
      · cases hc
      · have : c = '\n' := Option.some.inj (hc.symm.trans stop)
        simp [this]

end Trivia

theorem dropBlanks_trivia (cs : List Char) :
    ∃ t, cs = t ++ dropBlanks cs ∧ Trivia (dropBlanks cs) t := by
  fun_induction dropBlanks cs with
  | case1 => exact ⟨[], rfl, .none⟩
  | case2 cs =>
    refine ⟨'/' :: '/' :: cs.takeWhile (· != '\n'), by simp, .comment ?_ ?_⟩
    · intro mem
      have inside := List.all_eq_true.1 (List.all_takeWhile (p := (· != '\n')) (l := cs)) _ mem
      simp at inside
    · have stop := List.head?_dropWhile_not (· != '\n') cs
      cases h : (cs.dropWhile (· != '\n')) with
      | nil => exact .inl rfl
      | cons c rest =>
        rw [h] at stop
        simpa using stop
  | case3 c cs _ blank ih =>
    obtain ⟨t, split, trivia⟩ := ih
    exact ⟨c :: t, congrArg (List.cons c) split, .blank blank trivia⟩
  | case4 c cs => exact ⟨[], rfl, .none⟩

/-- No trivia is dropped in front of characters that start none. -/
theorem dropBlanks_eq_self {c : Char} {cs : List Char} (h : ∀ rest t, cs = t ++ rest →
    ¬ Trivia rest (c :: t)) : dropBlanks (c :: cs) = c :: cs := by
  obtain ⟨t, split, trivia⟩ := dropBlanks_trivia (c :: cs)
  cases t with
  | nil => exact split.symm
  | cons d t =>
    obtain ⟨rfl, rest⟩ := List.cons.inj split
    exact absurd trivia (h _ t rest)

theorem dropBlanks_dropBlanks (cs : List Char) : dropBlanks (dropBlanks cs) = dropBlanks cs := by
  fun_induction dropBlanks cs with
  | case1 => rfl
  | case2 cs =>
    cases h : cs.dropWhile (· != '\n') with
    | nil => rfl
    | cons c rest =>
      have stop := List.head?_dropWhile_not (· != '\n') cs
      rw [h] at stop
      obtain rfl : c = '\n' := by simpa using stop
      rfl
  | case3 c cs _ _ ih => exact ih
  | case4 c cs comment blank => rw [dropBlanks.eq_3 c cs comment, if_neg blank]

theorem nextLine_add_breaks (c : Char) (line : UInt32) (cs : List Char) :
    nextLine c line + breaks cs = line + breaks (c :: cs) := by
  by_cases h : c = '\n'
  · subst h
    rw [nextLine, if_pos rfl, breaks_newline]
    ac_rfl
  · rw [nextLine, if_neg h, breaks_cons_of_ne h]

/-- The inside of a string is read up to whatever follows it. -/
theorem Content.readString {quote : Char} {raw text : List Char} (h : Content quote raw text)
    (ne : quote ≠ '\\') (read more : List Char) (line : UInt32) :
    Token.readString quote read line (raw ++ more) =
      Token.readString quote (text.reverse ++ read) (line + breaks raw) more := by
  induction h generalizing read line with
  | nil => simp
  | @plain c raw text hq hb _ ih =>
    have step : Token.readString quote read line (c :: (raw ++ more)) =
        Token.readString quote (c :: read) (nextLine c line) (raw ++ more) := by
      rw [Token.readString.eq_def]
      simp [hq, hb]
    rw [List.cons_append, step, ih, nextLine_add_breaks]
    simp
  | @escaped raw text c _ ih =>
    have step : Token.readString quote read line ('\\' :: c :: (raw ++ more)) =
        Token.readString quote (unescape c :: read) (nextLine c line) (raw ++ more) := by
      rw [Token.readString.eq_def]
      simp [ne.symm]
    have backslash : breaks ('\\' :: c :: raw) = breaks (c :: raw) :=
      breaks_cons_of_ne (by decide) _
    rw [List.cons_append, List.cons_append, step, ih, nextLine_add_breaks, backslash]
    simp

/-- Whatever follows the opening quote is content up to a closing quote or up to the end. -/
theorem exists_content (quote : Char) : ∀ cs : List Char, ∃ raw text more,
    Content quote raw text ∧ cs = raw ++ more ∧
      (more = [] ∨ more = ['\\'] ∨ ∃ rest, more = quote :: rest)
  | [] => ⟨[], [], [], .nil, rfl, .inl rfl⟩
  | c :: cs => by
    by_cases closes : c = quote
    · exact ⟨[], [], c :: cs, .nil, rfl, .inr (.inr ⟨cs, by rw [closes]⟩)⟩
    by_cases backslash : c = '\\'
    · cases cs with
      | nil => exact ⟨[], [], [c], .nil, rfl, .inr (.inl (by rw [backslash]))⟩
      | cons e cs =>
        obtain ⟨raw, text, more, content, rfl, stop⟩ := exists_content quote cs
        exact ⟨c :: e :: raw, _, more, backslash ▸ content.escaped e, rfl, stop⟩
    · obtain ⟨raw, text, more, content, rfl, stop⟩ := exists_content quote cs
      exact ⟨c :: raw, c :: text, more, content.plain closes backslash, rfl, stop⟩

theorem readLexeme_quote {quote : Char} (h : quote = '"' ∨ quote = '\'') (line : UInt32)
    (cs : List Char) : readLexeme line quote cs = .ok (readString quote [] line cs) := by
  have newline : quote ≠ '\n' := by rcases h with rfl | rfl <;> decide
  unfold readLexeme
  rw [if_neg newline, if_pos h]

section Strings

variable {quote : Char} {raw text : List Char}

theorem readLexeme_string (h : quote = '"' ∨ quote = '\'') (content : Content quote raw text)
    (line : UInt32) (rest : List Char) : readLexeme line quote (raw ++ quote :: rest) =
      .ok ⟨.string, .ofList text, rest, line + breaks raw⟩ := by
  have ne : quote ≠ '\\' := by rcases h with rfl | rfl <;> decide
  rw [readLexeme_quote h, content.readString ne, readString.eq_def]
  simp

theorem readLexeme_cutOff (h : quote = '"' ∨ quote = '\'') (content : Content quote raw text)
    (line : UInt32) : readLexeme line quote raw =
      .ok ⟨.string, .ofList text, [], line + breaks raw⟩ := by
  have ne : quote ≠ '\\' := by rcases h with rfl | rfl <;> decide
  have read := content.readString ne [] [] line
  rw [List.append_nil, List.append_nil] at read
  rw [readLexeme_quote h, read, readString.eq_def]
  simp

theorem readLexeme_cutOffEscape (h : quote = '"' ∨ quote = '\'')
    (content : Content quote raw text) (line : UInt32) : readLexeme line quote (raw ++ ['\\']) =
      .ok ⟨.string, .ofList text, [], line + breaks raw⟩ := by
  have ne : quote ≠ '\\' := by rcases h with rfl | rfl <;> decide
  rw [readLexeme_quote h, content.readString ne, readString.eq_def]
  simp [ne.symm]

end Strings

/-- No character of a word or a number breaks the line. -/
theorem IsWord.breaks_eq_zero {text : String} (h : IsWord text) : breaks text.toList = 0 := by
  obtain ⟨c, cs, chars, starts, inside⟩ := h
  apply Token.breaks_eq_zero
  rw [chars]
  rintro (_ | ⟨_, mem⟩)
  · exact absurd starts (by decide)
  · exact absurd (inside _ mem) (by decide)

theorem IsNumber.breaks_eq_zero {text : String} (h : IsNumber text) : breaks text.toList = 0 := by
  obtain ⟨c, cs, chars, digit, inside⟩ := h
  apply Token.breaks_eq_zero
  rw [chars]
  rintro (_ | ⟨_, mem⟩)
  · exact absurd digit (by decide)
  · exact absurd (inside _ mem) (by decide)

theorem isWord_keyword (k : Keyword) : IsWord k.text := by
  cases k <;> exact ⟨_, _, rfl, by decide, List.all_eq_true.1 rfl⟩

theorem readLexeme_symbol {rest : List Char} (s : Symbol) (line : UInt32)
    (assign : s = .assign → rest.head? ≠ some '=') (slash : s = .slash → rest.head? ≠ some '/') :
    ∃ c r, s.text.toList ++ rest = c :: r ∧ dropBlanks (c :: r) = c :: r ∧
      readLexeme line c r = .ok ⟨.symbol s, s.text, rest, line⟩ := by
  cases s with
  | assign =>
    refine ⟨'=', rest, rfl, rfl, ?_⟩
    unfold readLexeme
    rw [if_neg (by decide), if_neg (by decide), if_neg (by decide), if_neg (by decide)]
    split
    · exact absurd rfl (assign rfl)
    · rfl
  | slash =>
    refine ⟨'/', rest, rfl, ?_, rfl⟩
    apply dropBlanks_eq_self
    rintro rest t rfl trivia
    cases trivia with
    | blank blank => exact absurd blank (by decide)
    | comment => exact slash rfl rfl
  | _ => exact ⟨_, _, rfl, rfl, rfl⟩

theorem wordKind_eq_identifier {text : String} (h : ∀ k : Keyword, text ≠ k.text) :
    wordKind text = .identifier := by
  have none : Keyword.ofText? text = none := by
    apply List.find?_eq_none.2
    intro k _
    simpa using (h k).symm
  rw [wordKind, none]

/-- A lexeme is read as its token, whatever follows it, and no trivia stands in front of it. -/
theorem Spells.readLexeme {kind : Kind} {text : String} {lexeme rest : List Char}
    (h : Spells kind text lexeme rest) (line : UInt32) :
    ∃ c r, lexeme ++ rest = c :: r ∧ dropBlanks (c :: r) = c :: r ∧
      readLexeme line c r = .ok ⟨kind, text, rest, line + breaks lexeme⟩ := by
  have start {quote : Char} (hq : quote = '"' ∨ quote = '\'') (cs : List Char) :
      dropBlanks (quote :: cs) = quote :: cs := by
    rcases hq with rfl | rfl <;> rfl
  have lines {quote : Char} (hq : quote = '"' ∨ quote = '\'') (cs : List Char) :
      breaks (quote :: cs) = breaks cs := by
    rcases hq with rfl | rfl <;> exact breaks_cons_of_ne (by decide) cs
  cases h with
  | newline => exact ⟨'\n', rest, rfl, rfl, rfl⟩
  | symbol s assign slash =>
    have lines : breaks s.text.toList = 0 := by cases s <;> decide
    rw [lines, UInt32.add_zero]
    exact readLexeme_symbol s line assign slash
  | number number stop =>
    rw [number.breaks_eq_zero, UInt32.add_zero]
    exact number.readLexeme line stop
  | keyword k stop =>
    rw [(isWord_keyword k).breaks_eq_zero, UInt32.add_zero, ← wordKind_text]
    exact (isWord_keyword k).readLexeme line stop
  | name word other stop =>
    rw [word.breaks_eq_zero, UInt32.add_zero, ← wordKind_eq_identifier other]
    exact word.readLexeme line stop
  | @string quote raw text _ hq content =>
    refine ⟨quote, raw ++ quote :: rest, by simp, start hq _, ?_⟩
    rw [readLexeme_string hq content, lines hq, breaks_append, lines hq, breaks_nil,
      UInt32.add_zero]
  | @cutOff quote raw text hq content =>
    refine ⟨quote, raw, by simp, start hq _, ?_⟩
    rw [readLexeme_cutOff hq content, lines hq]
  | @cutOffEscape quote raw text hq content =>
    refine ⟨quote, raw ++ ['\\'], by simp, start hq _, ?_⟩
    have backslash : breaks ['\\'] = 0 := rfl
    rw [readLexeme_cutOffEscape hq content, lines hq, breaks_append, backslash, UInt32.add_zero]

theorem text_of_ofChar? {c : Char} {s : Symbol} (h : Symbol.ofChar? c = some s) :
    s.text.toList = [c] := by
  unfold Symbol.ofChar? at h
  split at h <;> cases h <;> rfl

theorem head_dropWhile {p : Char → Bool} {cs : List Char} :
    ∀ c ∈ (cs.dropWhile p).head?, p c = false := by
  intro c hc
  have stop := List.head?_dropWhile_not p cs
  rw [Option.mem_def.1 hc] at stop
  simpa using stop

theorem wordKind_spells {text : String} {rest : List Char} (word : IsWord text)
    (stop : ∀ c ∈ rest.head?, continuesName c = false) :
    Spells (wordKind text) text text.toList rest := by
  unfold wordKind
  split
  · rename_i k found
    obtain rfl : k.text = text := by simpa using List.find?_some found
    exact .keyword k stop
  · rename_i missing
    refine .name word ?_ stop
    rintro k rfl
    rw [Keyword.ofText?_text] at missing
    cases missing

/-- What is read is a lexeme and its token. -/
theorem spells_of_readLexeme {line : UInt32} {c : Char} {r : List Char} {x : Lexeme}
    (start : dropBlanks (c :: r) = c :: r) (h : readLexeme line c r = .ok x) :
    ∃ lexeme, c :: r = lexeme ++ x.rest ∧ Spells x.kind x.text lexeme x.rest := by
  have run (p : Char → Bool) : ∀ d ∈ r.takeWhile p, p d :=
    List.all_eq_true.1 List.all_takeWhile
  have pieces (p : Char → Bool) :
      c :: r = (String.ofList (c :: r.takeWhile p)).toList ++ r.dropWhile p := by
    rw [String.toList_ofList, List.cons_append, List.takeWhile_append_dropWhile]
  by_cases quote : c = '"' ∨ c = '\''
  · obtain ⟨raw, text, more, content, rfl, rfl | rfl | ⟨rest, rfl⟩⟩ := exists_content c r
    · rw [List.append_nil, readLexeme_cutOff quote content] at h
      cases h
      exact ⟨_, rfl, .cutOff quote content⟩
    · rw [readLexeme_cutOffEscape quote content] at h
      cases h
      exact ⟨_, (List.append_nil _).symm, .cutOffEscape quote content⟩
    · rw [readLexeme_string quote content] at h
      cases h
      exact ⟨_, by simp, .string quote content⟩
  unfold readLexeme at h
  rw [if_neg quote] at h
  split at h
  · cases h
    exact ⟨['\n'], by simp [*], .newline⟩
  split at h
  · cases h
    exact ⟨_, pieces _, .number ⟨c, _, String.toList_ofList, ‹_›, run _⟩ head_dropWhile⟩
  split at h
  · cases h
    exact ⟨_, pieces _, wordKind_spells ⟨c, _, String.toList_ofList, ‹_›, run _⟩ head_dropWhile⟩
  split at h
  · cases h
    exact ⟨['=', '='], rfl, .symbol .equals nofun nofun⟩
  rename_i alone
  split at h
  · cases h
    rename_i s found
    refine ⟨s.text.toList, by rw [text_of_ofChar? found]; rfl, .symbol s ?_ ?_⟩
    · rintro rfl head
      obtain rfl : '=' = c := List.head_eq_of_cons_eq (text_of_ofChar? found)
      cases r with
      | nil => cases head
      | cons d r => exact alone r rfl (by rw [Option.some.inj head])
    · rintro rfl head
      obtain rfl : '/' = c := List.head_eq_of_cons_eq (text_of_ofChar? found)
      cases r with
      | nil => cases head
      | cons d r =>
        obtain rfl : d = '/' := Option.some.inj head
        have shorter := (List.dropWhile_suffix (l := r) (· != '\n')).length_le
        have same : (r.dropWhile (· != '\n')).length = r.length + 2 := congrArg List.length start
        omega
  · cases h

/-- A character at which reading fails starts nothing, whatever follows it. -/
theorem startsNothing_of_readLexeme {line : UInt32} {c : Char} {r : List Char} {e : StrayChar}
    (start : dropBlanks (c :: r) = c :: r) (h : readLexeme line c r = .error e) :
    e = ⟨c, line⟩ ∧ StartsNothing c := by
  have blank : ¬ (c = ' ' ∨ c = '\t' ∨ c = '\r') := by
    intro blank
    have shorter := dropBlanks_length_le r
    have same : (dropBlanks r).length = r.length + 1 := by
      rcases blank with rfl | rfl | rfl <;> exact congrArg List.length start
    omega
  unfold readLexeme at h
  split at h
  · cases h
  rename_i newline
  split at h
  · cases h
  rename_i quote
  split at h
  · cases h
  rename_i digit
  split at h
  · cases h
  rename_i name
  split at h
  · cases h
  split at h
  · cases h
  rename_i symbol
  have fails (line : UInt32) (r : List Char) : readLexeme line c r = .error ⟨c, line⟩ := by
    unfold readLexeme
    rw [if_neg newline, if_neg quote, if_neg digit, if_neg name]
    split
    · cases symbol
    · rw [symbol]
  refine ⟨by cases h; rfl, ?_, ?_⟩
  · intro rest t trivia
    cases trivia with
    | blank isBlank => exact blank isBlank
    | comment => cases symbol
  · intro kind text l rest spells
    obtain ⟨d, r, chars, -, read⟩ := spells.readLexeme 0
    obtain ⟨rfl, -⟩ := List.cons.inj chars
    rw [fails] at read
    cases read

/-- The tokens of a partition are what the lexer makes of it. -/
theorem Partition.lexes {rest before cs : List Char} {ts : List Token}
    (h : Partition rest before cs ts) (start : dropBlanks rest = rest) :
    Lexes (1 + breaks before) (cs ++ rest) ts (1 + breaks (before ++ cs)) rest := by
  induction h with
  | @done before t trivia =>
    intro done
    rw [lexFrom_eq, trivia.dropBlanks start, lexFrom_eq _ _ rest, start, breaks_append,
      trivia.breaks_eq_zero]
    simp
  | @token before t lexeme more kind text ts trivia spells _ ih =>
    obtain ⟨c, r, chars, first, read⟩ := spells.readLexeme (1 + breaks (before ++ t))
    have drop : dropBlanks (t ++ (lexeme ++ more) ++ rest) = c :: r := by
      rw [List.append_assoc, List.append_assoc, trivia.dropBlanks, chars]
      rw [chars, first]
    have one := Lexes.of_readLexeme drop read
    have lines : 1 + breaks before = 1 + breaks (before ++ t) := by
      rw [breaks_append, trivia.breaks_eq_zero, UInt32.add_zero]
    have lines' : 1 + breaks (before ++ t) + breaks lexeme =
        1 + breaks (before ++ t ++ lexeme) := by
      rw [breaks_append (before ++ t), UInt32.add_assoc]
    rw [lines, ← List.append_assoc before, ← List.append_assoc (before ++ t)]
    dsimp only at one
    rw [lines'] at one
    exact one.trans ih

/-- Every text has a partition, or one up to a character that starts nothing. -/
theorem exists_partition (before cs : List Char) :
    (∃ ts, Partition [] before cs ts) ∨
      ∃ u c v ts, cs = u ++ c :: v ∧ Partition (c :: v) before u ts ∧ StartsNothing c := by
  obtain ⟨t, split, trivia⟩ := dropBlanks_trivia cs
  have start := dropBlanks_dropBlanks cs
  cases blanks : dropBlanks cs with
  | nil =>
    rw [blanks] at split trivia
    rw [List.append_nil] at split
    exact .inl ⟨[], split ▸ .done trivia⟩
  | cons c r =>
    rw [blanks] at split trivia start
    cases read : readLexeme 0 c r with
    | error e =>
      exact .inr ⟨t, c, r, [], split, .done trivia, (startsNothing_of_readLexeme start read).2⟩
    | ok x =>
      obtain ⟨lexeme, chars, spells⟩ := spells_of_readLexeme start read
      have shorter : x.rest.length < cs.length := by
        have le := readLexeme_length_le read
        rw [split]
        simp only [List.length_append, List.length_cons]
        omega
      rw [chars] at split trivia
      rcases exists_partition (before ++ t ++ lexeme) x.rest with
        ⟨ts, parts⟩ | ⟨u, d, v, ts, rest, parts, nothing⟩
      · rw [← List.append_nil x.rest] at trivia spells
        rw [split]
        exact .inl ⟨_, .token trivia spells parts⟩
      · rw [rest] at split trivia spells
        refine .inr ⟨t ++ (lexeme ++ u), d, v, _, ?_, .token trivia spells parts, nothing⟩
        rw [split]
        simp
termination_by cs.length

/-- A character that starts nothing is refused. -/
theorem StartsNothing.lexFrom {c : Char} (h : StartsNothing c) (done : Array Token) (line : UInt32)
    (cs : List Char) :
    dropBlanks (c :: cs) = c :: cs ∧ lexFrom done line (c :: cs) = .error ⟨c, line⟩ := by
  have start : dropBlanks (c :: cs) = c :: cs := dropBlanks_eq_self fun rest t _ => h.1 rest t
  refine ⟨start, ?_⟩
  rw [lexFrom_eq, start]
  dsimp only
  cases read : readLexeme line c cs with
  | error e => rw [(startsNothing_of_readLexeme start read).1]
  | ok x =>
    obtain ⟨lexeme, chars, spells⟩ := spells_of_readLexeme start read
    cases lexeme with
    | nil =>
      have shorter := readLexeme_length_le read
      have same : cs.length + 1 = x.rest.length := congrArg List.length chars
      omega
    | cons d l =>
      obtain ⟨rfl, -⟩ := List.cons.inj chars
      exact absurd spells (h.2 _ _ _ _)

theorem Spells.ne_eof {kind : Kind} {text : String} {lexeme rest : List Char}
    (h : Spells kind text lexeme rest) : kind ≠ .eof := by
  cases h <;> exact nofun

theorem Partition.ne_eof {rest before cs : List Char} {ts : List Token}
    (h : Partition rest before cs ts) : ∀ t ∈ ts, t.kind ≠ .eof := by
  induction h with
  | done => simp
  | token _ spells _ ih =>
    rintro t (_ | ⟨_, mem⟩)
    · exact spells.ne_eof
    · exact ih t mem

/-- A text is lexed exactly if it has a partition, and then into the tokens of the partition and an
end of file. Every other text has a partition up to a character that starts nothing, which is
reported with its line; no string is cut off in it. The line of what follows some characters is one
more than the line breaks among them, unless these are too many for 32 bits. -/
theorem lex_partition (source : String) :
    (∀ ts, lex source = .ok ts ↔ ∃ body, Partition [] [] source.toList body ∧
      (∀ t ∈ body, t.kind ≠ .eof) ∧
        ts = body ++ [⟨.eof, "", 1 + breaks source.toList⟩]) ∧
    (∀ e, lex source = .error e ↔ ∃ u v body, source.toList = u ++ e.char :: v ∧
      Partition (e.char :: v) [] u body ∧ StartsNothing e.char ∧ e.line = 1 + breaks u) ∧
    ∀ before after, source.toList = before ++ after → 1 + before.count '\n' < 2 ^ 32 →
      (1 + breaks before).toNat = 1 + before.count '\n' := by
  have accepted {body : List Token} (h : Partition [] [] source.toList body) :
      lex source = .ok (body ++ [⟨.eof, "", 1 + breaks source.toList⟩]) := by
    apply Lexes.lex
    simpa using h.lexes rfl
  have refused {u v : List Char} {c : Char} {body : List Token}
      (split : source.toList = u ++ c :: v) (h : Partition (c :: v) [] u body)
      (nothing : StartsNothing c) : lex source = .error ⟨c, 1 + breaks u⟩ := by
    obtain ⟨start, fails⟩ := nothing.lexFrom (#[] ++ body.toArray) (1 + breaks u) v
    have read := h.lexes start #[]
    rw [List.nil_append, breaks_nil, UInt32.add_zero, ← split, fails] at read
    unfold lex
    rw [read]
    rfl
  refine ⟨fun ts => ?_, fun e => ?_, fun before after _ few => ?_⟩
  · constructor
    · intro h
      rcases exists_partition [] source.toList with
        ⟨body, parts⟩ | ⟨u, c, v, body, split, parts, nothing⟩
      · rw [accepted parts] at h
        exact ⟨body, parts, parts.ne_eof, (Except.ok.inj h).symm⟩
      · rw [refused split parts nothing] at h
        cases h
    · rintro ⟨body, parts, -, rfl⟩
      exact accepted parts
  · constructor
    · intro h
      rcases exists_partition [] source.toList with
        ⟨body, parts⟩ | ⟨u, c, v, body, split, parts, nothing⟩
      · rw [accepted parts] at h
        cases h
      · rw [refused split parts nothing] at h
        cases h
        exact ⟨u, v, body, split, parts, nothing, rfl⟩
    · rintro ⟨u, v, body, split, parts, nothing, line⟩
      rw [refused split parts nothing, ← line]
  · rw [toNat_one_add_breaks, Nat.mod_eq_of_lt few]

/-- A line break inside a string and one after a comment are both counted. -/
theorem lex_partition_broken_text :
    let source := "a = 'b\nc' // d\n1"
    let before := "a = 'b\nc' // d\n".toList
    let body : List Token := [⟨.identifier, "a", 1⟩, ⟨.symbol .assign, "=", 1⟩,
      ⟨.string, "b\nc", 1⟩, ⟨.newline, "\n", 2⟩, ⟨.number, "1", 3⟩]
    lex source = .ok (body ++ [⟨.eof, "", 3⟩]) ∧
      (∃ body', Partition [] [] source.toList body' ∧ (∀ t ∈ body', t.kind ≠ .eof) ∧
        body ++ [⟨.eof, "", 3⟩] = body' ++ [⟨.eof, "", 1 + breaks source.toList⟩]) ∧
      1 + before.count '\n' < 2 ^ 32 ∧ (1 + breaks before).toNat = 3 := by
  intro source before body
  have lexed : lex source = .ok (body ++ [⟨.eof, "", 3⟩]) := by cbv
  have third : 1 + before.count '\n' = 3 := rfl
  have few : 1 + before.count '\n' < 2 ^ 32 := by omega
  have split : source.toList = before ++ ['1'] := by simp [source, before]
  obtain ⟨accepted, -, lines⟩ := lex_partition source
  exact ⟨lexed, (accepted _).1 lexed, few, (lines before ['1'] split few).trans third⟩

end CypherLang.Token
