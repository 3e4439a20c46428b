import Mathlib
import CypherLang.Syntax.Printer
import CypherLang.Token.Lexer

namespace CypherLang.Token

/-- Lexing `cs` from a line on gives the tokens `ts` and goes on with `cs'` on the line `line'`. -/
def Lexes (line : UInt32) (cs : List Char) (ts : List Token) (line' : UInt32)
    (cs' : List Char) : Prop :=
  ∀ done, lexFrom done line cs = lexFrom (done ++ ts.toArray) line' cs'

/-- One step of the lexer. -/
theorem lexFrom_eq (done : Array Token) (line : UInt32) (cs : List Char) :
    lexFrom done line cs =
      match dropBlanks cs with
      | [] => .ok (done.push ⟨.eof, "", line⟩)
      | c :: r =>
        match readLexeme line c r with
        | .error e => .error e
        | .ok x => lexFrom (done.push ⟨x.kind, x.text, line⟩) x.line x.rest := by
  rw [lexFrom]
  split <;> rename_i blanks <;> rw [blanks]
  dsimp only
  split <;> rename_i read <;> rw [read]

theorem lexFrom_nil (done : Array Token) (line : UInt32) :
    lexFrom done line [] = .ok (done.push ⟨.eof, "", line⟩) := by
  rw [lexFrom_eq]
  rfl

namespace Lexes

variable {line line' line'' : UInt32} {cs cs' cs'' : List Char} {ts ts' : List Token}

theorem refl : Lexes line cs [] line cs := by
  intro done
  simp

theorem trans (h : Lexes line cs ts line' cs') (h' : Lexes line' cs' ts' line'' cs'') :
    Lexes line cs (ts ++ ts') line'' cs'' := by
  intro done
  rw [h, h']
  simp

theorem blank (h : Lexes line cs ts line' cs') : Lexes line (' ' :: cs) ts line' cs' := by
  intro done
  rw [← h, lexFrom_eq, lexFrom_eq done line cs]
  rfl

theorem of_readLexeme {c : Char} {r : List Char} {x : Lexeme} (start : dropBlanks cs = c :: r)
    (read : readLexeme line c r = .ok x) :
    Lexes line cs [⟨x.kind, x.text, line⟩] x.line x.rest := by
  intro done
  rw [lexFrom_eq, start]
  dsimp only
  rw [read]
  simp

theorem newline : Lexes line ('\n' :: cs) [⟨.newline, "\n", line⟩] (line + 1) cs :=
  of_readLexeme (c := '\n') (x := ⟨.newline, "\n", cs, line + 1⟩) rfl rfl

/-- Before a blank no symbol can be continued. -/
theorem symbol_blank (s : Symbol) :
    Lexes line (s.text.toList ++ ' ' :: cs) [⟨.symbol s, s.text, line⟩] line (' ' :: cs) := by
  have read : ∃ c r, dropBlanks (s.text.toList ++ ' ' :: cs) = c :: r ∧
      readLexeme line c r = .ok ⟨.symbol s, s.text, ' ' :: cs, line⟩ := by
    cases s <;> exact ⟨_, _, rfl, rfl⟩
  obtain ⟨c, r, start, read⟩ := read
  exact of_readLexeme start read

/-- A symbol that is not the start of another one or of a comment. -/
theorem symbol (s : Symbol) (assign : s ≠ .assign := by decide) (slash : s ≠ .slash := by decide) :
    Lexes line (s.text.toList ++ cs) [⟨.symbol s, s.text, line⟩] line cs := by
  have read : ∃ c r, dropBlanks (s.text.toList ++ cs) = c :: r ∧
      readLexeme line c r = .ok ⟨.symbol s, s.text, cs, line⟩ := by
    cases s <;> first | exact ⟨_, _, rfl, rfl⟩ | contradiction
  obtain ⟨c, r, start, read⟩ := read
  exact of_readLexeme start read

end Lexes

/-- A word: a reserved one or a name. -/
def IsWord (text : String) : Prop :=
  ∃ c cs, text.toList = c :: cs ∧ startsName c ∧ ∀ d ∈ cs, continuesName d

/-- Digits and points, a digit first. -/
def IsNumber (text : String) : Prop :=
  ∃ c cs, text.toList = c :: cs ∧ c.isDigit ∧ ∀ d ∈ cs, continuesNumber d

/-- What follows continues neither a word nor a number. -/
def Stops (cs : List Char) : Prop :=
  ∀ c ∈ cs.head?, continuesName c = false ∧ continuesNumber c = false

namespace Stops

variable {cs : List Char}

theorem cons {c : Char} (name : continuesName c = false) (number : continuesNumber c = false) :
    Stops (c :: cs) := by
  intro d hd
  cases hd
  exact ⟨name, number⟩

theorem blank : Stops (' ' :: cs) := cons (by decide) (by decide)

theorem symbol {s : Symbol} : Stops (s.text.toList ++ cs) := by
  intro c hc
  cases s <;> simp [Symbol.text] at hc <;> subst hc <;> decide

theorem newline : Stops ('\n' :: cs) := cons (by decide) (by decide)

end Stops

theorem not_startsName_of_isDigit {c : Char} (h : c.isDigit) : startsName c = false := by
  have range : 48 ≤ c.toNat ∧ c.toNat ≤ 57 := by
    simpa [Char.isDigit, UInt32.le_iff_toNat_le] using h
  have alpha : c.isAlpha = false := by
    simp only [Char.isAlpha, Char.isUpper, Char.isLower, ge_iff_le, UInt32.le_iff_toNat_le]
    have value : c.val.toNat = c.toNat := rfl
    simp [value]
    omega
  have underscore : c ≠ '_' := by
    rintro rfl
    exact absurd h (by decide)
  simp [startsName, Text.isLetter, show c.toNat < 128 by omega, alpha, underscore]

/-- A name starts with no character that starts another kind of token or is dropped. -/
theorem startsName_cases {c : Char} (h : startsName c) :
    c.isDigit = false ∧ c ≠ '\n' ∧ c ≠ '"' ∧ c ≠ '\'' ∧
      c ≠ ' ' ∧ c ≠ '\t' ∧ c ≠ '\r' ∧ c ≠ '/' := by
  refine ⟨?_, ?_, ?_, ?_, ?_, ?_, ?_, ?_⟩
  · cases digit : c.isDigit with
    | false => rfl
    | true => exact absurd h (by simp [not_startsName_of_isDigit digit])
  all_goals
    rintro rfl
    revert h
    decide

theorem dropBlanks_of_ne {c : Char} {cs : List Char} (h : c ≠ ' ' ∧ c ≠ '\t' ∧ c ≠ '\r' ∧ c ≠ '/') :
    dropBlanks (c :: cs) = c :: cs := by
  unfold dropBlanks
  split
  · cases ‹c :: cs = _›
  · cases ‹c :: cs = _›
    simp at h
  · cases ‹c :: cs = _›
    rw [if_neg (by simp [h])]

theorem takeWhile_append_stop {p : Char → Bool} {w cs : List Char} (inside : ∀ d ∈ w, p d)
    (stop : ∀ c ∈ cs.head?, p c = false) :
    (w ++ cs).takeWhile p = w ∧ (w ++ cs).dropWhile p = cs := by
  rw [List.takeWhile_append_of_pos inside, List.dropWhile_append_of_pos inside]
  cases cs with
  | nil => simp
  | cons c cs => simp [stop c rfl]

section Texts

variable {line : UInt32} {text : String} {rest : List Char}

/-- A word is read as far as it goes. -/
theorem IsWord.readLexeme (h : IsWord text) (line : UInt32)
    (stop : ∀ c ∈ rest.head?, continuesName c = false) :
    ∃ c r, text.toList ++ rest = c :: r ∧ dropBlanks (c :: r) = c :: r ∧
      readLexeme line c r = .ok ⟨wordKind text, text, rest, line⟩ := by
  obtain ⟨c, cs, chars, starts, inside⟩ := h
  obtain ⟨digit, newline, double, single, blanks⟩ := startsName_cases starts
  obtain ⟨taken, dropped⟩ := takeWhile_append_stop inside stop
  have word : String.ofList (c :: cs) = text := by rw [← chars, String.ofList_toList]
  refine ⟨c, cs ++ rest, by rw [chars, List.cons_append], dropBlanks_of_ne blanks, ?_⟩
  unfold Token.readLexeme
  rw [if_neg newline, if_neg (by simp [double, single]), if_neg (by simp [digit]), if_pos starts,
    taken, dropped, word]

/-- A number is read as far as it goes. -/
theorem IsNumber.readLexeme (h : IsNumber text) (line : UInt32)
    (stop : ∀ c ∈ rest.head?, continuesNumber c = false) :
    ∃ c r, text.toList ++ rest = c :: r ∧ dropBlanks (c :: r) = c :: r ∧
      readLexeme line c r = .ok ⟨.number, text, rest, line⟩ := by
  obtain ⟨c, cs, chars, digit, inside⟩ := h
  obtain ⟨taken, dropped⟩ := takeWhile_append_stop inside stop
  have number : String.ofList (c :: cs) = text := by rw [← chars, String.ofList_toList]
  have ne (d : Char) (hd : d.isDigit = false) : c ≠ d := by
    rintro rfl
    rw [digit] at hd
    cases hd
  refine ⟨c, cs ++ rest, by rw [chars, List.cons_append],
    dropBlanks_of_ne ⟨ne _ (by decide), ne _ (by decide), ne _ (by decide), ne _ (by decide)⟩, ?_⟩
  unfold Token.readLexeme
  rw [if_neg (ne _ (by decide)), if_neg (by simp [ne '"' (by decide), ne '\'' (by decide)]),
    if_pos digit, taken, dropped, number]

theorem IsWord.lexes (h : IsWord text) (stop : Stops rest) :
    Lexes line (text.toList ++ rest) [⟨wordKind text, text, line⟩] line rest := by
  obtain ⟨c, r, chars, start, read⟩ := h.readLexeme line fun c hc => (stop c hc).1
  rw [chars]
  exact Lexes.of_readLexeme start read

theorem IsNumber.lexes (h : IsNumber text) (stop : Stops rest) :
    Lexes line (text.toList ++ rest) [⟨.number, text, line⟩] line rest := by
  obtain ⟨c, r, chars, start, read⟩ := h.readLexeme line fun c hc => (stop c hc).2
  rw [chars]
  exact Lexes.of_readLexeme start read

/-- Between quotes each character is read from its escape. -/
theorem readString_escape (c : Char) (read more : List Char) :
    readString '"' read line (escape c ++ more) = readString '"' (c :: read) line more := by
  unfold escape
  split
  case h_5 double backslash newline _ =>
    rw [List.singleton_append, readString.eq_def]
    dsimp only
    rw [if_neg double, if_neg backslash, nextLine, if_neg newline]
  all_goals
    rw [List.cons_append, List.cons_append, List.nil_append, readString.eq_def]
    rfl

theorem readString_escapes (read cs : List Char) :
    readString '"' read line (cs.flatMap escape ++ '"' :: rest) =
      ⟨.string, .ofList (read.reverse ++ cs), rest, line⟩ := by
  induction cs generalizing read with
  | nil =>
    rw [readString.eq_def]
    simp
  | cons c cs ih =>
    rw [List.flatMap_cons, List.append_assoc, readString_escape, ih]
    simp

theorem toList_quote_append (text : String) :
    (quote text).toList ++ rest = '"' :: (text.toList.flatMap escape ++ '"' :: rest) := by
  simp [quote]

/-- A text between quotes is read up to the closing one, whatever follows. -/
theorem readLexeme_escapes (line : UInt32) (text : String) :
    readLexeme line '"' (text.toList.flatMap escape ++ '"' :: rest) =
      .ok ⟨.string, text, rest, line⟩ := by
  have read : readString '"' [] line (text.toList.flatMap escape ++ '"' :: rest) = _ :=
    readString_escapes [] text.toList
  rw [List.reverse_nil, List.nil_append, String.ofList_toList] at read
  rw [← read]
  rfl

theorem lexes_quote (text : String) :
    Lexes line ((quote text).toList ++ rest) [⟨.string, text, line⟩] line rest := by
  rw [toList_quote_append]
  exact Lexes.of_readLexeme rfl (readLexeme_escapes line text)

end Texts

/-- A name, as opposed to a reserved word. -/
def IsName (text : String) : Prop := IsWord text ∧ Keyword.ofText? text = none

theorem IsName.wordKind {text : String} (h : IsName text) : wordKind text = .identifier := by
  rw [Token.wordKind, h.2]

theorem wordKind_text (k : Keyword) : Token.wordKind k.text = .keyword k := by
  rw [Token.wordKind, Keyword.ofText?_text]

/-- The text is one that the kind of token stands for, and the token is no end of file. -/
def Spelled (t : Token) : Prop :=
  match t.kind with
  | .identifier => IsName t.text
  | .keyword k => t.text = k.text
  | .number => IsNumber t.text
  | .eof => False
  | _ => True

theorem Spelled.ne_eof {t : Token} (h : t.Spelled) : t.kind ≠ .eof := by
  intro kind
  simp [Spelled, kind] at h

theorem spelled_wordKind {word : String} (h : IsWord word) (line : UInt32) :
    Spelled ⟨wordKind word, word, line⟩ := by
  unfold wordKind
  split
  · have found := List.find?_some ‹Keyword.ofText? word = _›
    exact (by simpa using found : _ = word).symm
  · exact ⟨h, ‹_›⟩

theorem readString_kind (quote : Char) (read : List Char) (line : UInt32) (cs : List Char) :
    (readString quote read line cs).kind = .string := by
  fun_induction readString quote read line cs <;> first | rfl | assumption

theorem spelled_of_readLexeme {line : UInt32} {c : Char} {cs : List Char} {x : Lexeme}
    (h : readLexeme line c cs = .ok x) : Spelled ⟨x.kind, x.text, line⟩ := by
  have run (p : Char → Bool) : ∀ d ∈ cs.takeWhile p, p d :=
    List.all_eq_true.1 List.all_takeWhile
  unfold readLexeme at h
  split at h
  · cases h
    trivial
  split at h
  · cases h
    simp [Spelled, readString_kind]
  split at h
  · cases h
    exact ⟨c, _, String.toList_ofList, ‹_›, run _⟩
  split at h
  · cases h
    exact spelled_wordKind ⟨c, _, String.toList_ofList, ‹_›, run _⟩ line
  split at h
  · cases h
    trivial
  split at h
  · cases h
    trivial
  · cases h

theorem lexFrom_spelled {done ts : Array Token} {line : UInt32} {cs : List Char}
    (h : lexFrom done line cs = .ok ts) (spelled : ∀ t ∈ done, Spelled t) :
    ∃ body last, ts.toList = body ++ [last] ∧ last.kind = .eof ∧ ∀ t ∈ body, Spelled t := by
  fun_induction lexFrom done line cs with
  | case1 done line cs =>
    cases h
    exact ⟨done.toList, ⟨.eof, "", line⟩, by simp, rfl, by simpa using spelled⟩
  | case2 => cases h
  | case3 done line cs c r _ x read ih =>
    refine ih h fun t ht => ?_
    obtain ht | rfl := Array.mem_push.1 ht
    · exact spelled t ht
    · exact spelled_of_readLexeme read

/-- The tokens of a text: spelled ones and then an end of file. -/
theorem lex_spelled {source : String} {ts : List Token} (h : lex source = .ok ts) :
    ∃ body last, ts = body ++ [last] ∧ last.kind = .eof ∧ ∀ t ∈ body, Spelled t := by
  unfold lex at h
  cases run : lexFrom #[] 1 source.toList with
  | error e =>
    rw [run] at h
    cases h
  | ok tokens =>
    rw [run] at h
    cases h
    exact lexFrom_spelled run (by simp)

/-- A text that is lexed to its end. -/
theorem Lexes.lex {source : String} {ts : List Token} {line : UInt32}
    (h : Lexes 1 source.toList ts line []) : lex source = .ok (ts ++ [⟨.eof, "", line⟩]) := by
  unfold Token.lex
  rw [h, lexFrom_nil]
  simp [Except.map]

end CypherLang.Token
