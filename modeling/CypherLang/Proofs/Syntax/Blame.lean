import CypherLang.Proofs.Syntax.Laws

namespace CypherLang

/-- The error tells the line of the token, and its kind or its text where it tells one. -/
def SyntaxError.Concerns : SyntaxError → Token → Prop
  | unexpectedToken _ found line, t => t.kind = found ∧ t.line = line
  | invalidNumber text line, t => t.text = text ∧ t.line = line
  | nestingTooDeep line, t => t.line = line

theorem SyntaxError.Concerns.line_eq {e : SyntaxError} {t : Token} (h : e.Concerns t) :
    t.line = e.line := by
  cases e with
  | unexpectedToken expected found line => exact h.2
  | invalidNumber text line => exact h.2
  | nestingTooDeep line => exact h

namespace Cursor

/-- The tokens that are left, and the end of the file. -/
def ahead (c : Cursor) : List Token := c.rest ++ [⟨.eof, "", c.endLine⟩]

theorem token_mem_ahead (c : Cursor) : c.token ∈ c.ahead := by
  unfold token ahead
  cases c.rest with
  | nil => simp
  | cons t r => simp

/-- A later place in the same tokens, within the limit on levels if the first place was. -/
structure Within (c' c : Cursor) : Prop where
  rest : c'.rest <:+ c.rest
  endLine : c'.endLine = c.endLine
  size : c'.size = c.size
  depth : c.depth ≤ maxNesting → c'.depth ≤ maxNesting

namespace Within

variable {c c' c'' : Cursor}

theorem refl (c : Cursor) : c.Within c := ⟨List.suffix_refl _, rfl, rfl, id⟩

theorem trans (h : c''.Within c') (h' : c'.Within c) : c''.Within c :=
  ⟨h.rest.trans h'.rest, h.endLine.trans h'.endLine, h.size.trans h'.size,
    fun within => h.depth (h'.depth within)⟩

theorem of_rest {r : List Token} (h : r <:+ c.rest) : Within { c with rest := r } c :=
  ⟨h, rfl, rfl, id⟩

theorem proper (h : c'.Within c) (start : c.Proper) : c'.Proper := by
  refine ⟨?_, h.depth start.2⟩
  rw [h.size]
  exact h.rest.length_le.trans start.1

theorem ahead (h : c'.Within c) : c'.ahead <:+ c.ahead := by
  obtain ⟨before, split⟩ := h.rest
  exact ⟨before, by rw [Cursor.ahead, Cursor.ahead, h.endLine, ← split, List.append_assoc]⟩

end Within

end Cursor

namespace Parser

variable {α : Type}

/-- An outcome at a cursor: the parser has moved on, and an error concerns a token that was ahead,
namely the next one if it was not expected. -/
def Forward (c : Cursor) : EStateM.Result SyntaxError Cursor α → Prop
  | .ok _ c' => c'.Within c
  | .error e c' => c'.Within c ∧ ∃ t ∈ c.ahead, e.Concerns t ∧
      ∀ expected found line, e = .unexpectedToken expected found line → t = c'.token

theorem Forward.mono {c d : Cursor} {r : EStateM.Result SyntaxError Cursor α} (h : Forward d r)
    (later : d.Within c) : Forward c r := by
  cases r with
  | ok a c' => exact Cursor.Within.trans h later
  | error e c' =>
    obtain ⟨within, t, mem, concerns⟩ := h
    exact ⟨within.trans later, t, later.ahead.subset mem, concerns⟩

theorem forward_pure (a : α) (c : Cursor) : Forward c ((pure a : Parser α) c) :=
  Cursor.Within.refl c

theorem forward_bind {β : Type} {p : Parser α} {f : α → Parser β} (first : ∀ c, Forward c (p c))
    (second : ∀ a c, Forward c (f a c)) (c : Cursor) : Forward c ((p >>= f) c) := by
  have start := first c
  cases run : p c with
  | ok a c' =>
    rw [run] at start
    rw [bind_apply_of_ok run]
    exact (second a c').mono start
  | error e c' =>
    rw [run] at start
    rw [bind_apply_of_error run]
    exact start

/-- The level that a parser leaves behind is within the limit if the parser's own is. -/
theorem forward_leaving {p : Parser α} {depth : Cursor → Nat} {c : Cursor}
    (h : Forward c (p c)) (low : ∀ c', c.depth ≤ maxNesting → c'.depth ≤ maxNesting →
      depth c' ≤ maxNesting) : Forward c (leaving depth p c) := by
  have left {c' : Cursor} (within : c'.Within c) :
      Cursor.Within { c' with depth := depth c' } c :=
    ⟨within.rest, within.endLine, within.size, fun start => low c' start (within.depth start)⟩
  unfold leaving
  cases run : p c with
  | ok a c' =>
    rw [run] at h
    exact left h
  | error e c' =>
    rw [run] at h
    exact ⟨left h.1, h.2⟩

theorem forward_enter (c : Cursor) : Forward c (enter c) := by
  rw [enter_apply]
  by_cases room : c.depth < maxNesting
  · rw [if_pos room]
    exact ⟨List.suffix_refl c.rest, rfl, rfl, fun _ => room⟩
  · rw [if_neg room]
    exact ⟨.refl c, c.token, c.token_mem_ahead, rfl, fun _ _ _ _ => rfl⟩

theorem Counter.exact_down_le {n limit : Nat} (h : n ≤ limit) : Counter.exact.down n ≤ limit :=
  (Nat.sub_le n 1).trans h

theorem forward_deeper {p : Parser α} (h : ∀ c, Forward c (p c)) (c : Cursor) :
    Forward c (deeper p c) :=
  forward_bind forward_enter (fun _ c => forward_leaving (h c) fun _ _ =>
    Counter.exact_down_le) c

theorem forward_restoringDepth {p : Parser α} (h : ∀ c, Forward c (p c)) (c : Cursor) :
    Forward c (restoringDepth p c) :=
  forward_leaving (h c) fun _ start _ => start

theorem forward_peek (c : Cursor) : Forward c (peek c) := Cursor.Within.refl c

theorem forward_next (c : Cursor) : Forward c (next c) :=
  Cursor.Within.of_rest (List.tail_suffix c.rest)

theorem forward_refuse (expected : Wanted) (c : Cursor) :
    Forward c ((refuse expected : Parser α) c) :=
  ⟨.refl c, c.token, c.token_mem_ahead, ⟨rfl, rfl⟩, fun _ _ _ _ => rfl⟩

theorem forward_before (kind : Token.Kind) {p : Parser α} (h : ∀ c, Forward c (p c))
    (c : Cursor) : Forward c (before kind p c) := by
  rw [before_apply]
  split
  · exact h c
  · exact forward_refuse _ c

theorem forward_number (c : Cursor) : Forward c (number c) := by
  have taken (f : Token → Parser Expr) :
      (next >>= f) c = f c.token { c with rest := c.rest.tail } := rfl
  have later : Cursor.Within { c with rest := c.rest.tail } c := .of_rest (List.tail_suffix c.rest)
  unfold number
  rw [taken]
  cases Literal.ofNumber? c.token.text with
  | some l => exact later
  | none =>
    refine ⟨later, c.token, c.token_mem_ahead, ⟨rfl, rfl⟩, ?_⟩
    intro expected found line other
    cases other

theorem forward_acceptAfterBreaks (kind : Token.Kind) (c : Cursor) :
    Forward c (acceptAfterBreaks kind c) := by
  have dropped := List.dropWhile_suffix (·.kind == .newline) (l := c.rest)
  rw [acceptAfterBreaks_apply]
  split
  · exact Cursor.Within.of_rest ((List.tail_suffix _).trans dropped)
  · exact Cursor.Within.refl c

theorem forward_repeatUpTo {step : α → Parser (Option α)} (h : ∀ a c, Forward c (step a c))
    (n : Nat) : ∀ (a : α) (c : Cursor), Forward c (repeatUpTo step n a c) := by
  induction n with
  | zero => exact forward_pure
  | succ n ih =>
    intro a
    refine forward_bind (h a) fun next => ?_
    cases next with
    | some b => exact ih b
    | none => exact forward_pure a

theorem forward_statementStep (closing : Token.Kind → Bool) {statement : Parser Stmt}
    (h : ∀ c, Forward c (statement c)) (done : List Stmt) :
    ∀ c, Forward c (statementStep closing statement done c) := by
  refine forward_bind (fun c => Cursor.Within.of_rest (List.dropWhile_suffix _)) fun _ => ?_
  refine forward_bind forward_peek fun kind => ?_
  cases closing kind with
  | true => exact forward_pure none
  | false => exact forward_bind h fun s => forward_pure _

/-- Every expression moves the parser forward, and its errors concern what is ahead. -/
theorem forward_law : Law fun p => ∀ c, Forward c (p c) where
  forward {α p a c c'} h run := by
    have moved := h c
    rw [run] at moved
    exact moved.rest
  pure := forward_pure
  bind := forward_bind
  peek := forward_peek
  nextText _ := forward_before _ (forward_bind forward_next fun t => forward_pure t.text)
  number := forward_before _ forward_number
  refuse := forward_refuse
  tooDeep c := ⟨.refl c, c.token, c.token_mem_ahead, rfl, fun _ _ _ _ => rfl⟩
  enter := forward_enter
  deeper := forward_deeper
  restoringDepth := forward_restoringDepth
  iterate a h _ c := forward_repeatUpTo h c.size a c

theorem forward_assignOrExpr (c : Cursor) : Forward c (assignOrExpr c) := by
  change Forward c ((if c.secondKind = .symbol .assign then _ else _ : Parser Stmt) c)
  split
  · exact forward_law.assignment c
  · exact forward_bind forward_law.expression (fun e => forward_pure _) c

/-- So do statements and programs. -/
theorem forward_programLaw : ProgramLaw (fun p => ∀ c, Forward c (p c))
    (fun p => ∀ c, Forward c (p c)) where
  toLaw := forward_law
  assignOrExpr := forward_before _ forward_assignOrExpr
  weaken := id
  bindWeak := forward_bind
  defeat a h := by
    refine forward_bind (forward_acceptAfterBreaks _) fun found => ?_
    cases found with
    | true => exact h
    | false => exact forward_pure a
  statements {_ closing} _ _ h := by
    refine forward_bind (fun c => ?_) fun done => forward_pure _
    exact forward_repeatUpTo (forward_statementStep closing h) c.size [] c

end Parser

/-- A list of tokens with one end of file, its last, is refused because of one of them. -/
theorem Program.exists_concerned {body : List Token} {line : UInt32} {e : SyntaxError}
    (inner : ∀ t ∈ body, t.kind ≠ .eof)
    (h : Program.ofTokens (body ++ [⟨.eof, "", line⟩]) = .error e) :
    ∃ t ∈ body ++ [⟨.eof, "", line⟩], e.Concerns t := by
  have ends : (Cursor.ofTokens (body ++ [⟨.eof, "", line⟩])).ahead =
      body ++ [⟨.eof, "", line⟩] := by
    have none : body.find? (·.kind == .eof) = none := by simpa using inner
    rw [Cursor.ahead, Yield.rest_ofTokens rfl inner, Cursor.ofTokens, List.find?_append, none]
    rfl
  have forward := Parser.forward_programLaw.program (.ofTokens (body ++ [⟨.eof, "", line⟩]))
  unfold Program.ofTokens at h
  cases run : Parser.program (.ofTokens (body ++ [⟨.eof, "", line⟩])) with
  | ok p c =>
    rw [run] at h
    cases h
  | error e' c =>
    rw [run] at h forward
    cases h
    obtain ⟨-, t, mem, concerns, -⟩ := forward
    rw [← ends]
    exact ⟨t, mem, concerns⟩

end CypherLang
