import CypherLang.Proofs.Syntax.Written

namespace CypherLang

open Token (Lexes Stops IsName)

def Symbol.token (line : UInt32) (s : Symbol) : Token := ⟨.symbol s, s.text, line⟩

def Keyword.token (line : UInt32) (k : Keyword) : Token := ⟨.keyword k, k.text, line⟩

def nameToken (line : UInt32) (name : String) : Token := ⟨.identifier, name, line⟩

theorem Symbol.kind_token (line : UInt32) (s : Symbol) : (s.token line).kind = .symbol s := rfl

theorem Keyword.kind_token (line : UInt32) (k : Keyword) : (k.token line).kind = .keyword k := rfl

theorem kind_nameToken (line : UInt32) (name : String) : (nameToken line name).kind = .identifier :=
  rfl

def Literal.token (line : UInt32) : Literal → Token
  | .text s => ⟨.string, s, line⟩
  | .bool true => Keyword.trueWord.token line
  | .bool false => Keyword.falseWord.token line
  | .null => Keyword.nullWord.token line
  | l => ⟨.number, l.print, line⟩

mutual

/-- The tokens of a printed expression, all on one line. -/
def Expr.tokens (line : UInt32) : Expr → List Token
  | .literal l => [l.token line]
  | .identifier name => [nameToken line name]
  | .binary l op r =>
    Symbol.lparen.token line ::
      (l.tokens line ++ op.sign.token line :: (r.tokens line ++ [Symbol.rparen.token line]))
  | .neg e => Symbol.minus.token line :: e.tokens line
  | .call callee [] =>
    [nameToken line callee, Symbol.lparen.token line, Symbol.rparen.token line]
  | .call callee (e :: es) =>
    nameToken line callee :: Symbol.lparen.token line ::
      (e.tokens line ++ (Expr.moreTokens line es ++ [Symbol.rparen.token line]))

/-- The tokens of further members of a list, each after a comma. -/
def Expr.moreTokens (line : UInt32) : List Expr → List Token
  | [] => []
  | e :: es => Symbol.comma.token line :: (e.tokens line ++ Expr.moreTokens line es)

end

/-- The tokens of an expression printed as a statement. -/
def Expr.statementTokens (line : UInt32) : Expr → List Token
  | .call callee args =>
    if callee = outputName then
      match args with
      | [] => [Keyword.flow.token line]
      | e :: es => Keyword.flow.token line :: (e.tokens line ++ Expr.moreTokens line es)
    else (Expr.call callee args).tokens line
  | e => e.tokens line

/-- The tokens of names with commas between them. -/
def namesTokens (line : UInt32) : List String → List Token
  | [] => []
  | [name] => [nameToken line name]
  | name :: names => nameToken line name :: Symbol.comma.token line :: namesTokens line names

mutual

/-- How many line breaks stand inside a printed statement. -/
def Stmt.breaks : Stmt → UInt32
  | .verse _ _ body => Stmt.allBreaks body + 1
  | .battle _ thenBranch none => Stmt.allBreaks thenBranch + 1
  | .battle _ thenBranch (some elseBranch) =>
    Stmt.allBreaks thenBranch + 1 + (Stmt.allBreaks elseBranch + 1)
  | _ => 0

/-- How many line breaks stand in and after printed statements. -/
def Stmt.allBreaks : List Stmt → UInt32
  | [] => 0
  | s :: ss => s.breaks + 1 + Stmt.allBreaks ss

end

def newlineToken (line : UInt32) : Token := ⟨.newline, "\n", line⟩

/-- The tokens of a block around those of its `breaks` lines. -/
def blockTokens (line breaks : UInt32) (body : List Token) : List Token :=
  Symbol.lbrace.token line :: newlineToken line ::
    (body ++ [Symbol.rbrace.token (line + 1 + breaks)])

mutual

/-- The tokens of a printed statement without the line break after it. -/
def Stmt.tokens (line : UInt32) : Stmt → List Token
  | .spit name value =>
    Keyword.spit.token line :: nameToken line name :: Symbol.assign.token line :: value.tokens line
  | .verse name params body =>
    (if isCypherBlock name params then [Keyword.cypher.token line]
      else Keyword.verse.token line :: nameToken line name :: Symbol.lparen.token line ::
        (namesTokens line params ++ [Symbol.rparen.token line])) ++
      blockTokens line (Stmt.allBreaks body) (Stmt.allTokens (line + 1) body)
  | .assign name value => nameToken line name :: Symbol.assign.token line :: value.tokens line
  | .battle condition thenBranch none =>
    Keyword.battle.token line :: Symbol.lparen.token line ::
      (condition.tokens line ++ Symbol.rparen.token line ::
        blockTokens line (Stmt.allBreaks thenBranch) (Stmt.allTokens (line + 1) thenBranch))
  | .battle condition thenBranch (some elseBranch) =>
    let middle := line + 1 + Stmt.allBreaks thenBranch
    Keyword.battle.token line :: Symbol.lparen.token line ::
      (condition.tokens line ++ Symbol.rparen.token line ::
        (blockTokens line (Stmt.allBreaks thenBranch) (Stmt.allTokens (line + 1) thenBranch) ++
          Keyword.defeat.token middle ::
            blockTokens middle (Stmt.allBreaks elseBranch)
              (Stmt.allTokens (middle + 1) elseBranch)))
  | .ret none => [Keyword.ret.token line]
  | .ret (some value) => Keyword.ret.token line :: value.tokens line
  | .expr e => e.statementTokens line

/-- The tokens of printed statements, each with the line break after it. -/
def Stmt.allTokens (line : UInt32) : List Stmt → List Token
  | [] => []
  | s :: ss =>
    s.tokens line ++ newlineToken (line + s.breaks) ::
      Stmt.allTokens (line + s.breaks + 1) ss

end

variable {line : UInt32} {rest : List Char}

theorem Keyword.lexes (k : Keyword) (stop : Stops rest) :
    Lexes line (k.text.toList ++ rest) [k.token line] line rest := by
  have word : Token.IsWord k.text := by
    cases k <;> exact ⟨_, _, rfl, by decide, List.all_eq_true.1 (by decide)⟩
  have h : Lexes line _ [⟨Token.wordKind k.text, k.text, line⟩] line rest := word.lexes stop
  rwa [Token.wordKind_text] at h

theorem lexes_name {name : String} (h : IsName name) (stop : Stops rest) :
    Lexes line (name.toList ++ rest) [nameToken line name] line rest := by
  have read : Lexes line _ [⟨Token.wordKind name, name, line⟩] line rest := h.1.lexes stop
  rwa [h.wordKind] at read

theorem Literal.lexes {l : Literal} (h : l.Written) (stop : Stops rest) :
    Lexes line (l.print.toList ++ rest) [l.token line] line rest := by
  cases l with
  | int n => exact (print_int h).1.lexes stop
  | float x =>
    obtain ⟨m, rfl, finite⟩ := h
    exact (print_float finite).1.lexes stop
  | text s => exact Token.lexes_quote s
  | bool b =>
    cases b with
    | false => exact Keyword.falseWord.lexes stop
    | true => exact Keyword.trueWord.lexes stop
  | null => exact Keyword.nullWord.lexes stop

theorem Expr.printList_append (text more : String) (es : List Expr) :
    Expr.printList (text ++ more) es = text ++ Expr.printList more es := by
  induction es generalizing more with
  | nil => rfl
  | cons e es ih =>
    rw [Expr.printList, String.append_assoc, String.append_assoc, ih, Expr.printList,
      String.append_assoc]

theorem Expr.printList_eq (text : String) (es : List Expr) :
    Expr.printList text es = text ++ Expr.printList "" es := by
  rw [← Expr.printList_append, String.append_empty]

theorem BinOp.text_sign (op : BinOp) : op.sign.text = op.symbol := by
  cases op <;> rfl

/-- A printed list of further members is empty or starts with a comma. -/
theorem stops_printList (es : List Expr) (stop : Stops rest) :
    Stops ((Expr.printList "" es).toList ++ rest) := by
  cases es with
  | nil => exact stop
  | cons e es =>
    rw [Expr.printList, Expr.printList_eq]
    simp only [String.empty_append, String.toList_append, List.append_assoc]
    exact .cons (by decide) (by decide)

mutual

theorem Expr.lexes {line : UInt32} : (e : Expr) → e.Written → ∀ {rest}, Stops rest →
    Lexes line (e.print.toList ++ rest) (e.tokens line) line rest
  | .literal l, written, rest, stop => Literal.lexes written stop
  | .identifier name, written, rest, stop => lexes_name written stop
  | .binary l op r, written, rest, stop => by
    have chars : (Expr.binary l op r).print.toList ++ rest =
        Symbol.lparen.text.toList ++ (l.print.toList ++ ' ' :: (op.sign.text.toList ++
          ' ' :: (r.print.toList ++ (Symbol.rparen.text.toList ++ rest)))) := by
      rw [BinOp.text_sign]
      simp [Expr.print, Symbol.text]
    rw [chars]
    exact (Lexes.symbol .lparen).trans ((l.lexes written.1 .blank).trans
      ((Lexes.symbol_blank op.sign).blank.trans
        ((r.lexes written.2 .symbol).blank.trans (Lexes.symbol .rparen))))
  | .neg e, written, rest, stop => by
    have chars : (Expr.neg e).print.toList ++ rest =
        Symbol.minus.text.toList ++ (e.print.toList ++ rest) := by
      simp [Expr.print, Symbol.text]
    rw [chars]
    exact (Lexes.symbol .minus).trans (e.lexes written stop)
  | .call callee [], written, rest, stop => by
    have chars : (Expr.call callee []).print.toList ++ rest = callee.toList ++
        (Symbol.lparen.text.toList ++ (Symbol.rparen.text.toList ++ rest)) := by
      simp [Expr.print, Symbol.text]
    rw [chars]
    exact (lexes_name written.1 .symbol).trans ((Lexes.symbol .lparen).trans (Lexes.symbol .rparen))
  | .call callee (e :: es), written, rest, stop => by
    have chars : (Expr.call callee (e :: es)).print.toList ++ rest = callee.toList ++
        (Symbol.lparen.text.toList ++ (e.print.toList ++ ((Expr.printList "" es).toList ++
          (Symbol.rparen.text.toList ++ rest)))) := by
      rw [Expr.print, Expr.printList_eq]
      simp [Symbol.text]
    rw [chars]
    exact (lexes_name written.1 .symbol).trans ((Lexes.symbol .lparen).trans
      ((e.lexes written.2.1 (stops_printList es .symbol)).trans
        ((Expr.lexesMore es written.2.2 .symbol).trans (Lexes.symbol .rparen))))

theorem Expr.lexesMore {line : UInt32} : (es : List Expr) → Expr.AllWritten es →
    ∀ {rest}, Stops rest → Lexes line ((Expr.printList "" es).toList ++ rest)
      (Expr.moreTokens line es) line rest
  | [], written, rest, stop => Lexes.refl
  | e :: es, written, rest, stop => by
    have chars : (Expr.printList "" (e :: es)).toList ++ rest = Symbol.comma.text.toList ++
        ' ' :: (e.print.toList ++ ((Expr.printList "" es).toList ++ rest)) := by
      rw [Expr.printList, Expr.printList_eq]
      simp [Symbol.text]
    rw [chars]
    exact (Lexes.symbol .comma).trans ((e.lexes written.1 (stops_printList es stop)).blank.trans
      (Expr.lexesMore es written.2 stop))

end

theorem Expr.lexesStatement {e : Expr} (h : e.WrittenStatement) (stop : Stops rest) :
    Lexes line (e.printStatement.toList ++ rest) (e.statementTokens line) line rest := by
  obtain ⟨args, rfl, written⟩ | written := h
  · unfold Expr.printStatement Expr.statementTokens
    dsimp only
    rw [if_pos rfl, if_pos rfl]
    cases args with
    | nil => exact Keyword.flow.lexes stop
    | cons e es =>
      dsimp only
      have chars : (Expr.printList ("flow " ++ e.print) es).toList ++ rest =
          Keyword.flow.text.toList ++ ' ' :: (e.print.toList ++
            ((Expr.printList "" es).toList ++ rest)) := by
        rw [Expr.printList_eq]
        simp [Keyword.text]
      rw [chars]
      exact (Keyword.flow.lexes .blank).trans
        ((e.lexes written.1 (stops_printList es stop)).blank.trans
          (Expr.lexesMore es written.2 stop))
  · have plain : e.printStatement = e.print ∧ e.statementTokens line = e.tokens line := by
      cases e with
      | call callee args =>
        have name : callee ≠ outputName := by
          rintro rfl
          exact absurd written.1.2 (by decide)
        simp [Expr.printStatement, Expr.statementTokens, name]
      | _ => exact ⟨rfl, rfl⟩
    rw [plain.1, plain.2]
    exact e.lexes written stop

theorem lexes_names {names : List String} (written : ∀ name ∈ names, IsName name)
    (stop : Stops rest) :
    Lexes line ((", ".intercalate names).toList ++ rest) (namesTokens line names) line rest := by
  induction names with
  | nil => exact Lexes.refl
  | cons name names ih =>
    have first := written name (by simp)
    cases names with
    | nil =>
      rw [String.intercalate_singleton]
      exact lexes_name first stop
    | cons next names =>
      have chars : (", ".intercalate (name :: next :: names)).toList ++ rest = name.toList ++
          (Symbol.comma.text.toList ++
            ' ' :: ((", ".intercalate (next :: names)).toList ++ rest)) := by
        rw [String.intercalate_cons_cons]
        simp [Symbol.text]
      rw [chars]
      exact (lexes_name first .symbol).trans ((Lexes.symbol .comma).trans
        (ih fun name h => written name (by simp [h])).blank)

theorem lexes_indentation {ts : List Token} {line' : UInt32} {cs cs' : List Char} (depth : Nat)
    (h : Lexes line cs ts line' cs') :
    Lexes line ((indentation depth).toList ++ cs) ts line' cs' := by
  induction depth generalizing cs with
  | zero => exact h
  | succ depth ih =>
    have chars : (indentation (depth + 1)).toList ++ cs =
        (indentation depth).toList ++ ' ' :: ' ' :: ' ' :: ' ' :: cs := by
      simp [indentation]
    rw [chars]
    exact ih h.blank.blank.blank.blank

theorem lexes_block {body : String} {tokens : List Token} {breaks : UInt32} (depth : Nat)
    (h : ∀ more, Lexes (line + 1) (body.toList ++ more) tokens (line + 1 + breaks) more) :
    Lexes line ((printBlock depth body).toList ++ rest) (blockTokens line breaks tokens)
      (line + 1 + breaks) rest := by
  have chars : (printBlock depth body).toList ++ rest = Symbol.lbrace.text.toList ++
      '\n' :: (body.toList ++ ((indentation depth).toList ++
        (Symbol.rbrace.text.toList ++ rest))) := by
    simp [printBlock, Symbol.text]
  rw [chars]
  exact (Lexes.symbol .lbrace).trans (Lexes.newline.trans ((h _).trans
    (lexes_indentation depth (Lexes.symbol .rbrace))))

theorem Stmt.printList_append (depth : Nat) (text more : String) (ss : List Stmt) :
    Stmt.printList depth (text ++ more) ss = text ++ Stmt.printList depth more ss := by
  induction ss generalizing more with
  | nil => rfl
  | cons s ss ih => rw [Stmt.printList, String.append_assoc, ih, Stmt.printList]

theorem Stmt.printList_eq (depth : Nat) (text : String) (ss : List Stmt) :
    Stmt.printList depth text ss = text ++ Stmt.printList depth "" ss := by
  rw [← Stmt.printList_append, String.append_empty]

/-- The head of a printed declaration. -/
theorem lexes_head {name : String} {params : List String} (written : WrittenHead name params) :
    Lexes line ((if isCypherBlock name params then "cypher "
        else "verse " ++ name ++ "(" ++ ", ".intercalate params ++ ") ").toList ++ rest)
      (if isCypherBlock name params then [Keyword.cypher.token line]
        else Keyword.verse.token line :: nameToken line name :: Symbol.lparen.token line ::
          (namesTokens line params ++ [Symbol.rparen.token line])) line rest := by
  by_cases entry : isCypherBlock name params
  · rw [if_pos entry, if_pos entry]
    exact (Keyword.cypher.lexes .blank).trans Lexes.refl.blank
  · rw [if_neg entry, if_neg entry]
    obtain entry' | ⟨name', params'⟩ := written
    · exact absurd entry' entry
    have chars : ("verse " ++ name ++ "(" ++ ", ".intercalate params ++ ") ").toList ++ rest =
        Keyword.verse.text.toList ++ ' ' :: (name.toList ++ (Symbol.lparen.text.toList ++
          ((", ".intercalate params).toList ++ (Symbol.rparen.text.toList ++ ' ' :: rest)))) := by
      simp [Keyword.text, Symbol.text]
    rw [chars]
    exact (Keyword.verse.lexes .blank).trans ((lexes_name name' .symbol).blank.trans
      ((Lexes.symbol .lparen).trans ((lexes_names params' .symbol).trans
        ((Lexes.symbol .rparen).trans Lexes.refl.blank))))

mutual

/-- A printed statement is lexed to its tokens and the line break after it. -/
theorem Stmt.lexes : (s : Stmt) → s.Written → ∀ line depth rest,
    Lexes line ((s.print depth).toList ++ rest) (s.tokens line ++ [newlineToken (line + s.breaks)])
      (line + s.breaks + 1) rest
  | .spit name value, written, line, depth, rest => by
    have chars : ((Stmt.spit name value).print depth).toList ++ rest = (indentation depth).toList ++
        (Keyword.spit.text.toList ++ ' ' :: (name.toList ++ ' ' :: (Symbol.assign.text.toList ++
          ' ' :: (value.print.toList ++ '\n' :: rest)))) := by
      simp [Stmt.print, Keyword.text, Symbol.text]
    have last : line + (Stmt.spit name value).breaks = line := UInt32.add_zero line
    rw [chars, last]
    exact lexes_indentation depth ((Keyword.spit.lexes .blank).trans
      ((lexes_name written.1 .blank).blank.trans ((Lexes.symbol_blank .assign).blank.trans
        ((value.lexes written.2 .newline).blank.trans Lexes.newline))))
  | .verse name params body, written, line, depth, rest => by
    have chars : ((Stmt.verse name params body).print depth).toList ++ rest =
        (indentation depth).toList ++ ((if isCypherBlock name params then "cypher "
          else "verse " ++ name ++ "(" ++ ", ".intercalate params ++ ") ").toList ++
          ((printBlock depth (Stmt.printList (depth + 1) "" body)).toList ++ '\n' :: rest)) := by
      simp only [Stmt.print, String.toList_append, List.append_assoc]
      rfl
    have last : line + (Stmt.verse name params body).breaks = line + 1 + Stmt.allBreaks body := by
      rw [Stmt.breaks]
      ac_rfl
    rw [chars, last, Stmt.tokens, List.append_assoc]
    exact lexes_indentation depth ((lexes_head written.1).trans
      ((lexes_block depth (Stmt.lexesAll body written.2 (line + 1) (depth + 1))).trans
        Lexes.newline))
  | .assign name value, written, line, depth, rest => by
    have chars : ((Stmt.assign name value).print depth).toList ++ rest =
        (indentation depth).toList ++ (name.toList ++ ' ' :: (Symbol.assign.text.toList ++
          ' ' :: (value.print.toList ++ '\n' :: rest))) := by
      simp [Stmt.print, Symbol.text]
    have last : line + (Stmt.assign name value).breaks = line := UInt32.add_zero line
    rw [chars, last]
    exact lexes_indentation depth ((lexes_name written.1 .blank).trans
      ((Lexes.symbol_blank .assign).blank.trans
        ((value.lexes written.2 .newline).blank.trans Lexes.newline)))
  | .battle condition thenBranch none, written, line, depth, rest => by
    have chars : ((Stmt.battle condition thenBranch none).print depth).toList ++ rest =
        (indentation depth).toList ++ (Keyword.battle.text.toList ++ ' ' ::
          (Symbol.lparen.text.toList ++ (condition.print.toList ++ (Symbol.rparen.text.toList ++
            ' ' :: ((printBlock depth (Stmt.printList (depth + 1) "" thenBranch)).toList ++
              '\n' :: rest))))) := by
      simp [Stmt.print, Keyword.text, Symbol.text]
    have last : line + (Stmt.battle condition thenBranch none).breaks =
        line + 1 + Stmt.allBreaks thenBranch := by
      rw [Stmt.breaks]
      ac_rfl
    rw [chars, last, Stmt.tokens]
    simp only [List.cons_append, List.append_assoc]
    exact lexes_indentation depth ((Keyword.battle.lexes .blank).trans
      ((Lexes.symbol .lparen).blank.trans ((condition.lexes written.1 .symbol).trans
        ((Lexes.symbol .rparen).trans
          ((lexes_block depth (Stmt.lexesAll thenBranch written.2 _ (depth + 1))).blank.trans
            Lexes.newline)))))
  | .battle condition thenBranch (some elseBranch), written, line, depth, rest => by
    have chars : ((Stmt.battle condition thenBranch (some elseBranch)).print depth).toList ++ rest =
        (indentation depth).toList ++ (Keyword.battle.text.toList ++ ' ' ::
          (Symbol.lparen.text.toList ++ (condition.print.toList ++ (Symbol.rparen.text.toList ++
            ' ' :: ((printBlock depth (Stmt.printList (depth + 1) "" thenBranch)).toList ++
              ' ' :: (Keyword.defeat.text.toList ++
                ' ' :: ((printBlock depth (Stmt.printList (depth + 1) "" elseBranch)).toList ++
                  '\n' :: rest))))))) := by
      simp [Stmt.print, Keyword.text, Symbol.text]
    have last : line + (Stmt.battle condition thenBranch (some elseBranch)).breaks =
        line + 1 + Stmt.allBreaks thenBranch + 1 + Stmt.allBreaks elseBranch := by
      rw [Stmt.breaks]
      ac_rfl
    rw [chars, last, Stmt.tokens]
    simp only [List.cons_append, List.append_assoc]
    exact lexes_indentation depth ((Keyword.battle.lexes .blank).trans
      ((Lexes.symbol .lparen).blank.trans ((condition.lexes written.1 .symbol).trans
        ((Lexes.symbol .rparen).trans
          ((lexes_block depth (Stmt.lexesAll thenBranch written.2.1 _ (depth + 1))).blank.trans
            ((Keyword.defeat.lexes .blank).blank.trans
              ((lexes_block depth (Stmt.lexesAll elseBranch written.2.2 _ (depth + 1))).blank.trans
                Lexes.newline)))))))
  | .ret none, written, line, depth, rest => by
    have chars : ((Stmt.ret none).print depth).toList ++ rest = (indentation depth).toList ++
        (Keyword.ret.text.toList ++ '\n' :: rest) := by
      simp [Stmt.print, Keyword.text]
    have last : line + (Stmt.ret none).breaks = line := UInt32.add_zero line
    rw [chars, last]
    exact lexes_indentation depth ((Keyword.ret.lexes .newline).trans Lexes.newline)
  | .ret (some value), written, line, depth, rest => by
    have chars : ((Stmt.ret (some value)).print depth).toList ++ rest =
        (indentation depth).toList ++ (Keyword.ret.text.toList ++
          ' ' :: (value.print.toList ++ '\n' :: rest)) := by
      simp [Stmt.print, Keyword.text]
    have last : line + (Stmt.ret (some value)).breaks = line := UInt32.add_zero line
    rw [chars, last]
    exact lexes_indentation depth ((Keyword.ret.lexes .blank).trans
      ((value.lexes written .newline).blank.trans Lexes.newline))
  | .expr e, written, line, depth, rest => by
    have chars : ((Stmt.expr e).print depth).toList ++ rest =
        (indentation depth).toList ++ (e.printStatement.toList ++ '\n' :: rest) := by
      simp [Stmt.print]
    have last : line + (Stmt.expr e).breaks = line := UInt32.add_zero line
    rw [chars, last]
    exact lexes_indentation depth ((Expr.lexesStatement written .newline).trans Lexes.newline)

theorem Stmt.lexesAll : (ss : List Stmt) → Stmt.AllWritten ss → ∀ line depth rest,
    Lexes line ((Stmt.printList depth "" ss).toList ++ rest) (Stmt.allTokens line ss)
      (line + Stmt.allBreaks ss) rest
  | [], _, line, depth, rest => by
    rw [Stmt.allBreaks, UInt32.add_zero]
    exact Lexes.refl
  | s :: ss, written, line, depth, rest => by
    have chars : (Stmt.printList depth "" (s :: ss)).toList ++ rest =
        (s.print depth).toList ++ ((Stmt.printList depth "" ss).toList ++ rest) := by
      rw [Stmt.printList, Stmt.printList_eq]
      simp
    have last : line + Stmt.allBreaks (s :: ss) = line + s.breaks + 1 + Stmt.allBreaks ss := by
      rw [Stmt.allBreaks]
      ac_rfl
    have h := (s.lexes written.1 line depth _).trans (Stmt.lexesAll ss written.2 _ depth rest)
    rw [List.append_assoc] at h
    rw [chars, last]
    exact h

end

end CypherLang
