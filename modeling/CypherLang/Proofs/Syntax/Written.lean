import CypherLang.Proofs.Syntax.Numbers
import CypherLang.Proofs.Syntax.Yield

namespace CypherLang

open Token (IsName)

/-- A literal that a text can spell. A sign is not part of a number. -/
def Literal.Written : Literal → Prop
  | .int n => 0 ≤ n.toInt
  | .float x => ∃ m : Magnitude, x = .num false m ∧ m.isInfinite = false
  | _ => True

mutual

def Expr.Written : Expr → Prop
  | .literal l => l.Written
  | .identifier name => IsName name
  | .binary l _ r => l.Written ∧ r.Written
  | .neg e => e.Written
  | .call callee args => IsName callee ∧ Expr.AllWritten args

def Expr.AllWritten : List Expr → Prop
  | [] => True
  | e :: es => e.Written ∧ Expr.AllWritten es

end

/-- An expression that a text can spell as a statement. -/
def Expr.WrittenStatement (e : Expr) : Prop :=
  (∃ args, e = .call outputName args ∧ Expr.AllWritten args) ∨ e.Written

/-- The head of a declaration that a text can spell: that of a `cypher` block, or names. -/
def WrittenHead (name : String) (params : List String) : Prop :=
  isCypherBlock name params ∨ IsName name ∧ ∀ p ∈ params, IsName p

mutual

def Stmt.Written : Stmt → Prop
  | .spit name value => IsName name ∧ value.Written
  | .verse name params body => WrittenHead name params ∧ Stmt.AllWritten body
  | .assign name value => IsName name ∧ value.Written
  | .battle condition thenBranch none => condition.Written ∧ Stmt.AllWritten thenBranch
  | .battle condition thenBranch (some elseBranch) =>
    condition.Written ∧ Stmt.AllWritten thenBranch ∧ Stmt.AllWritten elseBranch
  | .ret none => True
  | .ret (some value) => value.Written
  | .expr e => e.WrittenStatement

def Stmt.AllWritten : List Stmt → Prop
  | [] => True
  | s :: ss => s.Written ∧ Stmt.AllWritten ss

end

namespace Literal

theorem written_of_ofNumber? {text : String} {l : Literal} (number : Token.IsNumber text)
    (h : ofNumber? text = some l) : l.Written := by
  have meant := meant_ofNumber? number
  rw [h] at meant
  cases meant with
  | int _ exact =>
    have nonneg := Decimal.value_nonneg text.toList
    rw [← exact] at nonneg
    exact Int.cast_nonneg_iff.1 nonneg
  | float _ _ finite => exact ⟨_, rfl, finite⟩

/-- The text of a written number is a number token's and stands for it. -/
theorem print_int {n : Int64} (h : (int n).Written) :
    Token.IsNumber (int n).print ∧ ofNumber? (int n).print = some (int n) := by
  have chars : (int n).print.toList = Nat.toDigits 10 n.toInt.toNat := Decimal.toList_toString h
  have digits {c : Char} (hc : c ∈ (int n).print.toList) : c.isDigit := by
    rw [chars] at hc
    exact Decimal.isDigit_of_mem_toDigits hc
  constructor
  · cases split : (int n).print.toList with
    | nil =>
      rw [chars] at split
      exact absurd split Nat.toDigits_ne_nil
    | cons c cs =>
      refine ⟨c, cs, split, digits (by simp [split]), fun d hd => ?_⟩
      simp [Token.continuesNumber, digits (c := d) (by simp [split, hd])]
  · have point : '.' ∉ (int n).print.toList := fun h => absurd (digits h) (by decide)
    unfold ofNumber?
    rw [if_neg point, show (int n).print = toString n.toInt from rfl, Decimal.int64?_toString h]

theorem print_float {m : Magnitude} (finite : m.isInfinite = false) :
    Token.IsNumber (float (.num false m)).print ∧
      ofNumber? (float (.num false m)).print = some (float (.num false m)) := by
  have text : (float (.num false m)).print = m.toText := by
    simp [print, Binary64.toText]
  obtain ⟨n, k, hk, fixed, -⟩ := Magnitude.toText_eq_fixed finite
  have chars := Decimal.toList_fixed n k
  rw [← fixed] at chars
  rw [text]
  constructor
  · cases digits : Nat.toDigits 10 (n / 10 ^ k) with
    | nil => exact absurd digits Nat.toDigits_ne_nil
    | cons c cs =>
      have inside {d : Char} (hd : d ∈ c :: cs) : d.isDigit := by
        rw [← digits] at hd
        exact Decimal.isDigit_of_mem_toDigits hd
      rw [digits] at chars
      refine ⟨c, _, chars, inside (by simp), fun d hd => ?_⟩
      obtain hd | hd := List.mem_append.1 hd
      · simp [Token.continuesNumber, inside (List.mem_cons_of_mem c hd)]
      · obtain rfl | hd := List.mem_cons.1 hd
        · decide
        · simp [Token.continuesNumber, Decimal.isDigit_of_mem_fraction hd]
  · have point : '.' ∈ m.toText.toList := by simp [chars]
    unfold ofNumber?
    rw [if_pos point]
    simp [Binary64.ofText?_toText finite, Binary64.isFinite, finite]

end Literal

namespace Yield

open Token (Spelled)

theorem isName_of_spelled {t : Token} (kind : t.kind = .identifier) (h : t.Spelled) :
    IsName t.text := by
  simpa [Spelled, kind] using h

theorem text_of_spelled {t : Token} {k : Keyword} (kind : t.kind = .keyword k) (h : t.Spelled) :
    t.text = k.text := by
  simpa [Spelled, kind] using h

theorem isNumber_of_spelled {t : Token} (kind : t.kind = .number) (h : t.Spelled) :
    Token.IsNumber t.text := by
  simpa [Spelled, kind] using h

theorem written_of_literal? {k : Keyword} {l : Literal} (h : k.literal? = some l) : l.Written := by
  cases k <;> cases h <;> trivial

mutual

theorem Primary.written {n e w rest} : Primary n e w rest → (∀ t ∈ w, t.Spelled) → e.Written
  | .number ht hl, spelled =>
    Literal.written_of_ofNumber? (isNumber_of_spelled ht (spelled _ (by simp))) hl
  | .string _, _ => trivial
  | .word _ hl, _ => written_of_literal? hl
  | .identifier ht _, spelled => isName_of_spelled ht (spelled _ (by simp))
  | .callEmpty ht _ _, spelled => ⟨isName_of_spelled ht (spelled _ (by simp)), trivial⟩
  | .call ht _ args _, spelled =>
    ⟨isName_of_spelled ht (spelled _ (by simp)),
      args.written fun t ht => spelled t (by simp [ht])⟩
  | .group _ inner _, spelled => inner.written fun t ht => spelled t (by simp [ht])
  | .neg _ operand, spelled => operand.written fun t ht => spelled t (by simp [ht])

theorem Operand.written {tier n e w rest} :
    Operand tier n e w rest → (∀ t ∈ w, t.Spelled) → e.Written
  | .primary h, spelled => h.written spelled
  | .product h _, spelled => h.written spelled
  | .sum h _, spelled => h.written spelled

theorem Chain.written {tier k n e w rest} :
    Chain tier k n e w rest → (∀ t ∈ w, t.Spelled) → e.Written
  | .operand h, spelled => h.written spelled
  | .operator left _ _ right, spelled =>
    ⟨left.written fun t ht => spelled t (by simp [ht]),
      right.written fun t ht => spelled t (by simp [ht])⟩

theorem Expression.written {n e w rest} :
    Expression n e w rest → (∀ t ∈ w, t.Spelled) → e.Written
  | .comparison h _, spelled => h.written spelled

theorem Arguments.written {n es w rest} :
    Arguments n es w rest → (∀ t ∈ w, t.Spelled) → Expr.AllWritten es
  | .last h, spelled => ⟨h.written spelled, trivial⟩
  | .more h _ args, spelled =>
    ⟨h.written fun t ht => spelled t (by simp [ht]),
      args.written fun t ht => spelled t (by simp [ht])⟩

end

theorem Names.written {names w} (h : Names names w) (spelled : ∀ t ∈ w, t.Spelled) :
    ∀ name ∈ names, IsName name := by
  induction h with
  | last ht =>
    intro name hn
    rw [List.mem_singleton.1 hn]
    exact isName_of_spelled ht (spelled _ (by simp))
  | more ht _ _ ih =>
    intro name hn
    obtain rfl | hn := List.mem_cons.1 hn
    · exact isName_of_spelled ht (spelled _ (by simp))
    · exact ih (fun t ht => spelled t (by simp [ht])) name hn

theorem Parameters.written {names w} (h : Parameters names w) (spelled : ∀ t ∈ w, t.Spelled) :
    ∀ name ∈ names, IsName name := by
  cases h with
  | none => simp
  | some h => exact h.written spelled

mutual

theorem Statement.written {n s w rest} : Statement n s w rest → (∀ t ∈ w, t.Spelled) → s.Written
  | .spit _ hn _ h, spelled =>
    ⟨isName_of_spelled hn (spelled _ (by simp)), h.written fun t ht => spelled t (by simp [ht])⟩
  | .verse _ hn _ params _ body, spelled =>
    ⟨.inr ⟨isName_of_spelled hn (spelled _ (by simp)),
        params.written fun t ht => spelled t (by simp [ht])⟩,
      body.written fun t ht => spelled t (by simp [ht])⟩
  | .cypher _ body, spelled => ⟨.inl rfl, body.written fun t ht => spelled t (by simp [ht])⟩
  | .flowEmpty hk _, spelled => by
    have name := text_of_spelled hk (spelled _ (by simp))
    exact .inl ⟨[], by rw [name]; rfl, trivial⟩
  | .flow hk args _, spelled => by
    have name := text_of_spelled hk (spelled _ (by simp))
    exact .inl ⟨_, by rw [name]; rfl, args.written fun t ht => spelled t (by simp [ht])⟩
  | .battle _ _ cond _ body _, spelled =>
    ⟨cond.written fun t ht => spelled t (by simp [ht]),
      body.written fun t ht => spelled t (by simp [ht])⟩
  | .battleDefeat _ _ cond _ body _ _ other, spelled =>
    ⟨cond.written fun t ht => spelled t (by simp [ht]),
      body.written fun t ht => spelled t (by simp [ht]),
      other.written fun t ht => spelled t (by simp [ht])⟩
  | .retEmpty _ _, _ => trivial
  | .ret _ h, spelled => h.written fun t ht => spelled t (by simp [ht])
  | .assign hn _ h, spelled =>
    ⟨isName_of_spelled hn (spelled _ (by simp)), h.written fun t ht => spelled t (by simp [ht])⟩
  | .expr h _, spelled => .inr (h.written spelled)

theorem Block.written {n body w rest} :
    Block n body w rest → (∀ t ∈ w, t.Spelled) → Stmt.AllWritten body
  | .braces _ h _, spelled => h.written fun t ht => spelled t (by simp [ht])

theorem Body.written {n ss w rest} :
    Body n ss w rest → (∀ t ∈ w, t.Spelled) → Stmt.AllWritten ss
  | .nil _, _ => trivial
  | .cons _ h more, spelled =>
    ⟨h.written fun t ht => spelled t (by simp [ht]),
      more.written fun t ht => spelled t (by simp [ht])⟩

end

end Yield

end CypherLang
