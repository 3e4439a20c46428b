import CypherLang.Proofs.Binary64.Rounding
import CypherLang.Proofs.Value.Ordering

namespace CypherLang

/-- What an operator of arithmetic computes: on integers, on rational numbers, and on floats. -/
inductive BinOp.Computes :
    BinOp → (Int → Int → Int) → (ℚ → ℚ → ℚ) → (Binary64 → Binary64 → Binary64) → Prop
  | add : Computes .add (· + ·) (· + ·) .add
  | sub : Computes .sub (· - ·) (· - ·) .sub
  | mul : Computes .mul (· * ·) (· * ·) .mul

/-- The float of a result is the exact one, rounded once. -/
theorem BinOp.Computes.isNearest {op : BinOp} {onInt : Int → Int → Int} {onRat : ℚ → ℚ → ℚ}
    {onFloat : Binary64 → Binary64 → Binary64} (h : op.Computes onInt onRat onFloat)
    {x y : Binary64} {p q : ℚ} (hx : x.toRat? = some p) (hy : y.toRat? = some q) :
    (onFloat x y).IsNearest (onRat p q) := by
  cases h with
  | add => exact Binary64.isNearest_add hx hy
  | sub => exact Binary64.isNearest_sub hx hy
  | mul => exact Binary64.isNearest_mul hx hy

namespace Value

variable {l r v : Value} {op : BinOp} {onInt : Int → Int → Int} {onRat : ℚ → ℚ → ℚ}
  {onFloat : Binary64 → Binary64 → Binary64} {e : RuntimeError}

/-- One of the operands is a text. -/
inductive WithText : Value → Value → Prop
  | left (s : String) (r : Value) : WithText (text s) r
  | right (l : Value) (s : String) : WithText l (text s)

/-- The value is the integer or one of the two floats that are zero. -/
inductive IsZero : Value → Prop
  | int : IsZero (int 0)
  | float (s : Bool) : IsZero (float (.num s .zero))

theorem isNumber_iff : l.IsNumber ↔ ∃ x, l.toBinary64? = some x := by
  constructor
  · rintro (n | x)
    · exact ⟨_, rfl⟩
    · exact ⟨x, rfl⟩
  · rintro ⟨x, some⟩
    by_contra other
    rw [toBinary64?_eq_none other] at some
    cases some

theorem isZero_iff {x : Binary64} (h : l.toBinary64? = some x) : x.isZero ↔ l.IsZero := by
  cases l with
  | int n =>
    cases h
    rw [Binary64.isZero_ofInt]
    constructor
    · intro zero
      obtain rfl : n = 0 := Int64.toInt_inj.1 zero
      exact .int
    · rintro ⟨⟩
      rfl
  | float y =>
    cases h
    rw [Binary64.isZero_iff]
    constructor
    · rintro ⟨s, rfl⟩
      exact .float s
    · rintro ⟨⟩
      exact ⟨_, rfl⟩
  | _ => cases h

/-- The error with which an operator of arithmetic refuses its operands. -/
inductive Refuses : BinOp → Value → Value → RuntimeError → Prop
  | zero {l r : Value} : l.IsNumber → r.IsNumber → r.IsZero → Refuses .div l r .divisionByZero
  | kinds {op : BinOp} {l r : Value} : ¬(l.IsNumber ∧ r.IsNumber) → (op = .add → ¬l.WithText r) →
    Refuses op l r (.typeMismatch op.symbol l.kindName (some r.kindName))

/-- The integers that 64 bits hold. -/
theorem exists_toInt_iff {n : Int} : (∃ m : Int64, m.toInt = n) ↔ -2 ^ 63 ≤ n ∧ n ≤ 2 ^ 63 - 1 := by
  constructor
  · rintro ⟨m, rfl⟩
    exact ⟨m.minValue_le_toInt, m.toInt_le⟩
  · exact fun range => ⟨.ofInt n, Int64.toInt_ofInt_of_le range.1 (by omega)⟩

theorem ofInt?_toInt (m : Int64) : ofInt? m.toInt = some (int m) := by
  unfold ofInt?
  rw [if_pos ⟨m.minValue_le_toInt, m.toInt_le⟩, Int64.ofInt_toInt]

theorem ofInt?_eq_none {n : Int} (h : ¬(-2 ^ 63 ≤ n ∧ n ≤ 2 ^ 63 - 1)) : ofInt? n = none :=
  if_neg h

/-- The result is the integer `n` if 64 bits hold it, and the float `x` otherwise. -/
structure Promotes (result : Except RuntimeError Value) (n : Int) (x : Binary64) : Prop where
  int_iff (m : Int64) : result = .ok (int m) ↔ m.toInt = n
  isInt_iff : (∃ m, result = .ok (int m)) ↔ -2 ^ 63 ≤ n ∧ n ≤ 2 ^ 63 - 1
  float : ¬(-2 ^ 63 ≤ n ∧ n ≤ 2 ^ 63 - 1) → result = .ok (float x)

theorem promotes_getD (n : Int) (x : Binary64) :
    Promotes (.ok ((ofInt? n).getD (float x))) n x := by
  have exact (m : Int64) : .ok ((ofInt? n).getD (float x)) = Except.ok (ε := RuntimeError) (int m) ↔
      m.toInt = n := by
    by_cases range : -2 ^ 63 ≤ n ∧ n ≤ 2 ^ 63 - 1
    · obtain ⟨k, rfl⟩ := exists_toInt_iff.2 range
      rw [ofInt?_toInt, Option.getD_some, Except.ok.injEq, int.injEq, Int64.toInt_inj, eq_comm]
    · rw [ofInt?_eq_none range]
      exact ⟨nofun, fun exact => absurd (exists_toInt_iff.1 ⟨m, exact⟩) range⟩
  refine ⟨exact, (exists_congr exact).trans exists_toInt_iff, fun range => ?_⟩
  rw [ofInt?_eq_none range]
  rfl

theorem numeric_int (op : BinOp) (onInt : Int → Int → Int)
    (onFloat : Binary64 → Binary64 → Binary64) (a b : Int64) :
    numeric op onInt onFloat (int a) (int b) = .ok ((ofInt? (onInt a.toInt b.toInt)).getD
      (float (onFloat (.ofInt a.toInt) (.ofInt b.toInt)))) := by
  unfold numeric
  dsimp only
  cases ofInt? (onInt a.toInt b.toInt) <;> rfl

theorem numeric_float {x y : Binary64} (hl : l.toBinary64? = some x) (hr : r.toBinary64? = some y)
    (some : (∃ x, l = float x) ∨ ∃ y, r = float y) :
    numeric op onInt onFloat l r = .ok (float (onFloat x y)) := by
  unfold numeric
  rw [hl, hr]
  rcases some with ⟨x, rfl⟩ | ⟨y, rfl⟩
  · rfl
  · cases l <;> rfl

theorem numeric_ok (hl : l.IsNumber) (hr : r.IsNumber) :
    ∃ v, numeric op onInt onFloat l r = .ok v := by
  cases hl with
  | int a =>
    cases hr with
    | int b => exact ⟨_, numeric_int op onInt onFloat a b⟩
    | float y => exact ⟨_, numeric_float rfl rfl (.inr ⟨y, rfl⟩)⟩
  | float x =>
    obtain ⟨y, right⟩ := isNumber_iff.1 hr
    exact ⟨_, numeric_float rfl right (.inl ⟨x, rfl⟩)⟩

theorem numeric_error (h : ¬(l.IsNumber ∧ r.IsNumber)) :
    numeric op onInt onFloat l r = .error (unsuited op l r) := by
  unfold numeric
  split
  next => exact absurd ⟨.int _, .int _⟩ h
  next =>
    by_cases left : l.IsNumber
    · rw [toBinary64?_eq_none fun right => h ⟨left, right⟩]
      cases l.toBinary64? <;> rfl
    · rw [toBinary64?_eq_none left]

theorem numeric_error_iff : numeric op onInt onFloat l r = .error e ↔
    ¬(l.IsNumber ∧ r.IsNumber) ∧ e = unsuited op l r := by
  by_cases numbers : l.IsNumber ∧ r.IsNumber
  · obtain ⟨v, ok⟩ : ∃ v, numeric op onInt onFloat l r = .ok v := numeric_ok numbers.1 numbers.2
    rw [ok]
    exact ⟨nofun, fun refused => absurd numbers refused.1⟩
  · rw [numeric_error numbers, Except.error.injEq, and_iff_right numbers, eq_comm]

theorem not_withText (hl : l.IsNumber) (hr : r.IsNumber) : ¬l.WithText r := by
  rintro (_ | _)
  · cases hl
  · cases hr

theorem add_of_withText (h : l.WithText r) : add l r = .ok (text (l.display ++ r.display)) := by
  cases h with
  | left => rfl
  | right => cases l <;> rfl

theorem add_eq_numeric (noText : ¬l.WithText r) : add l r = numeric .add (· + ·) .add l r := by
  unfold add
  split
  next => exact absurd (.left ..) noText
  next => exact absurd (.right ..) noText
  next => rfl

theorem apply_eq_numeric (h : op.Computes onInt onRat onFloat)
    (noText : op = .add → ¬l.WithText r) :
    l.apply op r = numeric op onInt onFloat l r := by
  cases h with
  | add => exact add_eq_numeric (noText rfl)
  | sub => rfl
  | mul => rfl

theorem apply_numbers (h : op.Computes onInt onRat onFloat) (hl : l.IsNumber) (hr : r.IsNumber) :
    l.apply op r = numeric op onInt onFloat l r :=
  apply_eq_numeric h fun _ => not_withText hl hr

theorem apply_error_iff_of_computes (h : op.Computes onInt onRat onFloat) :
    l.apply op r = .error e ↔ Refuses op l r e := by
  by_cases noText : op = .add → ¬l.WithText r
  · rw [apply_eq_numeric h noText, numeric_error_iff]
    constructor
    · rintro ⟨other, rfl⟩
      exact .kinds other noText
    · rintro (_ | ⟨other, -⟩)
      · cases h
      · exact ⟨other, rfl⟩
  · obtain ⟨rfl, withText⟩ := Classical.not_imp.1 noText
    have joined : l.apply .add r = _ := add_of_withText (not_not.1 withText)
    rw [joined]
    refine ⟨nofun, ?_⟩
    rintro (_ | ⟨-, noText⟩)
    exact absurd (noText rfl) withText

theorem divide_of_numbers {x y : Binary64} (hl : l.toBinary64? = some x)
    (hr : r.toBinary64? = some y) :
    divide l r = if y.isZero then .error .divisionByZero else .ok (float (x.div y)) := by
  unfold divide
  rw [hl, hr]

theorem divide_error_iff : divide l r = .error e ↔ Refuses .div l r e := by
  by_cases numbers : l.IsNumber ∧ r.IsNumber
  · obtain ⟨x, left⟩ := isNumber_iff.1 numbers.1
    obtain ⟨y, right⟩ := isNumber_iff.1 numbers.2
    have zeros := isZero_iff right
    rw [divide_of_numbers left right]
    split
    next zero =>
      constructor
      · rintro ⟨⟩
        exact .zero numbers.1 numbers.2 (zeros.1 zero)
      · rintro (_ | ⟨other, -⟩)
        · rfl
        · exact absurd numbers other
    next nonzero =>
      refine ⟨nofun, ?_⟩
      rintro (⟨-, -, zero⟩ | ⟨other, -⟩)
      · exact absurd (zeros.2 zero) nonzero
      · exact absurd numbers other
  · have refused : divide l r = .error (unsuited .div l r) := by
      unfold divide
      split
      next left right => exact absurd ⟨isNumber_iff.2 ⟨_, left⟩, isNumber_iff.2 ⟨_, right⟩⟩ numbers
      next => rfl
    rw [refused, Except.error.injEq]
    constructor
    · rintro rfl
      exact .kinds numbers nofun
    · rintro (⟨left, right, -⟩ | _)
      · exact absurd ⟨left, right⟩ numbers
      · rfl

theorem apply_error_iff (arithmetic : op ∈ [BinOp.add, .sub, .mul, .div]) :
    l.apply op r = .error e ↔ Refuses op l r e := by
  cases op with
  | add => exact apply_error_iff_of_computes .add
  | sub => exact apply_error_iff_of_computes .sub
  | mul => exact apply_error_iff_of_computes .mul
  | div => exact divide_error_iff
  | _ => exact absurd arithmetic (by decide)

/-- There is one integer whose negation 64 bits do not hold. -/
theorem neg_in_range_iff {n : Int64} :
    -2 ^ 63 ≤ -n.toInt ∧ -n.toInt ≤ 2 ^ 63 - 1 ↔ n ≠ .minValue := by
  have low : -2 ^ 63 ≤ n.toInt := n.minValue_le_toInt
  have high : n.toInt ≤ 2 ^ 63 - 1 := n.toInt_le
  have same : n = .minValue ↔ n.toInt = -2 ^ 63 := Int64.toInt_inj.symm
  rw [ne_eq, same]
  omega

theorem minus_minValue : ∃ x, (int .minValue).minus = .ok (float x) ∧ x.IsInt (2 ^ 63) := by
  refine ⟨(Binary64.ofInt Int64.minValue.toInt).neg, ?_, ?_⟩
  · exact (promotes_getD _ _).float (neg_in_range_iff.not.2 (not_not.2 rfl))
  · constructor <;> decide +kernel

theorem minus_error_iff :
    v.minus = .error e ↔ ¬v.IsNumber ∧ e = .typeMismatch "-" v.kindName none := by
  constructor
  · intro refused
    cases v
    case int | float => cases refused
    all_goals
      cases refused
      exact ⟨nofun, rfl⟩
  · rintro ⟨other, rfl⟩
    cases v with
    | int n => exact absurd (.int n) other
    | float x => exact absurd (.float x) other
    | _ => rfl

/-- What an operator with results on integers, rational numbers and floats makes of two numbers. -/
structure Combines (l r : Value) (op : BinOp) (onInt : Int → Int → Int) (onRat : ℚ → ℚ → ℚ)
    (onFloat : Binary64 → Binary64 → Binary64) : Prop where
  ints : ∀ a b, l = int a → r = int b → Promotes (l.apply op r) (onInt a.toInt b.toInt)
    (onFloat (.ofInt a.toInt) (.ofInt b.toInt))
  floats : ∀ x y, l.toBinary64? = some x → r.toBinary64? = some y →
    (∃ x, l = float x) ∨ (∃ y, r = float y) → l.apply op r = .ok (float (onFloat x y))
  rounded : ∀ x y p q, x.toRat? = some p → y.toRat? = some q → (onFloat x y).IsNearest (onRat p q)

theorem combines (h : op.Computes onInt onRat onFloat) : Combines l r op onInt onRat onFloat where
  ints := by
    rintro a b rfl rfl
    rw [apply_numbers h (.int a) (.int b), numeric_int]
    exact promotes_getD _ _
  floats x y left right float := by
    rw [apply_numbers h (isNumber_iff.2 ⟨x, left⟩) (isNumber_iff.2 ⟨y, right⟩)]
    exact numeric_float left right float
  rounded _ _ _ _ := h.isNearest

structure ArithmeticLaws (l r : Value) : Prop where
  conversion : ∀ n x, l = int n → l.toBinary64? = some x → x.IsNearest n.toInt
  combined : ∀ op onInt onRat onFloat, BinOp.Computes op onInt onRat onFloat →
    Combines l r op onInt onRat onFloat
  joined : l.WithText r → l.apply .add r = .ok (text (l.display ++ r.display))
  quotient : ∀ x y, l.toBinary64? = some x → r.toBinary64? = some y → ¬r.IsZero →
    l.apply .div r = .ok (float (x.div y))
  quotientRounded : ∀ x y, l.toBinary64? = some x → r.toBinary64? = some y → ¬r.IsZero →
    ∀ p q, x.toRat? = some p → y.toRat? = some q → (x.div y).IsNearest (p / q)
  refused : ∀ op ∈ [BinOp.add, .sub, .mul, .div], ∀ e, l.apply op r = .error e ↔ Refuses op l r e
  minusInt : ∀ n, l = int n → Promotes l.minus (-n.toInt) (Binary64.ofInt n.toInt).neg
  minusIntIsInt : ∀ n, l = int n → ((∃ m, l.minus = .ok (int m)) ↔ n ≠ .minValue)
  minusMinValue : l = int .minValue → ∃ x, l.minus = .ok (float x) ∧ x.IsInt (2 ^ 63)
  minusFloat : ∀ x, l = float x → l.minus = .ok (float x.neg)
  minusRefused : ∀ e, l.minus = .error e ↔ ¬l.IsNumber ∧ e = .typeMismatch "-" l.kindName none

/-- Addition, subtraction and multiplication of integers are exact as long as 64 bits hold the
result, and otherwise what they are on floats, as they are if an operand is a float. A text is
joined with whatever is added to it. A quotient is a float. The conversion of an integer rounds it,
and all operators on floats round the exact result. Division by a zero and operands of other kinds
are refused, and nothing else is. Negation is exact but for the least integer, which gives a float,
and only a number can be negated. -/
theorem arithmetic_laws (l r : Value) : ArithmeticLaws l r where
  conversion := by
    rintro n _ rfl ⟨⟩
    exact Binary64.isNearest_ofInt n.toInt
  combined _ _ _ _ := combines
  joined := add_of_withText
  quotient x y left right nonzero :=
    (divide_of_numbers left right).trans (if_neg ((isZero_iff right).not.2 nonzero))
  quotientRounded x y _ right nonzero p q hx hy :=
    Binary64.isNearest_div hx hy
      ((Binary64.toRat?_eq_zero_iff hy).not.2 ((isZero_iff right).not.2 nonzero))
  refused _ arithmetic _ := apply_error_iff arithmetic
  minusInt := by
    rintro n rfl
    exact promotes_getD (-n.toInt) (Binary64.ofInt n.toInt).neg
  minusIntIsInt := by
    rintro n rfl
    have promotes := promotes_getD (-n.toInt) (Binary64.ofInt n.toInt).neg
    exact promotes.isInt_iff.trans neg_in_range_iff
  minusMinValue := by
    rintro rfl
    exact minus_minValue
  minusFloat := by
    rintro x rfl
    rfl
  minusRefused _ := minus_error_iff

/-- Past the largest integer and the least one, a number with a text, and a division by `-0.0`. -/
theorem arithmetic_laws_limits :
    apply .add (int .maxValue) (int 1) =
      .ok (float (Binary64.add (.ofInt Int64.maxValue.toInt) (.ofInt 1))) ∧
    apply .add (int 1) (text "a") = .ok (text "1a") ∧
    apply .div (int 1) (float (.num true .zero)) = .error .divisionByZero ∧
    apply .div (text "1") (int 0) = .error (.typeMismatch "/" "text" (some "int")) ∧
    ∃ x, (int .minValue).minus = .ok (float x) ∧ x.IsInt (2 ^ 63) := by
  refine ⟨?_, ?_, ?_, ?_, (arithmetic_laws _ .null).minusMinValue rfl⟩
  · have combined := (arithmetic_laws (int .maxValue) (int 1)).combined .add _ _ _ .add
    exact (combined.ints _ _ rfl rfl).float (by decide)
  · exact (arithmetic_laws (int 1) (text "a")).joined (.right _ _)
  · exact ((arithmetic_laws (int 1) _).refused .div (by decide) _).2
      (.zero (.int 1) (.float _) (.float true))
  · exact ((arithmetic_laws (text "1") (int 0)).refused .div (by decide) _).2 (.kinds nofun nofun)

end Value

end CypherLang
