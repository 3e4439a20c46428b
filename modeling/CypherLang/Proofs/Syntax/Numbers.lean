import CypherLang.Proofs.Binary64.ReadBack
import CypherLang.Proofs.Binary64.Rounding
import CypherLang.Proofs.Token.Lexing

namespace CypherLang

namespace Decimal

/-- The number written by digits with at most one point among them. -/
def value (cs : List Char) : ℚ :=
  Nat.ofDigitChars 10 (cs.filter (· != '.')) 0 / 10 ^ (cs.dropWhile (· != '.')).tail.length

theorem value_nonneg (cs : List Char) : 0 ≤ value cs :=
  div_nonneg (Nat.cast_nonneg _) (pow_nonneg (by decide) _)

/-- An integer that 64 bits hold. -/
def IsInteger (cs : List Char) : Prop := '.' ∉ cs ∧ value cs ≤ 2 ^ 63 - 1

/-- No number, or one that is rounded to infinity. -/
def IsRefused (cs : List Char) : Prop := 2 ≤ cs.count '.' ∨ Magnitude.limit ≤ value cs

theorem IsInteger.not_isRefused {cs : List Char} (h : IsInteger cs) : ¬IsRefused cs := by
  have limit : (2 ^ 63 - 1 : ℕ) < Magnitude.limit := by decide +kernel
  have limit : (2 ^ 63 - 1 : ℚ) < Magnitude.limit := by
    have cast : ((2 ^ 63 - 1 : ℕ) : ℚ) = 2 ^ 63 - 1 := by norm_num
    rw [← cast]
    exact Nat.cast_lt.2 limit
  rintro (points | beyond)
  · rw [List.count_eq_zero.2 h.1] at points
    omega
  · exact absurd (beyond.trans h.2) (not_le.2 limit)

/-- Nothing but digits. -/
def Digits (cs : List Char) : Prop := ∀ c ∈ cs, c.isDigit

namespace Digits

variable {w f : List Char}

theorem ne_point (h : Digits w) : ∀ c ∈ w, (c != '.') = true := by
  intro c mem
  rw [bne_iff_ne]
  rintro rfl
  exact absurd (h _ mem) (by decide)

theorem not_mem (h : Digits w) : '.' ∉ w := fun mem => absurd (h.ne_point _ mem) (by decide)

theorem takeWhile_append (h : Digits w) (more : List Char) :
    (w ++ '.' :: more).takeWhile Char.isDigit = w := by
  rw [List.takeWhile_append_of_pos h, List.takeWhile_cons_of_neg (by decide), List.append_nil]

theorem dropWhile_append (h : Digits w) (more : List Char) :
    (w ++ '.' :: more).dropWhile Char.isDigit = '.' :: more := by
  rw [List.dropWhile_append_of_pos h, List.dropWhile_cons_of_neg (by decide)]

theorem takeWhile_eq (h : Digits w) : w.takeWhile Char.isDigit = w :=
  List.takeWhile_eq_self_iff.2 h

theorem dropWhile_eq (h : Digits w) : w.dropWhile Char.isDigit = [] :=
  List.dropWhile_eq_nil_iff.2 h

theorem value_eq (h : Digits w) : value w = Nat.ofDigitChars 10 w 0 := by
  have kept : w.filter (· != '.') = w := List.filter_eq_self.2 h.ne_point
  have none : w.dropWhile (· != '.') = [] := by simpa using h.ne_point
  rw [value, kept, none, List.tail_nil, List.length_nil, pow_zero, div_one]

theorem value_point (h : Digits w) (h' : Digits f) :
    value (w ++ '.' :: f) = Nat.ofDigitChars 10 (w ++ f) 0 / 10 ^ f.length := by
  have kept : (w ++ '.' :: f).filter (· != '.') = w ++ f := by
    rw [List.filter_append, List.filter_cons_of_neg (by decide), List.filter_eq_self.2 h.ne_point,
      List.filter_eq_self.2 h'.ne_point]
  have behind : (w ++ '.' :: f).dropWhile (· != '.') = '.' :: f := by
    rw [List.dropWhile_append_of_pos h.ne_point, List.dropWhile_cons_of_neg (by decide)]
  rw [value, kept, behind, List.tail_cons]

theorem scaled?_eq (h : Digits w) (nonempty : w ≠ []) :
    scaled? w = some ⟨Nat.ofDigitChars 10 w 0, -(0 : Nat)⟩ := by
  unfold scaled?
  rw [h.takeWhile_eq, h.dropWhile_eq]
  simp [nonempty, exponent?]

theorem scaled?_point (h : Digits w) (nonempty : w ≠ []) (h' : Digits f) :
    scaled? (w ++ '.' :: f) = some ⟨Nat.ofDigitChars 10 (w ++ f) 0, -f.length⟩ := by
  unfold scaled?
  rw [h.takeWhile_append, h.dropWhile_append]
  simp [h'.takeWhile_eq, h'.dropWhile_eq, nonempty, exponent?]

/-- A second point is no exponent. -/
theorem scaled?_points (h : Digits w) (h' : Digits f) (more : List Char) :
    scaled? (w ++ '.' :: (f ++ '.' :: more)) = none := by
  unfold scaled?
  rw [h.takeWhile_append, h.dropWhile_append]
  simp [h'.takeWhile_append, h'.dropWhile_append, exponent?]

end Digits

/-- Digits and points are digits alone, or they have a first point. -/
theorem digits_or_point {cs : List Char} (h : ∀ c ∈ cs, Token.continuesNumber c) :
    Digits cs ∨ ∃ w f, cs = w ++ '.' :: f ∧ Digits w ∧ ∀ c ∈ f, Token.continuesNumber c := by
  induction cs with
  | nil => exact .inl nofun
  | cons c cs ih =>
    rw [List.forall_mem_cons] at h
    by_cases digit : c.isDigit
    · rcases ih h.2 with digits | ⟨w, f, rfl, digits, more⟩
      · exact .inl (List.forall_mem_cons.2 ⟨digit, digits⟩)
      · exact .inr ⟨c :: w, f, rfl, List.forall_mem_cons.2 ⟨digit, digits⟩, more⟩
    · have point : c = '.' := by simpa [Token.continuesNumber, digit] using h.1
      exact .inr ⟨[], cs, by rw [point]; rfl, nofun, h.2⟩

/-- A digit is no capital letter. -/
theorem toLower_of_isDigit {c : Char} (h : c.isDigit) : c.toLower = c := by
  refine Char.toLower_eq_of_not_isUpper fun upper => ?_
  simp only [Char.isDigit, Char.isUpper, Bool.and_eq_true, decide_eq_true_eq, ge_iff_le,
    UInt32.le_iff_toNat_le] at h upper
  have digit : c.val.toNat ≤ 57 := h.2
  have letter : 65 ≤ c.val.toNat := upper.1
  omega

end Decimal

namespace Token.IsNumber

open Decimal (Digits value)

variable {text : String}

theorem splitSign (h : IsNumber text) :
    Decimal.splitSign text.toList = (false, text.toList) := by
  obtain ⟨c, cs, chars, digit, -⟩ := h
  refine Decimal.splitSign_of_isDigit fun d hd => ?_
  rw [chars] at hd
  cases hd
  exact digit

/-- A number is no word for a special value. -/
theorem ne_word (h : IsNumber text) {word : String} (letters : ∀ c ∈ word.toList, ¬c.isDigit) :
    String.ofList (text.toList.map Char.toLower) ≠ word := by
  obtain ⟨c, cs, chars, digit, -⟩ := h
  rintro rfl
  refine letters c ?_ digit
  rw [String.toList_ofList, chars, List.map_cons, Decimal.toLower_of_isDigit digit]
  exact List.mem_cons_self

theorem ofText?_eq (h : IsNumber text) :
    Binary64.ofText? text = (Decimal.scaled? text.toList).map (Binary64.ofScaled false) := by
  unfold Binary64.ofText?
  rw [h.splitSign]
  dsimp only
  rw [if_neg (not_or.2 ⟨h.ne_word (by simp), h.ne_word (by simp)⟩),
    if_neg (h.ne_word (by simp))]

end Token.IsNumber

namespace Literal

/-- The literals that digits and points stand for. -/
inductive Meant (cs : List Char) : Option Literal → Prop
  | int {n : Int64} : Decimal.IsInteger cs → n.toInt = Decimal.value cs → Meant cs (some (int n))
  | float {m : Magnitude} : ¬Decimal.IsInteger cs → ¬Decimal.IsRefused cs →
    m.isInfinite = false → m.IsNearest (Decimal.value cs) → Meant cs (some (float (.num false m)))
  | refused : Decimal.IsRefused cs → Meant cs none

namespace Meant

open Decimal (Digits IsInteger value)

variable {text : String} {w f : List Char}

/-- What is no integer is read as a decimal. -/
theorem of_scaled {n k : Nat} (number : Token.IsNumber text)
    (notInt : (if '.' ∈ text.toList then none else Decimal.int64? text) = none)
    (notInteger : ¬IsInteger text.toList) (points : text.toList.count '.' ≤ 1)
    (scaled : Decimal.scaled? text.toList = some ⟨n, -k⟩)
    (exact : value text.toList = n / 10 ^ k) : Meant text.toList (ofNumber? text) := by
  have nearest := Magnitude.isNearest_nearest n (Nat.pow_pos (n := k) (by decide : 0 < 10))
  rw [Nat.cast_pow, Nat.cast_ofNat, ← exact] at nearest
  unfold ofNumber?
  rw [notInt, number.ofText?_eq, scaled, Option.map_some, Binary64.ofScaled_eq]
  cases infinite : (Magnitude.nearest n (10 ^ k)).isInfinite with
  | false =>
    simp only [Binary64.isFinite, infinite, Bool.not_false, if_true]
    refine .float notInteger (not_or.2 ⟨by omega, fun beyond => ?_⟩) infinite nearest
    rw [nearest.infinite_iff.2 beyond] at infinite
    cases infinite
  | true =>
    simp only [Binary64.isFinite, infinite, Bool.not_true, Bool.false_eq_true, if_false]
    exact .refused (.inr (nearest.infinite_iff.1 infinite))

theorem of_digits (number : Token.IsNumber text) (nonempty : text.toList ≠ [])
    (digits : Digits text.toList) : Meant text.toList (ofNumber? text) := by
  have point := digits.not_mem
  have value := digits.value_eq
  have fits : IsInteger text.toList ↔
      (Nat.ofDigitChars 10 text.toList 0 : Int) ≤ 2 ^ 63 - 1 := by
    rw [IsInteger, and_iff_right point, value]
    exact_mod_cast Iff.rfl
  have read : Decimal.int64? text =
      if (Nat.ofDigitChars 10 text.toList 0 : Int) ≤ 2 ^ 63 - 1 then
        some (.ofInt (Nat.ofDigitChars 10 text.toList 0)) else none := by
    have run : Decimal.isDigits text.toList := by
      rw [Decimal.isDigits, Bool.and_eq_true, List.all_eq_true]
      exact ⟨by simp [nonempty], digits⟩
    have low : Int64.minValue.toInt ≤ (Nat.ofDigitChars 10 text.toList 0 : Int) :=
      Int.le_trans (by decide) (Int.natCast_nonneg _)
    unfold Decimal.int64?
    rw [number.splitSign]
    simp only [run, if_true, Bool.false_eq_true, if_false, low, true_and]
    rfl
  by_cases integer : IsInteger text.toList
  · have range := fits.1 integer
    unfold ofNumber?
    rw [if_neg point, read, if_pos range]
    refine .int integer ?_
    rw [Int64.toInt_ofInt_of_le (by omega) (by omega), value, Int.cast_natCast]
  · rw [if_neg (fits.not.1 integer)] at read
    exact of_scaled number (by rw [if_neg point, read]) integer
      (by rw [List.count_eq_zero.2 point]; decide) (digits.scaled?_eq nonempty)
      (by rw [value, pow_zero, div_one])

theorem of_point (number : Token.IsNumber text) (split : text.toList = w ++ '.' :: f)
    (nonempty : w ≠ []) (whole : Digits w) (fraction : Digits f) :
    Meant text.toList (ofNumber? text) := by
  have point : '.' ∈ text.toList := by simp [split]
  refine of_scaled number (if_pos point) (fun integer => integer.1 point) ?_
    (by rw [split, whole.scaled?_point nonempty fraction])
    (by rw [split, whole.value_point fraction])
  rw [split, List.count_append, List.count_cons_self, List.count_eq_zero.2 whole.not_mem,
    List.count_eq_zero.2 fraction.not_mem]

theorem of_points (number : Token.IsNumber text) {more : List Char}
    (split : text.toList = w ++ '.' :: (f ++ '.' :: more)) (whole : Digits w)
    (fraction : Digits f) : Meant text.toList (ofNumber? text) := by
  have point : '.' ∈ text.toList := by simp [split]
  unfold ofNumber?
  rw [if_pos point, number.ofText?_eq, split, whole.scaled?_points fraction]
  refine .refused (.inl ?_)
  rw [List.count_append, List.count_cons_self, List.count_append, List.count_cons_self]
  omega

end Meant

open Decimal (digits_or_point) in
/-- A number token has one of these meanings, which is the one it is read with. -/
theorem meant_ofNumber? {text : String} (number : Token.IsNumber text) :
    Meant text.toList (ofNumber? text) := by
  have ⟨c, cs, chars, digit, more⟩ := number
  have inside : ∀ d ∈ text.toList, Token.continuesNumber d := by
    rw [chars, List.forall_mem_cons]
    exact ⟨by simp [Token.continuesNumber, digit], more⟩
  rcases digits_or_point inside with digits | ⟨w, f, split, whole, inside⟩
  · exact .of_digits number (by rw [chars]; exact List.cons_ne_nil c cs) digits
  · have nonempty : w ≠ [] := by
      rintro rfl
      rw [chars, List.nil_append, List.cons.injEq] at split
      rw [split.1] at digit
      cases digit
    rcases digits_or_point inside with fraction | ⟨f, more, rfl, fraction, -⟩
    · exact .of_point number split nonempty whole fraction
    · exact .of_points number split whole fraction

end Literal

end CypherLang
