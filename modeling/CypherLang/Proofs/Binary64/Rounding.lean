import CypherLang.Proofs.Binary64.Order

namespace CypherLang

namespace Magnitude

/-- The magnitude as a rational number. -/
def toRat (x : Magnitude) : ℚ := x.units / one

/-- What reaches this number is rounded to infinity: half way from the largest finite magnitude to
`2 ^ 1024`. -/
def limit : Nat := Nat.pow 2 1024 - Nat.pow 2 970

/-- The magnitude that `q` is rounded to: infinity from the limit on, and below it the finite one
nearest to `q`, of two that are equally near the one at an even position. -/
structure IsNearest (x : Magnitude) (q : ℚ) : Prop where
  infinite_iff : x.isInfinite ↔ (limit : ℚ) ≤ q
  near {y : Magnitude} : x.isInfinite = false → y.isInfinite = false →
    |x.toRat - q| ≤ |y.toRat - q|
  even {y : Magnitude} : x.isInfinite = false → y.isInfinite = false → y ≠ x →
    |y.toRat - q| = |x.toRat - q| → x.index % 2 = 0

/-- The number `x` is the nearer one of two if the middle between them does not lie on its side. -/
theorem abs_sub_le_of_middle {x y q : ℚ} (middle : y < x ∧ x + y ≤ 2 * q ∨ x < y ∧ 2 * q ≤ x + y) :
    |x - q| ≤ |y - q| ∧ (|y - q| = |x - q| → x + y = 2 * q) := by
  rcases middle with ⟨less, above⟩ | ⟨less, below⟩
  · rw [abs_of_neg (by linarith : y - q < 0)]
    refine ⟨abs_le.2 ⟨by linarith, by linarith⟩, fun same => ?_⟩
    rcases abs_cases (x - q) with ⟨eq, -⟩ | ⟨eq, -⟩ <;> linarith
  · rw [abs_of_pos (by linarith : 0 < y - q)]
    refine ⟨abs_le.2 ⟨by linarith, by linarith⟩, fun same => ?_⟩
    rcases abs_cases (x - q) with ⟨eq, -⟩ | ⟨eq, -⟩ <;> linarith

section Ratio

variable {num den : Nat}

theorem sum_eq_div (hd : 0 < den) (a b : Nat) :
    (a / one + b / one : ℚ) = ((a + b) * den : ℕ) / (one * den : ℕ) := by
  have one : (one : ℚ) ≠ 0 := Nat.cast_ne_zero.2 (Nat.ne_of_gt one_pos)
  have den : (den : ℚ) ≠ 0 := Nat.cast_ne_zero.2 (Nat.ne_of_gt hd)
  push_cast
  field_simp

theorem twice_eq_div (hd : 0 < den) (num : Nat) :
    (2 * (num / den) : ℚ) = (2 * (num * one) : ℕ) / (one * den : ℕ) := by
  have one : (one : ℚ) ≠ 0 := Nat.cast_ne_zero.2 (Nat.ne_of_gt one_pos)
  have den : (den : ℚ) ≠ 0 := Nat.cast_ne_zero.2 (Nat.ne_of_gt hd)
  push_cast
  field_simp

theorem scale_pos (hd : 0 < den) : (0 : ℚ) < (one * den : ℕ) :=
  Nat.cast_pos.2 (Nat.mul_pos one_pos hd)

theorem sum_le_twice_iff (hd : 0 < den) (a b num : Nat) :
    (a / one + b / one : ℚ) ≤ 2 * (num / den) ↔ (a + b) * den ≤ 2 * (num * one) := by
  rw [sum_eq_div hd, twice_eq_div hd, div_le_div_iff_of_pos_right (scale_pos hd), Nat.cast_le]

theorem twice_le_sum_iff (hd : 0 < den) (a b num : Nat) :
    (2 * (num / den) : ℚ) ≤ a / one + b / one ↔ 2 * (num * one) ≤ (a + b) * den := by
  rw [sum_eq_div hd, twice_eq_div hd, div_le_div_iff_of_pos_right (scale_pos hd), Nat.cast_le]

theorem toRat_lt {x y : Magnitude} (h : x.index < y.index) : x.toRat < y.toRat :=
  (div_lt_div_iff_of_pos_right (Nat.cast_pos.2 one_pos)).2 (Nat.cast_lt.2 (unitsAt_lt h))

/-- Of the finite magnitudes, one that attracts a ratio is the nearest to it. -/
theorem Attracts.near {x y : Magnitude} (h : Attracts x.index num den) (hd : 0 < den)
    (ne : y ≠ x) : |x.toRat - num / den| ≤ |y.toRat - num / den| ∧
      (|y.toRat - (num / den : ℚ)| = |x.toRat - num / den| → x.index % 2 = 0) := by
  have low := h.low
  have high := h.high
  have odd := h.odd
  have apart : y.index ≠ x.index := fun same => ne (eq_of_index same)
  rcases Nat.lt_or_gt_of_ne apart with below | above
  · have place : unitsAt y.index ≤ unitsAt (x.index - 1) := unitsAt_le (by omega)
    have middle : (x.units + y.units) * den ≤ (unitsAt (x.index - 1) + unitsAt x.index) * den :=
      Nat.mul_le_mul_right den (by unfold units; omega)
    obtain ⟨near, tie⟩ := abs_sub_le_of_middle (.inl ⟨toRat_lt below,
      (sum_le_twice_iff hd x.units y.units num).2 (middle.trans low)⟩)
    refine ⟨near, fun same => ?_⟩
    have exact := (twice_le_sum_iff hd x.units y.units num).1 (tie same).ge
    omega
  · have place : unitsAt (x.index + 1) ≤ unitsAt y.index := unitsAt_le above
    have middle : (unitsAt x.index + unitsAt (x.index + 1)) * den ≤ (x.units + y.units) * den :=
      Nat.mul_le_mul_right den (by unfold units; omega)
    obtain ⟨near, tie⟩ := abs_sub_le_of_middle (.inr ⟨toRat_lt above,
      (twice_le_sum_iff hd x.units y.units num).2 (high.trans middle)⟩)
    refine ⟨near, fun same => ?_⟩
    have exact := (sum_le_twice_iff hd x.units y.units num).1 (tie same).le
    omega

theorem limit_middle : unitsAt (top - 1) + unitsAt top = 2 * limit * one := by decide +kernel

theorem top_even : top % 2 = 0 := by decide

/-- What reaches the limit is attracted by the position of infinity or one beyond it. -/
theorem Attracts.top_le_iff {i : Nat} (h : Attracts i num den) (hd : 0 < den) :
    top ≤ i ↔ (limit : ℚ) ≤ num / den := by
  have middle : (unitsAt (top - 1) + unitsAt top) * den = 2 * (limit * den * one) := by
    rw [limit_middle]
    ring
  have reach : (limit : ℚ) ≤ num / den ↔
      (unitsAt (top - 1) + unitsAt top) * den ≤ 2 * (num * one) := by
    rw [middle, Nat.mul_le_mul_left_iff two_pos, Nat.mul_le_mul_right_iff one_pos,
      le_div_iff₀ (Nat.cast_pos.2 hd)]
    exact_mod_cast Iff.rfl
  rw [reach]
  constructor
  · intro beyond
    have below : unitsAt (top - 1) ≤ unitsAt (i - 1) := unitsAt_le (by omega)
    have here : unitsAt top ≤ unitsAt i := unitsAt_le beyond
    exact (Nat.mul_le_mul_right den (Nat.add_le_add below here)).trans h.low
  · intro reached
    by_contra inside
    by_cases last : i + 1 = top
    · have odd := (h.odd (by have := top_even; omega)).2
      rw [last, show i = top - 1 by omega] at odd
      omega
    · have below : unitsAt i ≤ unitsAt (top - 1) := unitsAt_le (by omega)
      have above : unitsAt (i + 1) < unitsAt top := unitsAt_lt (by omega)
      have less : (unitsAt i + unitsAt (i + 1)) * den < (unitsAt (top - 1) + unitsAt top) * den :=
        Nat.mul_lt_mul_of_pos_right (by omega) hd
      have high := h.high
      omega

theorem isInfinite_iff {x : Magnitude} : x.isInfinite ↔ top ≤ x.index := by
  have le := x.index_le_top
  rw [isInfinite, beq_iff_eq]
  omega

/-- Rounding gives the nearest magnitude. -/
theorem isNearest_nearest (num : Nat) (hd : 0 < den) :
    (nearest num den).IsNearest (num / den) := by
  have attracts := attracts_nearestIndex num hd
  have index : (nearest num den).index = min (nearestIndex num den) top := rfl
  have infinite : (nearest num den).isInfinite ↔ (limit : ℚ) ≤ num / den := by
    rw [isInfinite_iff, index, ← attracts.top_le_iff hd]
    omega
  have finite (h : (nearest num den).isInfinite = false) :
      Attracts (nearest num den).index num den := by
    have inside : ¬ top ≤ (nearest num den).index := by simp [← isInfinite_iff, h]
    rwa [index, Nat.min_eq_left (by omega)]
  refine ⟨infinite, fun {y} hx _ => ?_, fun hx _ ne same => ?_⟩
  · by_cases ne : y = nearest num den
    · rw [ne]
    · exact ((finite hx).near hd ne).1
  · exact ((finite hx).near hd ne).2 same

end Ratio

theorem toRat_nonneg (x : Magnitude) : 0 ≤ x.toRat :=
  div_nonneg (Nat.cast_nonneg _) (Nat.cast_nonneg _)

theorem toRat_eq_zero_iff {x : Magnitude} : x.toRat = 0 ↔ x = zero := by
  have one : (one : ℚ) ≠ 0 := Nat.cast_ne_zero.2 (Nat.ne_of_gt one_pos)
  rw [toRat, div_eq_zero_iff, or_iff_left one, Nat.cast_eq_zero, units_eq_zero_iff]
  exact ⟨eq_of_index (y := zero), fun h => by rw [h]; rfl⟩

theorem nearest_zero : nearest 0 1 = zero :=
  nearest_eq_of_units ((units_eq_zero_iff.2 rfl).trans (Nat.zero_mul one).symm)

end Magnitude

namespace Binary64

open Magnitude

/-- The factor that a sign stands for. -/
def sign (negative : Bool) : ℚ := if negative then -1 else 1

@[simp] theorem sign_false : sign false = 1 := rfl

@[simp] theorem sign_true : sign true = -1 := rfl

/-- A finite number as a rational one. -/
def toRat? : Binary64 → Option ℚ
  | nan => none
  | num s x => if x.isInfinite then none else some (sign s * x.toRat)

/-- The number that `q` is rounded to: it has the nearest magnitude, and the sign of `q` unless `q`
is zero. -/
def IsNearest : Binary64 → ℚ → Prop
  | nan, _ => False
  | num s x, q => x.IsNearest |q| ∧ (q ≠ 0 → s = decide (q < 0))

variable {x y : Binary64} {p q : ℚ}

theorem exists_of_toRat? (h : x.toRat? = some p) :
    ∃ s m, x = num s m ∧ m.isInfinite = false ∧ p = sign s * m.toRat := by
  cases x with
  | nan => cases h
  | num s m =>
    unfold toRat? at h
    cases finite : m.isInfinite with
    | true => simp [finite] at h
    | false => exact ⟨s, m, rfl, finite, by simpa [finite] using h.symm⟩

theorem signedUnits_div (s : Bool) (m : Magnitude) :
    (signedUnits s m : ℚ) / one = sign s * m.toRat := by
  cases s with
  | false =>
    change ((m.units : ℤ) : ℚ) / one = 1 * (m.units / one)
    rw [Int.cast_natCast, one_mul]
  | true =>
    change ((-m.units : ℤ) : ℚ) / one = -1 * (m.units / one)
    rw [Int.cast_neg, Int.cast_natCast, neg_div, neg_one_mul]

theorem isNearest_round {negative : Bool} {num den : Nat} (hd : 0 < den)
    (size : |q| = num / den) (sign : q ≠ 0 → negative = decide (q < 0)) :
    (round negative num den).IsNearest q := by
  refine ⟨?_, sign⟩
  rw [size]
  exact isNearest_nearest num hd

theorem isNearest_round_int (n : Int) {den : Nat} (hd : 0 < den) :
    (round (n < 0) n.natAbs den).IsNearest (n / den) := by
  have pos : (0 : ℚ) < den := Nat.cast_pos.2 hd
  refine isNearest_round hd ?_ fun _ => ?_
  · rw [abs_div, abs_of_pos pos, Nat.cast_natAbs, Int.cast_abs]
  · rw [decide_eq_decide, div_lt_iff₀ pos, zero_mul, Int.cast_lt_zero]

/-- An integer is converted to the nearest number. -/
theorem isNearest_ofInt (n : Int) : (ofInt n).IsNearest n := by
  have nearest := isNearest_round_int n Nat.one_pos
  rwa [Nat.cast_one, div_one] at nearest

theorem isNearest_zero (s : Bool) : (num s .zero).IsNearest 0 := by
  have nearest := isNearest_nearest 0 Nat.one_pos
  rw [nearest_zero, Nat.cast_zero, zero_div, ← abs_zero] at nearest
  exact ⟨nearest, fun ne => absurd rfl ne⟩

theorem rank?_zero (s : Bool) : (num s .zero).rank? = some 0 := by
  cases s <;> rfl

theorem isZero_iff_rank? : x.isZero ↔ x.rank? = some 0 := by
  rw [isZero, equal_iff, zero, rank?_zero]
  constructor
  · rintro ⟨i, here, ⟨⟩⟩
    exact here
  · exact fun here => ⟨0, here, rfl⟩

theorem isZero_iff : x.isZero ↔ ∃ s, x = num s .zero := by
  rw [isZero_iff_rank?]
  constructor
  · intro h
    cases x with
    | nan => cases h
    | num s m => exact ⟨s, congrArg (num s) (eq_of_rank?_eq (h.trans (rank?_zero s).symm)).1⟩
  · rintro ⟨s, rfl⟩
    exact rank?_zero s

/-- No other integer is rounded to zero. -/
theorem place_eq_zero_iff {n : Int} : place n = 0 ↔ n = 0 := by
  have above : 0 < place 1 := by decide +kernel
  have below : place (-1) < 0 := by decide +kernel
  constructor
  · intro zero
    by_contra other
    rcases Int.lt_or_gt_of_ne other with negative | positive
    · have order : place n ≤ place (-1) := place_le (by omega)
      omega
    · have order : place 1 ≤ place n := place_le (by omega)
      omega
  · rintro rfl
    decide +kernel

theorem toRat?_eq_zero_iff (h : x.toRat? = some p) : p = 0 ↔ x.isZero := by
  obtain ⟨s, m, rfl, -, rfl⟩ := exists_of_toRat? h
  rw [isZero_iff, mul_eq_zero, or_iff_right (by cases s <;> simp), Magnitude.toRat_eq_zero_iff]
  simp

theorem isZero_ofInt {n : Int} : (ofInt n).isZero ↔ n = 0 := by
  rw [isZero_iff_rank?, rank?_ofInt, Option.some.injEq, place_eq_zero_iff]

theorem isNearest_add (hx : x.toRat? = some p) (hy : y.toRat? = some q) :
    (x.add y).IsNearest (p + q) := by
  obtain ⟨s, m, rfl, finite, rfl⟩ := exists_of_toRat? hx
  obtain ⟨t, n, rfl, finite', rfl⟩ := exists_of_toRat? hy
  have sum : ((signedUnits s m + signedUnits t n : ℤ) : ℚ) / one =
      sign s * m.toRat + sign t * n.toRat := by
    rw [Int.cast_add, add_div, signedUnits_div, signedUnits_div]
  rw [← sum]
  unfold add
  dsimp only
  rw [if_neg (by simp [finite]), if_neg (by simp [finite'])]
  split
  next none =>
    rw [none, Int.cast_zero, zero_div]
    exact isNearest_zero _
  next => exact isNearest_round_int _ Magnitude.one_pos

theorem toRat?_neg (h : x.toRat? = some p) : x.neg.toRat? = some (-p) := by
  obtain ⟨s, m, rfl, finite, rfl⟩ := exists_of_toRat? h
  cases s <;> simp [neg, toRat?, finite]

theorem isNearest_sub (hx : x.toRat? = some p) (hy : y.toRat? = some q) :
    (x.sub y).IsNearest (p - q) := by
  rw [sub_eq_add_neg]
  exact isNearest_add hx (toRat?_neg hy)

/-- The sign of a product or a quotient. -/
theorem bne_eq_decide_sign {s t : Bool} {a : ℚ} (nonneg : 0 ≤ a)
    (ne : sign s * sign t * a ≠ 0) : (s != t) = decide (sign s * sign t * a < 0) := by
  have pos : 0 < a := lt_of_le_of_ne nonneg fun zero => ne (by rw [← zero, mul_zero])
  cases s <;> cases t <;> simp [pos, pos.le]

theorem abs_sign (s : Bool) : |sign s| = 1 := by
  cases s <;> simp

theorem isNearest_mul (hx : x.toRat? = some p) (hy : y.toRat? = some q) :
    (x.mul y).IsNearest (p * q) := by
  obtain ⟨s, m, rfl, finite, rfl⟩ := exists_of_toRat? hx
  obtain ⟨t, n, rfl, finite', rfl⟩ := exists_of_toRat? hy
  rw [mul_mul_mul_comm]
  unfold mul
  dsimp only
  rw [if_neg (by simp [finite, finite'])]
  refine isNearest_round (Nat.mul_pos Magnitude.one_pos Magnitude.one_pos) ?_
    (bne_eq_decide_sign (mul_nonneg m.toRat_nonneg n.toRat_nonneg))
  rw [abs_mul, abs_mul, abs_sign, abs_sign, one_mul, one_mul,
    abs_of_nonneg (mul_nonneg m.toRat_nonneg n.toRat_nonneg), Nat.cast_mul, Nat.cast_mul]
  exact div_mul_div_comm _ _ _ _

theorem isNearest_div (hx : x.toRat? = some p) (hy : y.toRat? = some q) (ne : q ≠ 0) :
    (x.div y).IsNearest (p / q) := by
  obtain ⟨s, m, rfl, finite, rfl⟩ := exists_of_toRat? hx
  obtain ⟨t, n, rfl, finite', rfl⟩ := exists_of_toRat? hy
  have nonzero : n ≠ .zero := by
    rintro rfl
    rw [toRat_eq_zero_iff.2 rfl, mul_zero] at ne
    exact ne rfl
  have units : 0 < n.units :=
    Nat.pos_of_ne_zero fun none => nonzero (eq_of_index (units_eq_zero_iff.1 none))
  have quotient : sign s * m.toRat / (sign t * n.toRat) =
      sign s * sign t * (m.toRat / n.toRat) := by
    cases s <;> cases t <;> simp [neg_div, div_neg]
  rw [quotient]
  unfold div
  dsimp only
  rw [if_neg (by simp [finite]), if_neg (by simp [finite']), if_neg nonzero]
  refine isNearest_round units ?_ (bne_eq_decide_sign (div_nonneg m.toRat_nonneg n.toRat_nonneg))
  rw [abs_mul, abs_mul, abs_sign, abs_sign, one_mul, one_mul,
    abs_of_nonneg (div_nonneg m.toRat_nonneg n.toRat_nonneg)]
  exact div_div_div_cancel_right₀ (Nat.cast_ne_zero.2 (Nat.ne_of_gt Magnitude.one_pos)) _ _

end Binary64

end CypherLang
