import CypherLang.Proofs.Binary64.Nearest

namespace CypherLang

namespace Magnitude

/-- Rounding keeps the order. -/
theorem nearest_le {num num' den : Nat} (h : num ≤ num') (hd : 0 < den) :
    (nearest num den).index ≤ (nearest num' den).index := by
  have order := (attracts_nearestIndex num' hd).not_lt (attracts_nearestIndex num hd) h hd
  change min (nearestIndex num den) top ≤ min (nearestIndex num' den) top
  omega

/-- The factor that makes an integer as large as the smallest one of 53 bits. -/
theorem mul_pow_bounds {n : Nat} (pos : n ≠ 0) (h : n ≤ 2 ^ 53) :
    binade ≤ n * 2 ^ (52 - n.log2) ∧ n * 2 ^ (52 - n.log2) ≤ 2 * binade := by
  have lower : 2 ^ n.log2 ≤ n := Nat.log2_self_le pos
  have upper : n < 2 ^ (n.log2 + 1) := Nat.lt_log2_self
  constructor
  · calc 2 ^ 52
      _ ≤ 2 ^ (n.log2 + (52 - n.log2)) := Nat.pow_le_pow_right (by decide) (by omega)
      _ = 2 ^ n.log2 * 2 ^ (52 - n.log2) := Nat.pow_add ..
      _ ≤ n * 2 ^ (52 - n.log2) := Nat.mul_le_mul_right _ lower
  · by_cases small : n.log2 ≤ 52
    · calc n * 2 ^ (52 - n.log2)
        _ ≤ 2 ^ (n.log2 + 1) * 2 ^ (52 - n.log2) := Nat.mul_le_mul_right _ (Nat.le_of_lt upper)
        _ = 2 ^ (n.log2 + 1 + (52 - n.log2)) := (Nat.pow_add ..).symm
        _ = 2 ^ 53 := by congr 1; omega
    · rw [Nat.sub_eq_zero_of_le (by omega), Nat.pow_zero, Nat.mul_one]
      exact h

theorem one_pos : 0 < one := by decide +kernel

theorem one_eq {k : Nat} (h : k = 1074) : one = 2 ^ k := by
  subst h
  decide +kernel

/-- The integers that 53 bits hold are magnitudes. -/
theorem exists_unitsAt {n : Nat} (h : n ≤ 2 ^ 53) : ∃ i < top, unitsAt i = n * one := by
  by_cases zero : n = 0
  · refine ⟨0, Nat.mul_pos (by decide) binade_pos, ?_⟩
    rw [zero, Nat.zero_mul]
    exact if_pos binade_pos
  · obtain ⟨lower, upper⟩ := mul_pow_bounds zero h
    obtain ⟨k, last⟩ : ∃ k, k = 1074 := ⟨1074, rfl⟩
    have place : (k - (52 - n.log2)) * binade ≤ k * binade := Nat.mul_le_mul_right _ (Nat.sub_le ..)
    have room : top = 1074 * binade + 2 * binade + 971 * binade := by
      rw [top, ← Nat.add_mul, ← Nat.add_mul]
    have positive := binade_pos
    refine ⟨(k - (52 - n.log2)) * binade + n * 2 ^ (52 - n.log2), ?_, ?_⟩
    · rw [last] at place ⊢
      omega
    · calc unitsAt ((k - (52 - n.log2)) * binade + n * 2 ^ (52 - n.log2))
        _ = n * 2 ^ (52 - n.log2) * 2 ^ (k - (52 - n.log2)) := unitsAt_shift (.inr lower) upper
        _ = n * (2 ^ (52 - n.log2) * 2 ^ (k - (52 - n.log2))) := Nat.mul_assoc ..
        _ = n * 2 ^ k := by rw [pow_mul_pow_sub 2 (by omega)]
        _ = n * one := by rw [one_eq last]

theorem nearest_eq_of_units {x : Magnitude} {n : Nat} (h : x.units = n * one) :
    nearest n 1 = x :=
  nearest_eq_of_attracts (.of_exact (h.symm.trans (Nat.mul_one _).symm) Nat.one_pos) Nat.one_pos

theorem units_eq_zero_iff {x : Magnitude} : x.units = 0 ↔ x.index = 0 := by
  constructor
  · intro none
    refine Nat.eq_zero_of_not_pos fun pos => ?_
    have less := unitsAt_lt pos
    change _ < x.units at less
    omega
  · intro first
    rw [units, first]
    exact if_pos binade_pos

theorem eq_of_index {x y : Magnitude} (h : x.index = y.index) : x = y := by
  cases x
  cases y
  cases h
  rfl

end Magnitude

namespace Binary64

theorem compare?_eq (x y : Binary64) :
    x.compare? y = x.rank?.bind fun i => y.rank?.map (compare i) := by
  unfold compare?
  cases x.rank? with
  | none => rfl
  | some i => cases y.rank? <;> rfl

theorem rank?_eq_none {x : Binary64} : x.rank? = none ↔ x = nan := by
  cases x with
  | nan => exact ⟨fun _ => rfl, fun _ => rfl⟩
  | num s x => exact ⟨nofun, nofun⟩

theorem compare?_eq_some {x y : Binary64} {o : Ordering} :
    x.compare? y = some o ↔ ∃ i j, x.rank? = some i ∧ y.rank? = some j ∧ compare i j = o := by
  simp only [compare?_eq, Option.bind_eq_some_iff, Option.map_eq_some_iff]
  constructor
  · rintro ⟨i, hx, j, hy, same⟩
    exact ⟨i, j, hx, hy, same⟩
  · rintro ⟨i, j, hx, hy, same⟩
    exact ⟨i, hx, j, hy, same⟩

/-- Numbers are equal if they have the same place. -/
theorem equal_iff {x y : Binary64} : x.equal y ↔ ∃ i, x.rank? = some i ∧ y.rank? = some i := by
  rw [equal, beq_iff_eq, compare?_eq_some]
  simp only [Int.compare_eq_eq]
  constructor
  · rintro ⟨i, _, hx, hy, rfl⟩
    exact ⟨i, hx, hy⟩
  · rintro ⟨i, hx, hy⟩
    exact ⟨i, i, hx, hy, rfl⟩

theorem compare?_swap (x y : Binary64) : y.compare? x = (x.compare? y).map .swap := by
  rw [compare?_eq, compare?_eq]
  cases x.rank? <;> cases y.rank? <;> try rfl
  exact congrArg some Std.OrientedOrd.eq_swap

theorem compare?_eq_none {x y : Binary64} : x.compare? y = none ↔ x = nan ∨ y = nan := by
  rw [compare?_eq, ← rank?_eq_none, ← rank?_eq_none]
  cases x.rank? <;> cases y.rank? <;> simp

theorem compare?_eq_lt {x y : Binary64} :
    x.compare? y = some .lt ↔ ∃ i j, x.rank? = some i ∧ y.rank? = some j ∧ i < j := by
  simp only [compare?_eq_some, Int.compare_eq_lt]

theorem ofInt_ne_nan (n : Int) : ofInt n ≠ nan := nofun

/-- The place of an integer, once it is rounded. -/
def place (n : Int) : Int :=
  if n < 0 then -((Magnitude.nearest n.natAbs 1).index : Int)
  else (Magnitude.nearest n.natAbs 1).index

theorem rank?_ofInt (n : Int) : (ofInt n).rank? = some (place n) := by
  unfold place
  by_cases negative : n < 0
  · rw [if_pos negative]
    exact congrArg some (if_pos (decide_eq_true negative))
  · rw [if_neg negative]
    exact congrArg some (if_neg (by simpa using negative))

theorem place_le {m n : Int} (h : m ≤ n) : place m ≤ place n := by
  have order {a b : Int} (le : a.natAbs ≤ b.natAbs) :
      (Magnitude.nearest a.natAbs 1).index ≤ (Magnitude.nearest b.natAbs 1).index :=
    Magnitude.nearest_le le Nat.one_pos
  unfold place
  split
  · split
    · have := @order n m (by omega)
      omega
    · omega
  · split
    · omega
    · have := @order m n (by omega)
      omega

theorem lt_of_place_lt {m n : Int} (h : place m < place n) : m < n :=
  Int.not_le.1 fun le => Int.not_le.2 h (place_le le)

/-- The number is exactly the integer `n`. -/
def IsInt : Binary64 → Int → Prop
  | nan, _ => False
  | num s x, n => x.isInfinite = false ∧ signedUnits s x = n * Magnitude.one

theorem units_eq_of_signedUnits {s : Bool} {x : Magnitude} {n : Int}
    (h : signedUnits s x = n * Magnitude.one) : x.units = n.natAbs * Magnitude.one := by
  have natAbs : (signedUnits s x).natAbs = x.units := by
    cases s <;> simp [signedUnits]
  rw [← natAbs, h, Int.natAbs_mul, Int.natAbs_natCast]

/-- A place belongs to one magnitude, and to one sign unless it is that of zero. -/
theorem eq_of_rank?_eq {s t : Bool} {x y : Magnitude}
    (h : (num s x).rank? = (num t y).rank?) : x = y ∧ signedUnits s x = signedUnits t y := by
  have places := Option.some.inj h
  by_cases signs : s = t
  · subst signs
    have same : x = y := Magnitude.eq_of_index (by cases s <;> simpa using places)
    exact ⟨same, by rw [same]⟩
  · have zeros : x.index = 0 ∧ y.index = 0 := by
      cases s <;> cases t <;> simp at signs places <;> omega
    have same : x = y := Magnitude.eq_of_index (zeros.1.trans zeros.2.symm)
    refine ⟨same, ?_⟩
    simp [signedUnits, Magnitude.units_eq_zero_iff.2 zeros.1, Magnitude.units_eq_zero_iff.2 zeros.2]

namespace IsInt

variable {x y : Binary64} {m n : Int}

theorem eq (h : x.IsInt m) (h' : x.IsInt n) : m = n := by
  have one : (Magnitude.one : Int) ≠ 0 := Int.natCast_ne_zero.2 (Nat.ne_of_gt Magnitude.one_pos)
  cases x with
  | nan => exact h.elim
  | num s x => exact Int.eq_of_mul_eq_mul_right one (h.2.symm.trans h'.2)

/-- A number that is an integer has the place of that integer. -/
theorem rank? (h : x.IsInt n) : x.rank? = some (place n) := by
  cases x with
  | nan => exact h.elim
  | num s x =>
    have one : (0 : Int) < Magnitude.one := Int.natCast_pos.2 Magnitude.one_pos
    have exact := h.2
    have nearest := Magnitude.nearest_eq_of_units (units_eq_of_signedUnits exact)
    unfold signedUnits at exact
    unfold Binary64.rank? place
    rw [nearest]
    by_cases negative : n < 0
    · have below : n * Magnitude.one < 0 := Int.mul_neg_of_neg_of_pos negative one
      cases s with
      | false =>
        simp only [Bool.false_eq_true, if_false] at exact
        omega
      | true => simp [negative]
    · have above : 0 ≤ n * (Magnitude.one : Int) := Int.mul_nonneg (by omega) (Int.le_of_lt one)
      cases s with
      | false => simp [negative]
      | true =>
        simp only [if_true] at exact
        have zero : x.index = 0 := Magnitude.units_eq_zero_iff.1 (by omega)
        simp [negative, zero]

/-- Numbers with the same place are the same integer, if they are any. -/
theorem of_rank? (h : x.IsInt n) (same : y.rank? = x.rank?) : y.IsInt n := by
  cases x with
  | nan => exact h.elim
  | num s x =>
    cases y with
    | nan => cases same
    | num t y =>
      obtain ⟨rfl, signed⟩ := eq_of_rank?_eq same
      exact ⟨h.1, signed.trans h.2⟩

end IsInt

/-- An integer that 53 bits hold is not changed by rounding. -/
theorem isInt_ofInt {n : Int} (h : n.natAbs ≤ 2 ^ 53) : (ofInt n).IsInt n := by
  obtain ⟨i, finite, units⟩ := Magnitude.exists_unitsAt h
  have nearest : Magnitude.nearest n.natAbs 1 = ⟨i, Nat.le_of_lt finite⟩ :=
    Magnitude.nearest_eq_of_units units
  unfold ofInt round
  rw [nearest]
  constructor
  · exact beq_eq_false_iff_ne.2 (Nat.ne_of_lt finite)
  · change (if decide (n < 0) then -(Magnitude.unitsAt i : Int) else Magnitude.unitsAt i) = _
    rw [units, Int.natCast_mul]
    by_cases negative : n < 0
    · have size : (n.natAbs : Int) = -n := Int.ofNat_natAbs_of_nonpos (Int.le_of_lt negative)
      rw [if_pos (decide_eq_true negative), size, Int.neg_mul, Int.neg_neg]
    · rw [if_neg (by simpa using negative), Int.natAbs_of_nonneg (Int.not_lt.1 negative)]

end Binary64

end CypherLang
