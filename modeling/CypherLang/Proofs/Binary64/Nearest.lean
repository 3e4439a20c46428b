import Mathlib
import CypherLang.Binary64.Text

namespace CypherLang

/-- The quotient is rounded down up to the middle and up from there; the middle goes to the even
one of the two. -/
theorem divNearestEven_cases (a b : Nat) :
    (divNearestEven a b = a / b ∧ 2 * a ≤ (2 * (a / b) + 1) * b ∧
        (a / b % 2 = 1 → 2 * a < (2 * (a / b) + 1) * b)) ∨
      (divNearestEven a b = a / b + 1 ∧ (2 * (a / b) + 1) * b ≤ 2 * a ∧
        (a / b % 2 = 0 → (2 * (a / b) + 1) * b < 2 * a)) := by
  have whole := Nat.div_add_mod' a b
  have middle : (2 * (a / b) + 1) * b = 2 * (a / b * b) + b := by
    rw [Nat.add_mul, Nat.one_mul, Nat.mul_assoc]
  unfold divNearestEven
  rw [middle]
  dsimp only
  split
  · exact .inl ⟨rfl, by omega, by omega⟩
  · exact .inr ⟨rfl, by omega, by omega⟩

namespace Magnitude

theorem binade_pos : 0 < binade := Nat.pow_pos (by decide)

theorem binade_even : binade % 2 = 0 := by decide

/-- Within two binades the magnitudes are the multiples of one power of two. -/
theorem unitsAt_shift {s n : Nat} (h : s = 0 ∨ binade ≤ n) (hn : n ≤ 2 * binade) :
    unitsAt (s * binade + n) = n * Nat.pow 2 s := by
  have hb := binade_pos
  unfold unitsAt
  by_cases small : s * binade + n < binade
  · have hs : s = 0 := by
      obtain hs | hs := h
      · exact hs
      · omega
    subst hs
    rw [if_pos small]
    simp
  · rw [if_neg small]
    by_cases full : n = 2 * binade
    · have split : s * binade + n = binade * (s + 2) := by
        rw [full, Nat.mul_comm binade, Nat.add_mul]
      rw [split, Nat.mul_mod_right, Nat.mul_div_cancel_left _ hb, full]
      change (binade + 0) * 2 ^ (s + 1) = 2 * binade * 2 ^ s
      rw [Nat.pow_succ, Nat.add_zero, Nat.mul_comm 2, Nat.mul_assoc, Nat.mul_comm 2]
    · have low : binade ≤ n := by
        obtain rfl | hs := h
        · omega
        · exact hs
      have split : s * binade + n = n - binade + binade * (s + 1) := by
        rw [Nat.mul_comm binade, Nat.add_mul]
        omega
      rw [split, Nat.add_mul_mod_self_left, Nat.add_mul_div_left _ _ hb,
        Nat.mod_eq_of_lt (by omega), Nat.div_eq_of_lt (by omega), Nat.add_sub_cancel' low]
      congr 2
      omega

theorem exists_shift (i : Nat) :
    ∃ s n, i = s * binade + n ∧ n < 2 * binade ∧ (s = 0 ∨ binade ≤ n) := by
  have hb := binade_pos
  have whole := Nat.div_add_mod' i binade
  have rest := Nat.mod_lt i hb
  by_cases small : i < binade
  · exact ⟨0, i, by omega, by omega, .inl rfl⟩
  · have hq : 1 ≤ i / binade := (Nat.one_le_div_iff hb).2 (by omega)
    have split : (i / binade - 1) * binade + binade = i / binade * binade := by
      rw [← Nat.succ_mul]
      congr 1
      omega
    exact ⟨i / binade - 1, i % binade + binade, by omega, by omega, .inr (by omega)⟩

theorem unitsAt_lt_succ (i : Nat) : unitsAt i < unitsAt (i + 1) := by
  obtain ⟨s, n, rfl, hn, low⟩ := exists_shift i
  rw [Nat.add_assoc, unitsAt_shift low (by omega), unitsAt_shift (by omega) (by omega)]
  exact Nat.mul_lt_mul_of_pos_right (Nat.lt_succ_self n) (Nat.pow_pos (by decide))

theorem unitsAt_le {i j : Nat} (h : i ≤ j) : unitsAt i ≤ unitsAt j := by
  induction h with
  | refl => exact Nat.le_refl _
  | step _ ih => exact Nat.le_trans ih (Nat.le_of_lt (unitsAt_lt_succ _))

theorem unitsAt_lt {i j : Nat} (h : i < j) : unitsAt i < unitsAt j :=
  Nat.lt_of_lt_of_le (unitsAt_lt_succ i) (unitsAt_le h)

/-- The ratio `num / den` lies between the middles around a position, and on a middle only if the
position is even. -/
structure Attracts (i num den : Nat) : Prop where
  low : (unitsAt (i - 1) + unitsAt i) * den ≤ 2 * (num * one)
  high : 2 * (num * one) ≤ (unitsAt i + unitsAt (i + 1)) * den
  odd : i % 2 = 1 → (unitsAt (i - 1) + unitsAt i) * den < 2 * (num * one) ∧
    2 * (num * one) < (unitsAt i + unitsAt (i + 1)) * den

theorem attracts_iff {x : Magnitude} {num den : Nat} :
    x.attracts num den ↔ Attracts x.index num den := by
  unfold attracts units
  rw [Nat.mul_assoc 2 num]
  dsimp only
  split
  · rw [Bool.and_eq_true, decide_eq_true_eq, decide_eq_true_eq]
    exact ⟨fun h => ⟨h.1, h.2, by omega⟩, fun h => ⟨h.low, h.high⟩⟩
  · rw [Bool.and_eq_true, decide_eq_true_eq, decide_eq_true_eq]
    exact ⟨fun h => ⟨by omega, by omega, fun _ => h⟩, fun h => h.odd (by omega)⟩

namespace Attracts

variable {i j num den : Nat}

/-- A position does not attract a ratio if a later one attracts the same or a smaller ratio. -/
theorem not_lt {less : Nat} (hi : Attracts i num den) (hj : Attracts j less den) (le : less ≤ num)
    (hd : 0 < den) : ¬ i < j := by
  intro lt
  have below : unitsAt i ≤ unitsAt (j - 1) := unitsAt_le (by omega)
  have above : unitsAt (i + 1) ≤ unitsAt j := unitsAt_le lt
  have middles : (unitsAt i + unitsAt (i + 1)) * den ≤ (unitsAt (j - 1) + unitsAt j) * den :=
    Nat.mul_le_mul_right den (Nat.add_le_add below above)
  have ratios : less * one ≤ num * one := Nat.mul_le_mul_right one le
  have high := hi.high
  have low := hj.low
  by_cases next : j = i + 1
  · -- Neighbours share a middle, and one of the two is odd.
    have odd := hi.odd
    have odd' := hj.odd
    omega
  · have apart : unitsAt (i + 1) < unitsAt j := unitsAt_lt (by omega)
    have strict : (unitsAt i + unitsAt (i + 1)) * den < (unitsAt (j - 1) + unitsAt j) * den :=
      Nat.mul_lt_mul_of_pos_right (by omega) hd
    omega

theorem eq (hi : Attracts i num den) (hj : Attracts j num den) (hd : 0 < den) : i = j := by
  have := hi.not_lt hj (Nat.le_refl num) hd
  have := hj.not_lt hi (Nat.le_refl num) hd
  omega

/-- A magnitude attracts itself. -/
theorem of_exact (exact : num * one = unitsAt i * den) (hd : 0 < den) : Attracts i num den := by
  have twice : 2 * (num * one) = (unitsAt i + unitsAt i) * den := by
    rw [exact, Nat.add_mul]
    omega
  have next := unitsAt_lt_succ i
  have before : unitsAt (i - 1) ≤ unitsAt i := unitsAt_le (by omega)
  rw [← Nat.add_le_add_iff_right (n := unitsAt i)] at before
  refine ⟨?_, ?_, fun odd => ⟨?_, ?_⟩⟩
  · rw [twice]
    exact Nat.mul_le_mul_right den before
  · rw [twice]
    exact Nat.mul_le_mul_right den (by omega)
  · have before : unitsAt (i - 1) < unitsAt i := unitsAt_lt (by omega)
    rw [twice]
    exact Nat.mul_lt_mul_of_pos_right (by omega) hd
  · rw [twice]
    exact Nat.mul_lt_mul_of_pos_right (by omega) hd

end Attracts

/-- The shift brings the quotient between one binade and two, or keeps a smaller one whole. -/
theorem div_pow_shift (n : Nat) :
    n / 2 ^ (n.log2 - 52) < 2 * binade ∧ (n.log2 - 52 = 0 ∨ binade ≤ n / 2 ^ (n.log2 - 52)) := by
  have pos : 0 < 2 ^ (n.log2 - 52) := Nat.pow_pos (by decide)
  have upper : n < 2 ^ (n.log2 + 1) := Nat.lt_log2_self
  refine ⟨?_, ?_⟩
  · rw [Nat.div_lt_iff_lt_mul pos]
    change n < 2 * 2 ^ 52 * 2 ^ (n.log2 - 52)
    rw [← Nat.pow_add_one', ← Nat.pow_add]
    exact Nat.lt_of_lt_of_le upper (Nat.pow_le_pow_right (by decide) (by omega))
  · by_cases small : n.log2 - 52 = 0
    · exact .inl small
    · right
      rw [Nat.le_div_iff_mul_le pos]
      change 2 ^ 52 * 2 ^ (n.log2 - 52) ≤ n
      rw [← Nat.pow_add, Nat.add_sub_cancel' (by omega)]
      refine Nat.log2_self_le ?_
      rintro rfl
      exact small (by simp)

/-- The position at which `num / den` is rounded, before positions beyond infinity are cut off. -/
def nearestIndex (num den : Nat) : Nat :=
  let shift := (num * one / den).log2 - 52
  shift * binade + divNearestEven (num * one) (den * Nat.pow 2 shift)

theorem attracts_nearestIndex (num : Nat) {den : Nat} (hd : 0 < den) :
    Attracts (nearestIndex num den) num den := by
  unfold nearestIndex
  generalize hs : (num * one / den).log2 - 52 = s
  change Attracts (s * binade + divNearestEven (num * one) (den * 2 ^ s)) num den
  have pos : 0 < den * 2 ^ s := Nat.mul_pos hd (Nat.pow_pos (by decide))
  have units {i n : Nat} (h : unitsAt i = n * Nat.pow 2 s) :
      unitsAt i * den = n * (den * 2 ^ s) := by
    rw [h, Nat.mul_comm den, ← Nat.mul_assoc]
    rfl
  have bounds := div_pow_shift (num * one / den)
  rw [hs, Nat.div_div_eq_div_mul] at bounds
  obtain ⟨top, bottom⟩ := bounds
  have floor := Nat.div_mul_le_self (num * one) (den * 2 ^ s)
  have ceiling := Nat.lt_mul_div_succ (num * one) pos
  rw [Nat.mul_comm (den * 2 ^ s)] at ceiling
  have parity (n : Nat) : (s * binade + n) % 2 = n % 2 := by
    rw [Nat.add_mod, Nat.mul_mod, binade_even]
    omega
  have rounded := divNearestEven_cases (num * one) (den * 2 ^ s)
  generalize num * one / (den * 2 ^ s) = q at *
  have here := units (unitsAt_shift bottom (Nat.le_of_lt top))
  have above := units (unitsAt_shift (n := q + 1) (by omega) (by omega))
  rw [Nat.add_mul, Nat.one_mul] at above
  rw [← Nat.add_assoc] at above
  have middle : (2 * q + 1) * (den * 2 ^ s) = 2 * (q * (den * 2 ^ s)) + den * 2 ^ s := by
    rw [Nat.add_mul, Nat.one_mul, Nat.mul_assoc]
  rw [middle] at rounded
  rw [Nat.add_mul, Nat.one_mul] at ceiling
  obtain ⟨eq, le, lt⟩ | ⟨eq, le, lt⟩ := rounded
  · -- Rounded down: the ratio is not below the magnitude itself.
    rw [eq]
    have before : unitsAt (s * binade + q - 1) * den ≤ unitsAt (s * binade + q) * den :=
      Nat.mul_le_mul_right den (unitsAt_le (by omega))
    refine ⟨?_, ?_, fun odd => ⟨?_, ?_⟩⟩
    · rw [Nat.add_mul]
      omega
    · rw [Nat.add_mul]
      omega
    · have before : unitsAt (s * binade + q - 1) * den < unitsAt (s * binade + q) * den :=
        Nat.mul_lt_mul_of_pos_right (unitsAt_lt (by omega)) hd
      rw [Nat.add_mul]
      omega
    · have strict := lt (by rw [← parity]; exact odd)
      rw [Nat.add_mul]
      omega
  · -- Rounded up: the ratio is below the magnitude itself.
    rw [eq, ← Nat.add_assoc]
    have after : unitsAt (s * binade + q + 1) * den ≤ unitsAt (s * binade + q + 1 + 1) * den :=
      Nat.mul_le_mul_right den (unitsAt_le (by omega))
    refine ⟨?_, ?_, fun odd => ⟨?_, ?_⟩⟩
    · rw [Nat.add_sub_cancel, Nat.add_mul]
      omega
    · rw [Nat.add_mul]
      omega
    · have even : q % 2 = 0 := by
        rw [Nat.add_assoc, parity] at odd
        omega
      have strict := lt even
      rw [Nat.add_sub_cancel, Nat.add_mul]
      omega
    · rw [Nat.add_mul]
      omega

/-- Rounding gives the magnitude that attracts the ratio. -/
theorem nearest_eq_of_attracts {x : Magnitude} {num den : Nat} (h : Attracts x.index num den)
    (hd : 0 < den) : nearest num den = x := by
  have index : (nearest num den).index = min (nearestIndex num den) top := rfl
  rw [(attracts_nearestIndex num hd).eq h hd, Nat.min_eq_left x.index_le_top] at index
  generalize nearest num den = y at index
  cases x
  cases y
  cases index
  rfl

end Magnitude

end CypherLang
