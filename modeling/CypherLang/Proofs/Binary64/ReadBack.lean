import CypherLang.Proofs.Binary64.Nearest
import CypherLang.Syntax.Grammar

namespace CypherLang

namespace Decimal

theorem isDigit_of_mem_toDigits {c : Char} {n : Nat} (h : c ∈ Nat.toDigits 10 n) : c.isDigit :=
  Nat.isDigit_of_mem_toDigits (by decide) (by decide) h

/-- The `k` digits of `n` after the point. -/
def fraction (n k : Nat) : List Char :=
  let digits := Nat.toDigits 10 (n % 10 ^ k)
  List.replicate (k - digits.length) '0' ++ digits

theorem toList_fixed (n k : Nat) :
    (fixed n k).toList = Nat.toDigits 10 (n / 10 ^ k) ++ '.' :: fraction n k := by
  simp [fixed, fraction, ← String.length_toList]

theorem isDigit_of_mem_fraction {n k : Nat} {c : Char} (h : c ∈ fraction n k) : c.isDigit := by
  obtain h | h := List.mem_append.1 h
  · rw [List.eq_of_mem_replicate h]
    decide
  · exact isDigit_of_mem_toDigits h

theorem length_fraction (n : Nat) {k : Nat} (hk : 0 < k) : (fraction n k).length = k := by
  have fits : (Nat.toDigits 10 (n % 10 ^ k)).length ≤ k := by
    rw [Nat.length_toDigits_le_iff (by decide) hk]
    exact Nat.mod_lt n (Nat.pow_pos (by decide))
  rw [fraction, List.length_append, List.length_replicate]
  omega

theorem ofDigitChars_fixed (n : Nat) {k : Nat} (hk : 0 < k) :
    Nat.ofDigitChars 10 (Nat.toDigits 10 (n / 10 ^ k) ++ fraction n k) 0 = n := by
  have value : Nat.ofDigitChars 10 (fraction n k) 0 = n % 10 ^ k := by
    simp [fraction, Nat.ofDigitChars_append]
  rw [Nat.ofDigitChars_append, Nat.ofDigitChars_ten_toDigits,
    Nat.ofDigitChars_eq_ofDigitChars_zero, value, length_fraction n hk]
  exact Nat.div_add_mod n (10 ^ k)

theorem scaled?_fixed (n : Nat) {k : Nat} (hk : 0 < k) :
    scaled? (fixed n k).toList = some ⟨n, -k⟩ := by
  have whole : ∀ c ∈ Nat.toDigits 10 (n / 10 ^ k), c.isDigit := fun c => isDigit_of_mem_toDigits
  have part : ∀ c ∈ fraction n k, c.isDigit := fun c => isDigit_of_mem_fraction
  have takeFraction : (fraction n k ++ []).takeWhile Char.isDigit = fraction n k ++ [] :=
    List.takeWhile_append_of_pos part
  have dropFraction : (fraction n k ++ []).dropWhile Char.isDigit = [] :=
    List.dropWhile_append_of_pos part
  rw [List.append_nil] at takeFraction dropFraction
  unfold scaled?
  rw [toList_fixed, List.takeWhile_append_of_pos whole, List.dropWhile_append_of_pos whole]
  simp [takeFraction, dropFraction, exponent?, Nat.toDigits_ne_nil, ofDigitChars_fixed n hk,
    length_fraction n hk]

/-- A text with a point is no word for a special value. -/
theorem ne_word_of_point {cs : List Char} (h : '.' ∈ cs) {word : String}
    (hw : '.' ∉ word.toList) : String.ofList (cs.map Char.toLower) ≠ word := by
  rintro rfl
  apply hw
  rw [String.toList_ofList]
  exact List.mem_map.2 ⟨'.', h, by decide⟩

theorem splitSign_of_isDigit {cs : List Char} (h : ∀ c ∈ cs.head?, c.isDigit) :
    splitSign cs = (false, cs) := by
  unfold splitSign
  split
  · exact absurd (h '-' rfl) (by decide)
  · exact absurd (h '+' rfl) (by decide)
  · rfl

theorem head?_toDigits_append {n : Nat} {cs : List Char} :
    ∀ c ∈ (Nat.toDigits 10 n ++ cs).head?, c.isDigit := by
  intro c hc
  cases h : Nat.toDigits 10 n with
  | nil => exact absurd h Nat.toDigits_ne_nil
  | cons d ds =>
    rw [h] at hc
    cases hc
    exact isDigit_of_mem_toDigits (n := n) (by simp [h])

theorem toList_toString {n : Int64} (h : 0 ≤ n.toInt) :
    (toString n.toInt).toList = Nat.toDigits 10 n.toInt.toNat := by
  obtain ⟨m, hm⟩ := Int.eq_ofNat_of_zero_le h
  rw [hm, Int.toNat_natCast]
  exact Nat.toList_repr

theorem int64?_toString {n : Int64} (h : 0 ≤ n.toInt) : int64? (toString n.toInt) = some n := by
  have first : ∀ c ∈ (Nat.toDigits 10 n.toInt.toNat ++ []).head?, c.isDigit :=
    head?_toDigits_append
  rw [List.append_nil] at first
  have digits : isDigits (Nat.toDigits 10 n.toInt.toNat) := by
    simp only [isDigits, Bool.and_eq_true, List.all_eq_true]
    exact ⟨by simp [Nat.toDigits_ne_nil], fun c => isDigit_of_mem_toDigits⟩
  have range : Int64.minValue.toInt ≤ n.toInt ∧ n.toInt ≤ Int64.maxValue.toInt :=
    ⟨n.minValue_le_toInt, n.toInt_le⟩
  unfold int64?
  rw [toList_toString h, splitSign_of_isDigit first]
  simp only [digits, Nat.ofDigitChars_ten_toDigits, Int.toNat_of_nonneg h, Bool.false_eq_true,
    if_true, if_false, if_pos range, Int64.ofInt_toInt]

end Decimal

namespace Magnitude

/-- The decimal chosen among those with `k` places rounds to the magnitude. -/
theorem attracts_of_decimalAt? {x : Magnitude} {k n : Nat} (h : x.decimalAt? k = some n) :
    Attracts x.index n (10 ^ k) := by
  rw [← attracts_iff]
  unfold decimalAt? at h
  dsimp only at h
  -- The chosen decimal is one of the two neighbours, whatever they are.
  generalize x.units * Nat.pow 10 k / one = below at h
  generalize x.units * Nat.pow 10 k % one = remainder at h
  generalize one = total at h
  split at h
  case h_1 lower upper =>
    cases h
    split
    · exact lower
    · exact upper
  case h_2 lower _ =>
    cases h
    exact lower
  case h_3 _ upper =>
    cases h
    exact upper
  case h_4 => cases h

/-- With 1074 places the decimal is exact. -/
theorem attracts_last (x : Magnitude) {k : Nat} (last : k = 1074) :
    Attracts x.index (x.units * 10 ^ k / one) (10 ^ k) := by
  have divides : one ∣ x.units * 10 ^ k := by
    unfold one
    rw [← last, show 10 = 2 * 5 from rfl, Nat.mul_pow, Nat.mul_left_comm]
    exact Nat.dvd_mul_right _ _
  exact .of_exact (Nat.div_mul_cancel divides) (Nat.pow_pos (by decide))

theorem fewestDecimals_eq_fixed (x : Magnitude) (fuel : Nat) : ∀ k, 0 < k → fuel + k = 1074 →
    ∃ n k', 0 < k' ∧ x.fewestDecimals fuel k = Decimal.fixed n k' ∧
      Attracts x.index n (10 ^ k') := by
  induction fuel with
  | zero =>
    intro k hk last
    exact ⟨_, k, hk, rfl, attracts_last x (by omega)⟩
  | succ fuel ih =>
    intro k hk last
    unfold fewestDecimals
    cases h : x.decimalAt? k with
    | some n => exact ⟨n, k, hk, rfl, attracts_of_decimalAt? h⟩
    | none => exact ih (k + 1) (Nat.succ_pos k) (by omega)

/-- A finite magnitude is written as a decimal that rounds to it. -/
theorem toText_eq_fixed {x : Magnitude} (finite : x.isInfinite = false) :
    ∃ n k, 0 < k ∧ x.toText = Decimal.fixed n k ∧ Attracts x.index n (10 ^ k) := by
  unfold toText
  rw [if_neg (by simp [finite])]
  split
  · have whole : x.units / one * one = x.units := Nat.div_mul_cancel (Nat.dvd_of_mod_eq_zero ‹_›)
    have exact : x.units / one * 10 * one = x.units * 10 ^ 1 := by
      rw [Nat.mul_right_comm, whole, Nat.pow_one]
    refine ⟨x.units / one * 10, 1, by decide, ?_, .of_exact exact (by decide)⟩
    apply String.toList_inj.1
    rw [Decimal.toList_fixed]
    simp [Decimal.fraction]
  · exact x.fewestDecimals_eq_fixed 1073 1 (by decide) rfl

end Magnitude

namespace Binary64

theorem ofScaled_eq (n k : Nat) :
    ofScaled false ⟨n, -k⟩ = .num false (.nearest n (10 ^ k)) := by
  unfold ofScaled
  dsimp only
  split
  next whole =>
    obtain rfl : k = 0 := by omega
    change num false (.nearest (n * 1) 1) = .num false (.nearest n 1)
    rw [Nat.mul_one]
  next =>
    rw [Int.neg_neg, Int.toNat_natCast]
    rfl

theorem ofText?_fixed (n : Nat) {k : Nat} (hk : 0 < k) :
    ofText? (Decimal.fixed n k) = some (.num false (.nearest n (10 ^ k))) := by
  have first : ∀ c ∈ (Decimal.fixed n k).toList.head?, c.isDigit := by
    rw [Decimal.toList_fixed]
    exact Decimal.head?_toDigits_append
  have point : '.' ∈ (Decimal.fixed n k).toList := by
    rw [Decimal.toList_fixed]
    simp
  unfold ofText?
  rw [Decimal.splitSign_of_isDigit first]
  dsimp only
  rw [if_neg (not_or.2 ⟨Decimal.ne_word_of_point point (by decide),
      Decimal.ne_word_of_point point (by decide)⟩),
    if_neg (Decimal.ne_word_of_point point (by decide)), Decimal.scaled?_fixed n hk,
    Option.map_some, ofScaled_eq]

/-- A finite magnitude reads back. -/
theorem ofText?_toText {x : Magnitude} (finite : x.isInfinite = false) :
    ofText? x.toText = some (.num false x) := by
  obtain ⟨n, k, hk, text, attracts⟩ := Magnitude.toText_eq_fixed finite
  rw [text, ofText?_fixed n hk, Magnitude.nearest_eq_of_attracts attracts (Nat.pow_pos (by decide))]

end Binary64

end CypherLang
