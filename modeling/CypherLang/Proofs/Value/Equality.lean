import CypherLang.Proofs.Binary64.Order
import CypherLang.Value

namespace CypherLang

namespace Value

/-- What is left of a value when its numbers are binary64 numbers. -/
inductive Key
  | number (place : Int)
  | text (s : String)
  | bool (b : Bool)
  | null
  | verse (id : Nat)
  | builtin (b : Builtin)

/-- The key of a value; a NaN has none. -/
def key? : Value → Option Key
  | int n => some (.number (Binary64.place n.toInt))
  | float x => x.rank?.map .number
  | text s => some (.text s)
  | bool b => some (.bool b)
  | null => some .null
  | verse f => some (.verse f.id)
  | builtin b => some (.builtin b)

/-- An integer has the key of the float that it is rounded to. -/
theorem key?_ofInt (n : Int64) :
    (int n).key? = (Binary64.ofInt n.toInt).rank?.map .number := by
  rw [Binary64.rank?_ofInt]
  rfl

/-- The values have the same key. -/
def Alike (u v : Value) : Prop := ∃ k, u.key? = some k ∧ v.key? = some k

variable {u v w : Value}

theorem Alike.symm (h : u.Alike v) : v.Alike u :=
  let ⟨k, left, right⟩ := h
  ⟨k, right, left⟩

theorem Alike.trans (h : u.Alike v) (h' : v.Alike w) : u.Alike w := by
  obtain ⟨k, left, middle⟩ := h
  obtain ⟨k', middle', right⟩ := h'
  cases middle.symm.trans middle'
  exact ⟨k, left, right⟩

theorem alike_self_iff : v.Alike v ↔ v ≠ float .nan := by
  have key : v.Alike v ↔ v.key? ≠ none := by
    simp [Alike, Option.ne_none_iff_exists']
  rw [key]
  cases v <;> simp [key?, Binary64.rank?_eq_none]

/-- Only a number has the key of an integer. -/
theorem Alike.number {n : Int64} (h : (int n).Alike v) :
    (∃ m, v = int m) ∨ ∃ x, v = float x := by
  obtain ⟨_, ⟨⟩, same⟩ := h
  cases v with
  | int m => exact .inl ⟨m, rfl⟩
  | float x => exact .inr ⟨x, rfl⟩
  | _ => cases same

/-- Equal values have the same key, and integers have to be the same. -/
theorem equal_iff : u.equal v ↔ u.Alike v ∧ ∀ m n, u = int m → v = int n → m = n := by
  cases u <;> cases v
  -- The only case in which the key is too coarse.
  case int.int =>
    simp only [equal, Alike, key?, beq_iff_eq, int.injEq]
    constructor
    · rintro rfl
      exact ⟨⟨_, rfl, rfl⟩, fun _ _ left right => left.symm.trans right⟩
    · exact fun h => h.2 _ _ rfl rfl
  case text.text | bool.bool | verse.verse | builtin.builtin =>
    simp only [equal, Alike, key?, beq_iff_eq]
    grind
  all_goals
    simp [equal, Alike, key?, Binary64.equal_iff, Binary64.rank?_ofInt]

theorem int_equal_float_iff {n : Int64} {x : Binary64} :
    (int n).equal (float x) ↔ x.rank? = some (Binary64.place n.toInt) := by
  rw [equal, Binary64.equal_iff, Binary64.rank?_ofInt]
  simp

theorem equal_self_iff : v.equal v ↔ v ≠ float .nan := by
  rw [equal_iff, alike_self_iff]
  refine and_iff_left ?_
  rintro m n rfl ⟨⟩
  rfl

theorem equal_comm (u v : Value) : u.equal v = v.equal u := by
  have swap {u v : Value} (h : u.equal v) : v.equal u := by
    obtain ⟨alike, same⟩ := equal_iff.1 h
    exact equal_iff.2 ⟨alike.symm, fun m n left right => (same n m right left).symm⟩
  exact Bool.eq_iff_iff.2 ⟨swap, swap⟩

/-- Only two integers with a float between them break a chain of equal values. -/
theorem equal_trans_iff (left : u.equal v) (right : v.equal w) :
    u.equal w ↔ ¬∃ m n x, u = int m ∧ v = float x ∧ w = int n ∧ m ≠ n := by
  obtain ⟨alike, same⟩ := equal_iff.1 left
  obtain ⟨alike', same'⟩ := equal_iff.1 right
  constructor
  · rintro h ⟨m, n, x, rfl, rfl, rfl, differ⟩
    exact differ ((equal_iff.1 h).2 m n rfl rfl)
  · refine fun unbroken => equal_iff.2 ⟨alike.trans alike', ?_⟩
    rintro m n rfl rfl
    obtain ⟨k, rfl⟩ | ⟨x, rfl⟩ := alike.number
    · exact (same m k rfl rfl).trans (same' k n rfl rfl)
    · exact Decidable.not_not.1 fun differ => unbroken ⟨m, n, x, rfl, rfl, rfl, differ⟩

/-- The value is no integer beyond `bound`. -/
def Within (bound : Nat) : Value → Prop
  | int n => n.toInt.natAbs ≤ bound
  | _ => True

theorem Within.mono {bound bound' : Nat} (h : v.Within bound) (le : bound ≤ bound') :
    v.Within bound' := by
  cases v with
  | int n => exact Nat.le_trans h le
  | _ => trivial

/-- A float that is an integer is equal to it. -/
theorem equal_of_isInt {n : Int64} {x : Binary64} (h : x.IsInt n.toInt) :
    (int n).equal (float x) :=
  int_equal_float_iff.2 h.rank?

/-- A float that an integer is equal to is that integer if rounding does not change the integer. -/
theorem isInt_iff_of_equal {n : Int64} {x : Binary64} (h : (int n).equal (float x)) :
    x.IsInt n.toInt ↔ (Binary64.ofInt n.toInt).IsInt n.toInt := by
  have same : x.rank? = (Binary64.ofInt n.toInt).rank? :=
    (int_equal_float_iff.1 h).trans (Binary64.rank?_ofInt n.toInt).symm
  exact ⟨fun exact => exact.of_rank? same.symm, fun exact => exact.of_rank? same⟩

theorem isInt_of_equal {n : Int64} {x : Binary64} (size : n.toInt.natAbs ≤ 2 ^ 53)
    (h : (int n).equal (float x)) : x.IsInt n.toInt :=
  (isInt_iff_of_equal h).2 (Binary64.isInt_ofInt size)

theorem equal_trans (hu : u.Within (2 ^ 53)) (hw : w.Within (2 ^ 53)) (left : u.equal v)
    (right : v.equal w) : u.equal w := by
  refine (equal_trans_iff left right).2 ?_
  rintro ⟨m, n, x, rfl, rfl, rfl, differ⟩
  have first : x.IsInt m.toInt := isInt_of_equal hu left
  have second : x.IsInt n.toInt := isInt_of_equal hw ((equal_comm ..).trans right)
  exact differ (Int64.toInt_inj.1 (first.eq second))

/-- The first integer that rounding changes is rounded to the one before it. -/
theorem exists_two_integers {bound : Nat} (h : 2 ^ 53 < bound) :
    ∃ m n x, m ≠ n ∧ (int m).Within bound ∧ (int n).Within bound ∧
      (int m).equal (float x) ∧ (float x).equal (int n) ∧ ¬x.IsInt m.toInt := by
  have exact := Binary64.isInt_ofInt (n := 2 ^ 53) (by decide)
  refine ⟨2 ^ 53 + 1, 2 ^ 53, .ofInt (2 ^ 53), by decide, ?_, ?_, ?_, ?_, ?_⟩
  · exact h
  · exact Nat.le_of_lt h
  · exact int_equal_float_iff.2 (by decide +kernel)
  · exact (equal_comm ..).trans (equal_of_isInt exact)
  · exact fun other => absurd (other.eq exact) (by decide)

structure EqualLaws (u v w : Value) (bound : Nat) : Prop where
  self : v.equal v ↔ v ≠ float .nan
  comm : u.equal v = v.equal u
  trans : u.equal v → v.equal w →
    (u.equal w ↔ ¬∃ m n x, u = int m ∧ v = float x ∧ w = int n ∧ m ≠ n)
  ofIsInt : ∀ n x, x.IsInt n.toInt → equal (int n) (float x)
  isInt : ∀ n x, equal (int n) (float x) →
    (x.IsInt n.toInt ↔ (Binary64.ofInt n.toInt).IsInt n.toInt)
  exactUpTo : (∀ n x, n.toInt.natAbs ≤ bound → equal (int n) (float x) → x.IsInt n.toInt) ↔
    bound ≤ 2 ^ 53
  transUpTo : (∀ u v w, Within bound u → Within bound v → Within bound w →
    u.equal v → v.equal w → u.equal w) ↔ bound ≤ 2 ^ 53

/-- A NaN is equal to nothing, equality is symmetric, and it is transitive but for two different
integers that are rounded to the same float. A float that is an integer is equal to it, and so is
another float if rounding changes the integer. That this does not happen, and that no chain breaks,
holds for the integers up to `2 ^ 53` and not for more. -/
theorem equal_laws (u v w : Value) (bound : Nat) : EqualLaws u v w bound where
  self := equal_self_iff
  comm := equal_comm u v
  trans := equal_trans_iff
  ofIsInt _ _ := equal_of_isInt
  isInt _ _ := isInt_iff_of_equal
  exactUpTo := by
    refine ⟨fun exact => Nat.not_lt.1 fun large => ?_, fun small n x size => ?_⟩
    · obtain ⟨m, _, x, -, size, -, left, -, other⟩ := exists_two_integers large
      exact other (exact m x size left)
    · exact isInt_of_equal (Nat.le_trans size small)
  transUpTo := by
    refine ⟨fun trans => Nat.not_lt.1 fun large => ?_, fun small u v w hu _ hw => ?_⟩
    · obtain ⟨m, n, x, differ, hm, hn, left, right, -⟩ := exists_two_integers large
      have broken := trans (int m) (float x) (int n) hm trivial hn left right
      exact differ ((equal_iff.1 broken).2 m n rfl rfl)
    · exact equal_trans (hu.mono small) (hw.mono small)

/-- The float `2 ^ 53` is equal to two integers that differ. -/
theorem equal_laws_two_integers :
    equal (int (2 ^ 53 + 1)) (float (.ofInt (2 ^ 53))) ∧
      equal (float (.ofInt (2 ^ 53))) (int (2 ^ 53)) ∧
      ¬equal (int (2 ^ 53 + 1)) (int (2 ^ 53)) := by
  have left : equal (int (2 ^ 53 + 1)) (float (.ofInt (2 ^ 53))) := by decide +kernel
  have right : equal (float (.ofInt (2 ^ 53))) (int (2 ^ 53)) := by decide +kernel
  refine ⟨left, right, fun h => ((equal_laws _ _ _ 0).trans left right).1 h ?_⟩
  exact ⟨2 ^ 53 + 1, 2 ^ 53, .ofInt (2 ^ 53), rfl, rfl, rfl, by decide⟩

end Value

end CypherLang
