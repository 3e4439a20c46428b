import CypherLang.Proofs.Value.Equality
import CypherLang.Value.Operator

namespace CypherLang

namespace Value

inductive IsNumber : Value → Prop
  | int (n : Int64) : IsNumber (int n)
  | float (x : Binary64) : IsNumber (float x)

/-- Both values are numbers, or both are texts. -/
inductive Comparable : Value → Value → Prop
  | numbers {l r : Value} (left : IsNumber l) (right : IsNumber r) : Comparable l r
  | texts (a b : String) : Comparable (text a) (text b)

/-- The values compare as `o` says, in either order and by equality. -/
structure Compares (l r : Value) (o : Option Ordering) : Prop where
  ordered : ∀ op, order op l r = .ok o
  swapped : ∀ op, order op r l = .ok (o.map .swap)
  equal_iff : l.equal r ↔ o = some .eq
  unordered_iff : o = none ↔ l = float .nan ∨ r = float .nan

variable {l r s : Value}

/-- Values that are compared by a total order. -/
theorem Compares.total {α : Type} [Ord α] [Std.OrientedOrd α] [Std.LawfulEqOrd α] {a b : α}
    (ordered : ∀ op, order op l r = .ok (some (compare a b)))
    (swapped : ∀ op, order op r l = .ok (some (compare b a))) (equal_iff : l.equal r ↔ a = b)
    (hl : l ≠ float .nan) (hr : r ≠ float .nan) : Compares l r (some (compare a b)) where
  ordered := ordered
  swapped op := by
    rw [swapped, Std.OrientedOrd.eq_swap]
    rfl
  equal_iff := by simp [equal_iff]
  unordered_iff := by simp [hl, hr]

/-- Values that are compared as floats. -/
theorem Compares.floats {x y : Binary64} (ordered : ∀ op, order op l r = .ok (x.compare? y))
    (swapped : ∀ op, order op r l = .ok (y.compare? x)) (equal : l.equal r = x.equal y)
    (hl : x = .nan ↔ l = float .nan) (hr : y = .nan ↔ r = float .nan) :
    Compares l r (x.compare? y) where
  ordered := ordered
  swapped op := by rw [swapped, Binary64.compare?_swap]
  equal_iff := by simp [equal, Binary64.equal]
  unordered_iff := by rw [Binary64.compare?_eq_none, hl, hr]

theorem Comparable.compares (h : l.Comparable r) : ∃ o, l.Compares r o := by
  have rounded (n : Int64) : Binary64.ofInt n.toInt = .nan ↔ int n = float .nan := by
    simp [Binary64.ofInt_ne_nan]
  have same (x : Binary64) : x = .nan ↔ float x = float .nan := by simp
  cases h with
  | texts a b => exact ⟨_, .total (fun _ => rfl) (fun _ => rfl) beq_iff_eq nofun nofun⟩
  | numbers left right =>
    cases left with
    | int m =>
      cases right with
      | int n =>
        have equal : equal (int m) (int n) ↔ m.toInt = n.toInt :=
          beq_iff_eq.trans Int64.toInt_inj.symm
        exact ⟨_, .total (fun _ => rfl) (fun _ => rfl) equal nofun nofun⟩
      | float y => exact ⟨_, .floats (fun _ => rfl) (fun _ => rfl) rfl (rounded m) (same y)⟩
    | float x =>
      cases right with
      | int n =>
        have equal := equal_comm (float (.ofInt n.toInt)) (float x)
        exact ⟨_, .floats (fun _ => rfl) (fun _ => rfl) equal (same x) (rounded n)⟩
      | float y => exact ⟨_, .floats (fun _ => rfl) (fun _ => rfl) rfl (same x) (same y)⟩

theorem toBinary64?_eq_none (h : ¬l.IsNumber) : l.toBinary64? = none := by
  cases l with
  | int n => exact absurd (.int n) h
  | float x => exact absurd (.float x) h
  | _ => rfl

theorem order_of_not_comparable {op : BinOp} (h : ¬l.Comparable r) :
    order op l r = .error (unsuited op l r) := by
  unfold order
  split
  · exact absurd (.texts ..) h
  · exact absurd (.numbers (.int _) (.int _)) h
  · by_cases left : l.IsNumber
    · rw [toBinary64?_eq_none fun right => h (.numbers left right)]
      split
      · contradiction
      · rfl
    · rw [toBinary64?_eq_none left]

/-- The values are in increasing order. Two integers may be so although rounding gives them the
same place. -/
inductive Less : Value → Value → Prop
  | texts {a b : String} (h : compare a b = .lt) : Less (text a) (text b)
  | ints {m n : Int64} (h : m.toInt < n.toInt) : Less (int m) (int n)
  | places {l r : Value} {i j : Int} (hl : l.key? = some (.number i))
      (hr : r.key? = some (.number j)) (h : i < j) : Less l r

theorem key?_eq_number {i : Int} (h : l.key? = some (.number i)) :
    (∃ n, l = int n ∧ Binary64.place n.toInt = i) ∨ ∃ x, l = float x ∧ x.rank? = some i := by
  cases l with
  | int n =>
    cases h
    exact .inl ⟨n, rfl, rfl⟩
  | float x =>
    obtain ⟨_, place, ⟨⟩⟩ := Option.map_eq_some_iff.1 h
    exact .inr ⟨x, rfl, place⟩
  | _ => cases h

theorem Less.order_eq {op : BinOp} (h : Less l r) : order op l r = .ok (some .lt) := by
  cases h with
  | texts h => exact congrArg (Except.ok <| some ·) h
  | ints h => exact congrArg (Except.ok <| some ·) (Int.compare_eq_lt.2 h)
  | places hl hr h =>
    obtain ⟨m, rfl, rfl⟩ | ⟨x, rfl, hx⟩ := key?_eq_number hl <;>
      obtain ⟨n, rfl, rfl⟩ | ⟨y, rfl, hy⟩ := key?_eq_number hr
    -- Two integers are not compared by their places, but these cannot be in the other order.
    · exact congrArg (Except.ok <| some ·) (Int.compare_eq_lt.2 (Binary64.lt_of_place_lt h))
    · exact congrArg Except.ok (Binary64.compare?_eq_lt.2 ⟨_, _, Binary64.rank?_ofInt _, hy, h⟩)
    · exact congrArg Except.ok (Binary64.compare?_eq_lt.2 ⟨_, _, hx, Binary64.rank?_ofInt _, h⟩)
    · exact congrArg Except.ok (Binary64.compare?_eq_lt.2 ⟨_, _, hx, hy, h⟩)

theorem less_of_order_eq {op : BinOp} (h : order op l r = .ok (some .lt)) : Less l r := by
  have floats {x y : Binary64} (hl : l.key? = x.rank?.map .number)
      (hr : r.key? = y.rank?.map .number) (h : x.compare? y = some .lt) : Less l r := by
    obtain ⟨i, j, hx, hy, less⟩ := Binary64.compare?_eq_lt.1 h
    rw [hx] at hl
    rw [hy] at hr
    exact .places hl hr less
  by_cases comparable : l.Comparable r
  · cases comparable with
    | texts a b => exact .texts (Option.some.inj (Except.ok.inj h))
    | numbers left right =>
      cases left with
      -- Only two integers are compared without rounding.
      | int m =>
        cases right with
        | int n => exact .ints (Int.compare_eq_lt.1 (Option.some.inj (Except.ok.inj h)))
        | float y => exact floats (key?_ofInt m) rfl (Except.ok.inj h)
      | float x =>
        cases right with
        | int n => exact floats rfl (key?_ofInt n) (Except.ok.inj h)
        | float y => exact floats rfl rfl (Except.ok.inj h)
  · rw [order_of_not_comparable comparable] at h
    cases h

theorem apply_less_iff : l.apply .less r = .ok (bool true) ↔ Less l r := by
  have truth : l.apply .less r = .ok (bool true) ↔ order .less l r = .ok (some .lt) := by
    simp only [apply]
    cases order .less l r <;> simp [Except.map]
  rw [truth]
  exact ⟨less_of_order_eq, Less.order_eq⟩

namespace Less

theorem irrefl : ¬Less l l
  | .texts h => by simp at h
  | .ints h => Int.lt_irrefl _ h
  | .places hl hr h => by
    cases hl.symm.trans hr
    exact Int.lt_irrefl _ h

-- Where an integer stands between an integer and a float, its exact order with the one becomes
-- that of their places, which may coincide; the step to the other is strict.
theorem trans (h : Less l r) (h' : Less r s) : Less l s := by
  cases h with
  | texts h =>
    cases h' with
    | texts h' => exact .texts (Std.TransCmp.lt_trans h h')
    | places hl => cases hl
  | ints h =>
    cases h' with
    | ints h' => exact .ints (Int.lt_trans h h')
    | places hl hr h' =>
      cases hl
      exact .places rfl hr (Int.lt_of_le_of_lt (Binary64.place_le (Int.le_of_lt h)) h')
  | places hl hr h =>
    cases h' with
    | texts => cases hr
    | ints h' =>
      cases hr
      exact .places hl rfl (Int.lt_of_lt_of_le h (Binary64.place_le (Int.le_of_lt h')))
    | places hl' hr' h' =>
      cases hr.symm.trans hl'
      exact .places hl hr' (Int.lt_trans h h')

end Less

/-- The operators of comparison answer as `o` says. -/
structure Answers (l r : Value) (o : Option Ordering) : Prop where
  less : l.apply .less r = .ok (bool (o == some .lt))
  eq : l.apply .eq r = .ok (bool (o == some .eq))
  greater : l.apply .greater r = .ok (bool (o == some .gt))
  swapped : r.apply .less l = .ok (bool (o == some .gt))
  unordered : o = none ↔ l = float .nan ∨ r = float .nan

theorem Compares.answers {o : Option Ordering} (h : l.Compares r o) : l.Answers r o where
  less := by simp only [apply, h.ordered, Except.map]
  eq := by
    have same : l.equal r = (o == some .eq) := by
      rw [Bool.eq_iff_iff, h.equal_iff, beq_iff_eq]
    simp only [apply, same]
  greater := by simp only [apply, h.ordered, Except.map]
  swapped := by
    simp only [apply, h.swapped, Except.map]
    cases o with
    | none => rfl
    | some o => cases o <;> rfl
  unordered := h.unordered_iff

structure OrderLaws (l r s : Value) : Prop where
  answers : l.Comparable r → ∃ o, l.Answers r o
  lessRefused : ¬l.Comparable r →
    l.apply .less r = .error (.typeMismatch "<" l.kindName (some r.kindName))
  greaterRefused : ¬l.Comparable r →
    l.apply .greater r = .error (.typeMismatch ">" l.kindName (some r.kindName))
  irrefl : l.apply .less l ≠ .ok (bool true)
  trans : l.apply .less r = .ok (bool true) → r.apply .less s = .ok (bool true) →
    l.apply .less s = .ok (bool true)

/-- Numbers compare with numbers and texts with texts, and nothing else does. Of values that
compare, exactly one of `<`, `==` and `>` holds, and none if one is a NaN; `<` and `>` are each
other's reverse. No value is less than itself, and `<` is transitive. -/
theorem order_laws (l r s : Value) : OrderLaws l r s where
  answers comparable := by
    obtain ⟨o, h⟩ := comparable.compares
    exact ⟨o, h.answers⟩
  lessRefused apart := by
    simp only [apply, order_of_not_comparable apart]
    rfl
  greaterRefused apart := by
    simp only [apply, order_of_not_comparable apart]
    rfl
  irrefl h := Less.irrefl (apply_less_iff.1 h)
  trans h h' := apply_less_iff.2 ((apply_less_iff.1 h).trans (apply_less_iff.1 h'))

/-- Past `2 ^ 53`, from an integer to an integer with a float between them. -/
theorem order_laws_mixed :
    (∃ o, apply .less (int (2 ^ 53 - 1)) (float (.ofInt (2 ^ 53))) =
      .ok (bool (o == some Ordering.lt)) ∧ o ≠ none) ∧
    apply .less (text "1") (int 1) = .error (.typeMismatch "<" "text" (some "int")) ∧
    apply .less (int (2 ^ 53 - 1)) (int (2 ^ 53 + 2)) = .ok (bool true) := by
  have key : key? (float (.ofInt (2 ^ 53))) = some (.number (Binary64.place (2 ^ 53))) :=
    congrArg (Option.map Key.number) (Binary64.rank?_ofInt (2 ^ 53))
  have below : Less (int (2 ^ 53 - 1)) (float (.ofInt (2 ^ 53))) :=
    .places rfl key (by decide +kernel)
  have above : Less (float (.ofInt (2 ^ 53))) (int (2 ^ 53 + 2)) :=
    .places key rfl (by decide +kernel)
  refine ⟨?_, ?_, ?_⟩
  · obtain ⟨o, answers⟩ :=
      (order_laws (int (2 ^ 53 - 1)) (float (.ofInt (2 ^ 53))) .null).answers
        (.numbers (.int _) (.float _))
    refine ⟨o, answers.less, fun none => ?_⟩
    rcases answers.unordered.1 none with ⟨⟨⟩⟩ | ⟨⟨⟩⟩
  · exact (order_laws (text "1") (int 1) .null).lessRefused nofun
  · exact (order_laws _ _ _).trans (apply_less_iff.2 below) (apply_less_iff.2 above)

end Value

end CypherLang
