import CypherLang.Proofs.Syntax.Likeness
import CypherLang.Proofs.Syntax.Numbers

namespace CypherLang

namespace Parser

open Decimal (IsInteger IsRefused value)
open Literal (Meant meant_ofNumber?)

theorem answer_number (c : Cursor) : answer (number c) =
    (Literal.ofNumber? c.token.text).elim (.error (.invalidNumber c.token.text c.token.line))
      fun l => .ok (.literal l) := by
  unfold number
  rw [next_bind_eq]
  cases Literal.ofNumber? c.token.text <;> rfl

/-- Digits without a point that 64 bits hold are an integer, however many zeros they start with. Two
points are refused, and so is what rounding would take to infinity. Everything else is the float
nearest to it, which is finite and has no sign. -/
theorem number_exact {c : Cursor} (number : Token.IsNumber c.token.text) :
    let text := c.token.text
    let cs := text.toList
    (∀ n : Int64, answer (Parser.number c) = .ok (.literal (.int n)) ↔
      IsInteger cs ∧ n.toInt = value cs) ∧
    (IsInteger cs → ∃ n, answer (Parser.number c) = .ok (.literal (.int n))) ∧
    (∀ e, answer (Parser.number c) = .error e ↔
      IsRefused cs ∧ e = .invalidNumber text c.token.line) ∧
    (¬IsInteger cs → ¬IsRefused cs → ∃ m : Magnitude,
      answer (Parser.number c) = .ok (.literal (.float (.num false m))) ∧
        m.isInfinite = false ∧ m.IsNearest (value cs)) := by
  intro text cs
  have meant : Meant cs (Literal.ofNumber? text) := meant_ofNumber? number
  rw [answer_number]
  generalize Literal.ofNumber? c.token.text = literal at meant
  cases meant with
  | @int n integer exact =>
    refine ⟨fun m => ⟨?_, ?_⟩, fun _ => ⟨n, rfl⟩, fun e => ⟨nofun, fun refused => ?_⟩,
      fun other => absurd integer other⟩
    · rintro ⟨⟩
      exact ⟨integer, exact⟩
    · rintro ⟨-, same⟩
      rw [← exact, Int.cast_inj, Int64.toInt_inj] at same
      rw [same]
      rfl
    · exact absurd refused.1 integer.not_isRefused
  | @float m other accepted finite nearest =>
    exact ⟨fun n => ⟨nofun, fun integer => absurd integer.1 other⟩,
      fun integer => absurd integer other,
      fun e => ⟨nofun, fun refused => absurd refused.1 accepted⟩,
      fun _ _ => ⟨m, rfl, finite, nearest⟩⟩
  | refused refused =>
    have other : ¬IsInteger cs := fun integer => integer.not_isRefused refused
    refine ⟨fun n => ⟨nofun, fun integer => absurd integer.1 other⟩,
      fun integer => absurd integer other, fun e => ⟨?_, ?_⟩,
      fun _ accepted => absurd refused accepted⟩
    · rintro ⟨⟩
      exact ⟨refused, rfl⟩
    · rintro ⟨-, rfl⟩
      rfl

/-- Leading zeros, the first number that 64 bits do not hold, and two points. -/
theorem number_exact_boundaries :
    let here (text : String) : Cursor := ⟨[⟨.number, text, 4⟩], 4, 1, 0⟩
    Token.IsNumber "00000000000000000000007" ∧
      answer (number (here "00000000000000000000007")) = .ok (.literal (.int 7)) ∧
      (∃ m : Magnitude,
        answer (number (here "9223372036854775808")) = .ok (.literal (.float (.num false m))) ∧
          m.isInfinite = false ∧ m.IsNearest (2 ^ 63)) ∧
      answer (number (here "1.2.3")) = .error (.invalidNumber "1.2.3" 4) := by
  intro here
  have zeros : Token.IsNumber "00000000000000000000007" :=
    by simp [Token.IsNumber, Token.continuesNumber]
  have long : Token.IsNumber "9223372036854775808" :=
    by simp [Token.IsNumber, Token.continuesNumber]
  have points : Token.IsNumber "1.2.3" := by simp [Token.IsNumber, Token.continuesNumber]
  refine ⟨zeros, ?_, ?_, ?_⟩
  · refine ((number_exact (c := here "00000000000000000000007") zeros).1 7).2 ⟨⟨?_, ?_⟩, ?_⟩
    · decide
    · decide +kernel
    · decide +kernel
  · have value : value "9223372036854775808".toList = 2 ^ 63 := by decide +kernel
    have other : ¬IsInteger "9223372036854775808".toList := fun integer => by
      have := integer.2
      rw [value] at this
      norm_num at this
    have accepted : ¬IsRefused "9223372036854775808".toList := by
      rw [IsRefused, value]
      decide +kernel
    rw [← value]
    exact (number_exact (c := here "9223372036854775808") long).2.2.2 other accepted
  · exact ((number_exact (c := here "1.2.3") points).2.2.1 _).2 ⟨.inl (by decide), rfl⟩

end Parser

end CypherLang
