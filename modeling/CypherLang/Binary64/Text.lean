import CypherLang.Binary64
import CypherLang.Decimal

namespace CypherLang

namespace Magnitude

/-- Whether the ratio `num / den` rounds to `x`: it lies between the middles of `x` and its two
neighbours, where a middle itself belongs to the even position. -/
def attracts (x : Magnitude) (num den : Nat) : Bool :=
  let twice := 2 * num * one
  let low := (unitsAt (x.index - 1) + x.units) * den
  let high := (x.units + unitsAt (x.index + 1)) * den
  if x.index % 2 = 0 then low ≤ twice && twice ≤ high else low < twice && twice < high

/-- Of the two decimals with `k` places around `x`, the one that rounds to `x`, written as a
multiple of `10 ^ -k`; the nearer one if both do, and the upper one if they are equally near. -/
def decimalAt? (x : Magnitude) (k : Nat) : Option Nat :=
  let scale := Nat.pow 10 k
  let below := x.units * scale / one
  let remainder := x.units * scale % one
  match x.attracts below scale, x.attracts (below + 1) scale with
  | true, true => some (if 2 * remainder < one then below else below + 1)
  | true, false => some below
  | false, true => some (below + 1)
  | false, false => none

/-- The first number of places from `k` on at which some decimal rounds to `x`. -/
def fewestDecimals (x : Magnitude) : (fuel k : Nat) → String
  | 0, k => Decimal.fixed (x.units * Nat.pow 10 k / one) k
  | fuel + 1, k =>
    match x.decimalAt? k with
    | some n => Decimal.fixed n k
    | none => x.fewestDecimals fuel (k + 1)

/-- With 1074 places every finite magnitude is written exactly, so the search ends there. -/
def toText (x : Magnitude) : String :=
  if x.isInfinite then "inf"
  else if x.units % one = 0 then toString (x.units / one) ++ ".0"
  else x.fewestDecimals 1073 1

end Magnitude

namespace Binary64

def ofScaled (negative : Bool) (d : Decimal.Scaled) : Binary64 :=
  if 0 ≤ d.exponent then round negative (d.digits * Nat.pow 10 d.exponent.toNat) 1
  else round negative d.digits (Nat.pow 10 (-d.exponent).toNat)

/-- Reads a signed decimal, `inf`, `infinity` or `nan`; the words in any case. -/
def ofText? (text : String) : Option Binary64 :=
  let (negative, cs) := Decimal.splitSign text.toList
  let word := String.ofList (cs.map Char.toLower)
  if word = "inf" ∨ word = "infinity" then some (num negative .infinity)
  else if word = "nan" then some nan
  else (Decimal.scaled? cs).map (ofScaled negative)

def toText : Binary64 → String
  | nan => "NaN"
  | num s x => (if s then "-" else "") ++ x.toText

end Binary64

end CypherLang
