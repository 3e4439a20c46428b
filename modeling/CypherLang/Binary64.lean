namespace CypherLang

/-- The quotient `a / b` rounded to the nearest natural, a tie to the even one. -/
def divNearestEven (a b : Nat) : Nat :=
  let q := a / b
  let twice := 2 * (a % b)
  if twice < b ∨ twice = b ∧ q % 2 = 0 then q else q + 1

/-- How many magnitudes there are from one power of two to the next. -/
def Magnitude.binade : Nat := Nat.pow 2 52

/-- The position of infinity: all positions below it hold finite magnitudes. -/
def Magnitude.top : Nat := 2047 * binade

/-- A nonnegative binary64 magnitude, given by its position in increasing order. -/
structure Magnitude where
  index : Nat
  index_le_top : index ≤ Magnitude.top
  deriving DecidableEq

namespace Magnitude

def zero : Magnitude := ⟨0, Nat.zero_le _⟩

def infinity : Magnitude := ⟨top, Nat.le_refl _⟩

/-- How often the least positive magnitude, `2 ^ -1074`, goes into 1. -/
def one : Nat := Nat.pow 2 1074

/-- The magnitude at a position as a multiple of the least positive one. -/
def unitsAt (index : Nat) : Nat :=
  if index < binade then index
  else (binade + index % binade) * Nat.pow 2 (index / binade - 1)

def units (x : Magnitude) : Nat := unitsAt x.index

def isInfinite (x : Magnitude) : Bool := x.index == top

/-- The magnitude nearest to `num / den`, a tie going to the even position and all that is too
large to infinity. -/
def nearest (num den : Nat) : Magnitude :=
  let units := num * one
  let shift := (units / den).log2 - 52
  ⟨min (shift * binade + divNearestEven units (den * Nat.pow 2 shift)) top, Nat.min_le_right _ _⟩

end Magnitude

/-- A binary64 number. Zero has two signs, and there is one NaN. -/
inductive Binary64
  | nan
  | num (negative : Bool) (magnitude : Magnitude)
  deriving DecidableEq

namespace Binary64

def zero : Binary64 := num false .zero

/-- The number nearest to `num / den` with the given sign. -/
def round (negative : Bool) (num den : Nat) : Binary64 :=
  .num negative (.nearest num den)

def ofInt (n : Int) : Binary64 := round (n < 0) n.natAbs 1

def isFinite : Binary64 → Bool
  | nan => false
  | num _ x => !x.isInfinite

def neg : Binary64 → Binary64
  | nan => nan
  | num s x => num (!s) x

/-- A signed magnitude as a multiple of the least positive one. -/
def signedUnits (negative : Bool) (x : Magnitude) : Int :=
  if negative then -(x.units : Int) else x.units

/-- An exact sum of zero is negative only if both terms are. -/
def add : Binary64 → Binary64 → Binary64
  | num s x, num t y =>
    if x.isInfinite then
      if y.isInfinite ∧ s ≠ t then nan else num s x
    else if y.isInfinite then num t y
    else
      let sum := signedUnits s x + signedUnits t y
      if sum = 0 then num (s && t) .zero else round (sum < 0) sum.natAbs Magnitude.one
  | _, _ => nan

def sub (x y : Binary64) : Binary64 := x.add y.neg

def mul : Binary64 → Binary64 → Binary64
  | num s x, num t y =>
    if x.isInfinite ∨ y.isInfinite then
      if x = .zero ∨ y = .zero then nan else num (s != t) .infinity
    else round (s != t) (x.units * y.units) (Magnitude.one * Magnitude.one)
  | _, _ => nan

def div : Binary64 → Binary64 → Binary64
  | num s x, num t y =>
    if x.isInfinite then
      if y.isInfinite then nan else num (s != t) x
    else if y.isInfinite then num (s != t) .zero
    else if y = .zero then
      if x = .zero then nan else num (s != t) .infinity
    else round (s != t) x.units y.units
  | _, _ => nan

/-- The place of a number in increasing order, both zeros at `0`; a NaN has none. -/
def rank? : Binary64 → Option Int
  | nan => none
  | num s x => some (if s then -(x.index : Int) else x.index)

/-- How two numbers compare; a NaN compares with nothing. -/
def compare? (x y : Binary64) : Option Ordering := do
  return compare (← x.rank?) (← y.rank?)

/-- Numeric equality: the zeros are equal, and a NaN equals nothing. -/
def equal (x y : Binary64) : Bool := x.compare? y == some .eq

def isZero (x : Binary64) : Bool := x.equal zero

end Binary64

end CypherLang
