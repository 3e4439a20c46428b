namespace CypherLang.Decimal

/-- An exponent written in digits; digits that follow a value of 65536 or more are ignored. -/
def exponentOfDigits (digits : List Char) : Nat :=
  digits.foldl (fun n c => if n < 65536 then 10 * n + (c.toNat - '0'.toNat) else n) 0

/-- A nonempty run of digits and nothing else. -/
def isDigits (cs : List Char) : Bool := !cs.isEmpty && cs.all Char.isDigit

/-- Splits off a leading sign; `true` stands for minus. -/
def splitSign : List Char → Bool × List Char
  | '-' :: cs => (true, cs)
  | '+' :: cs => (false, cs)
  | cs => (false, cs)

/-- The exponent after the digits of a decimal: nothing, or `e` and an integer. -/
def exponent? : List Char → Option Int
  | [] => some 0
  | c :: cs =>
    let (negative, digits) := splitSign cs
    if (c = 'e' ∨ c = 'E') ∧ isDigits digits then
      let e : Int := exponentOfDigits digits
      some (if negative then -e else e)
    else none

/-- A decimal as its digits and the power of ten that scales them. -/
structure Scaled where
  digits : Nat
  exponent : Int

/-- Reads `digits[.digits][exponent]` with a digit on at least one side of the point. -/
def scaled? (cs : List Char) : Option Scaled :=
  let whole := cs.takeWhile Char.isDigit
  let (fraction, rest) :=
    match cs.dropWhile Char.isDigit with
    | '.' :: r => (r.takeWhile Char.isDigit, r.dropWhile Char.isDigit)
    | r => ([], r)
  if whole.isEmpty && fraction.isEmpty then none
  else
    (exponent? rest).map fun e =>
      ⟨Nat.ofDigitChars 10 (whole ++ fraction) 0, e - fraction.length⟩

/-- The number `n / 10 ^ k` in decimal with exactly `k` digits after the point. -/
def fixed (n k : Nat) : String :=
  let fraction := toString (n % Nat.pow 10 k)
  let zeros := String.ofList (List.replicate (k - fraction.length) '0')
  toString (n / Nat.pow 10 k) ++ "." ++ zeros ++ fraction

/-- The 64-bit integer written by an optional sign and digits, if it is in range. -/
def int64? (text : String) : Option Int64 :=
  let (negative, digits) := splitSign text.toList
  if isDigits digits then
    let n : Int := Nat.ofDigitChars 10 digits 0
    let n := if negative then -n else n
    if Int64.minValue.toInt ≤ n ∧ n ≤ Int64.maxValue.toInt then some (Int64.ofInt n) else none
  else none

end CypherLang.Decimal
