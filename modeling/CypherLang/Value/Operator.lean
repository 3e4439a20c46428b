import CypherLang.Value
import CypherLang.Value.RuntimeError

namespace CypherLang

namespace Value

def unsuited (op : BinOp) (left right : Value) : RuntimeError :=
  .typeMismatch op.symbol left.kindName (some right.kindName)

/-- The integer as a value, if 64 bits hold it. -/
def ofInt? (n : Int) : Option Value :=
  if Int64.minValue.toInt ≤ n ∧ n ≤ Int64.maxValue.toInt then some (int (.ofInt n)) else none

/-- Integer arithmetic if both operands are integers and the result fits, and float arithmetic
otherwise. -/
def numeric (op : BinOp) (onInt : Int → Int → Int)
    (onFloat : Binary64 → Binary64 → Binary64) (left right : Value) : Except RuntimeError Value :=
  let exact :=
    match left, right with
    | int a, int b => ofInt? (onInt a.toInt b.toInt)
    | _, _ => none
  match exact with
  | some v => .ok v
  | none =>
    match left.toBinary64?, right.toBinary64? with
    | some x, some y => .ok (float (onFloat x y))
    | _, _ => .error (unsuited op left right)

def add (left right : Value) : Except RuntimeError Value :=
  match left, right with
  | text a, _ => .ok (text (a ++ right.display))
  | _, text b => .ok (text (left.display ++ b))
  | _, _ => numeric .add (· + ·) .add left right

/-- Division is always on floats. -/
def divide (left right : Value) : Except RuntimeError Value :=
  match left.toBinary64?, right.toBinary64? with
  | some x, some y => if y.isZero then .error .divisionByZero else .ok (float (x.div y))
  | _, _ => .error (unsuited .div left right)

/-- How two values compare: texts by code points, integers exactly, and an integer with a float as
floats. A NaN compares with nothing. -/
def order (op : BinOp) (left right : Value) : Except RuntimeError (Option Ordering) :=
  match left, right with
  | text a, text b => .ok (some (compare a b))
  | int a, int b => .ok (some (compare a.toInt b.toInt))
  | _, _ =>
    match left.toBinary64?, right.toBinary64? with
    | some x, some y => .ok (x.compare? y)
    | _, _ => .error (unsuited op left right)

def apply (op : BinOp) (left right : Value) : Except RuntimeError Value :=
  match op with
  | .add => add left right
  | .sub => numeric op (· - ·) .sub left right
  | .mul => numeric op (· * ·) .mul left right
  | .div => divide left right
  | .eq => .ok (bool (left.equal right))
  | .greater => (order op left right).map fun o => bool (o == some .gt)
  | .less => (order op left right).map fun o => bool (o == some .lt)

def minus : Value → Except RuntimeError Value
  | int n => .ok ((ofInt? (-n.toInt)).getD (float (Binary64.ofInt n.toInt).neg))
  | float x => .ok (float x.neg)
  | v => .error (.typeMismatch "-" v.kindName none)

end Value

end CypherLang
