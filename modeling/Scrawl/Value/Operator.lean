import Scrawl.Fault
import Scrawl.Token.Kind

/-!
# Value/Operator — operators on values

A compound assignment combines its operands as the operator it abbreviates, so both have the same
`Operation`.  Numbers of either sort mix: they compare exactly, and arithmetic with a double is done
in doubles.  Texts take any value on the right of a concatenation, and comparing a text with
another sort of value for equality is never an error.
-/

namespace Scrawl

/-- The six comparisons. -/
inductive Comparison where
  | less | greater | lessEqual | greaterEqual | equal | notEqual
deriving DecidableEq, Repr, Inhabited

/-- Whether a comparison holds of two things that compare as given; `none` stands for things that
do not compare. -/
def Comparison.holds : Comparison → Option Ordering → Bool
  | .less, o => o == some .lt
  | .greater, o => o == some .gt
  | .lessEqual, o => o == some .lt || o == some .eq
  | .greaterEqual, o => o == some .gt || o == some .eq
  | .equal, o => o == some .eq
  | .notEqual, o => o != some .eq

/-- What an operator does with two operands. -/
inductive Operation where
  | compare (c : Comparison)
  | add | subtract | multiply | divide | modulo
  | and | or
  | other
deriving DecidableEq, Repr, Inhabited

/-- **The operation of an operator**: a compound assignment has that of the operator in it. -/
def Kind.operation : Kind → Operation
  | .less => .compare .less
  | .greater => .compare .greater
  | .lessEqual => .compare .lessEqual
  | .greaterEqual => .compare .greaterEqual
  | .equal => .compare .equal
  | .notEqual => .compare .notEqual
  | .add | .assignAdd => .add
  | .subtract | .assignSubtract => .subtract
  | .multiply | .assignMultiply => .multiply
  | .divide | .assignDivide => .divide
  | .modulo | .assignModulo => .modulo
  | .and => .and
  | .or => .or
  | _ => .other

/-! ## Numbers -/

/-- A number of either sort. -/
inductive Number where
  | int (n : Int)
  | float (x : Float)

namespace Number

/-- The value of a number. -/
def toValue : Number → Value
  | .int n => .int n
  | .float x => .float x

/-- The sort of a number. -/
def sort (a : Number) : ValueSort := a.toValue.sort

/-- Zero of either sort. -/
def isZero : Number → Bool
  | .int n => n == 0
  | .float x => x == 0

/-- The nearest double. -/
def toFloat? : Number → Option Float
  | .int n => Double.ofInt? n
  | .float x => some x

/-- How two numbers compare, exactly. -/
def compare : Number → Number → Option Ordering
  | .int a, .int b => some (Ord.compare a b)
  | .int a, .float y => Double.compareInt a y
  | .float x, .int b => (Double.compareInt b x).map Ordering.swap
  | .float x, .float y => Double.compareFloats x y

/-- An operation on integers and on doubles; mixed numbers are doubles. -/
def combine (onInts : Int → Int → Int) (onFloats : Float → Float → Float) (a b : Number) :
    Except Fault Value :=
  match a, b with
  | .int m, .int n => .ok (.int (onInts m n))
  | _, _ =>
    match a.toFloat?, b.toFloat? with
    | some x, some y => .ok (.float (onFloats x y))
    | _, _ => .error (.number .tooLargeForFloat)

/-- **The quotient of two integers, rounded toward zero**: that of the absolute values, negative
where one of the two is. -/
def quotient (a b : Int) : Int :=
  let size : Int := (a.natAbs / b.natAbs : Nat)
  if a < 0 ↔ b < 0 then size else -size

/-- What the quotient leaves of the dividend. -/
def remainder (a b : Int) : Int := a - b * quotient a b

/-- **An operator between two numbers.**  Integer division rounds toward zero, and the remainder
goes with it. -/
def apply (kind : Kind) (a b : Number) : Except Fault Value :=
  match kind.operation with
  | .compare c => .ok (.bool (c.holds (a.compare b)))
  | .add => combine (· + ·) (· + ·) a b
  | .subtract => combine (· - ·) (· - ·) a b
  | .multiply => combine (· * ·) (· * ·) a b
  | .divide => if b.isZero then .error .divisionByZero else combine quotient (· / ·) a b
  | .modulo =>
    match a, b with
    | .int m, .int n => if n = 0 then .error .moduloByZero else .ok (.int (remainder m n))
    | _, _ => .error (.operands kind.symbol a.sort (some b.sort))
  | _ => .error (.operands kind.symbol a.sort (some b.sort))

end Number

/-! ## Values -/

namespace Value

/-- The number that a value is. -/
def number? : Value → Option Number
  | .int n => some (.int n)
  | .float x => some (.float x)
  | _ => none

/-- Two values that are the same text. -/
def sameText : Value → Value → Bool
  | .string s, .string t => s = t
  | _, _ => false

/-- An operator on one operand. -/
def applyUnary (kind : Kind) (v : Value) : Except Fault Value :=
  match kind, v with
  | .negative, .int n => .ok (.int (-n))
  | .increment, .int n => .ok (.int (n + 1))
  | .decrement, .int n => .ok (.int (n - 1))
  | .negative, .float x => .ok (.float (-x))
  | .increment, .float x => .ok (.float (x + 1))
  | .decrement, .float x => .ok (.float (x - 1))
  | .not, .bool b => .ok (.bool !b)
  | _, _ => .error (.operands kind.symbol v.sort none)

/-- An operator on two operands. -/
def applyBinary (kind : Kind) (v w : Value) : Except Fault Value :=
  let mismatch : Fault := .operands kind.symbol v.sort (some w.sort)
  match v with
  | .int _ | .float _ =>
    match v.number?, w.number? with
    | some a, some b => Number.apply kind a b
    | _, _ => .error mismatch
  | .string s =>
    match kind.operation with
    | .add => (Fault.ofNumber w.write).map fun t => .string (s ++ t)
    | .compare .equal => .ok (.bool (v.sameText w))
    | .compare .notEqual => .ok (.bool !v.sameText w)
    | _ => .error mismatch
  | .bool a =>
    match kind.operation, w with
    | .and, .bool b => .ok (.bool (a && b))
    | .or, .bool b => .ok (.bool (a || b))
    | .compare c, .bool b => .ok (.bool (c.holds (some (Ord.compare a b))))
    | _, _ => .error mismatch
  | .void => .error mismatch

/-- **An operator applied to its left operand and, if there is one, its right operand.**  An
assignment yields its right operand, whatever the left one is; a return yields its only one. -/
def apply (kind : Kind) (v : Value) : Option Value → Except Fault Value
  | none => if kind = .returnWord then .ok v else applyUnary kind v
  | some w => if kind = .assign then .ok w else applyBinary kind v w

end Value

end Scrawl
