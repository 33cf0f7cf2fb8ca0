import FlowScript.Failure

/-! Binary operators. Integers have 64 bits and never wrap: a result outside of the range is a
failure. An integer beside a float counts as the nearest float. -/
namespace FlowScript

inductive BinaryOp where
  | add | sub | mul | div | mod | eq | ne | lt | le | gt | ge
  deriving DecidableEq, Repr

namespace BinaryOp

def all : List BinaryOp := [.add, .sub, .mul, .div, .mod, .eq, .ne, .lt, .le, .gt, .ge]

def name : BinaryOp → String
  | .add => "add" | .sub => "sub" | .mul => "mul" | .div => "div" | .mod => "mod"
  | .eq => "eq" | .ne => "ne" | .lt => "lt" | .le => "le" | .gt => "gt" | .ge => "ge"

def symbol : BinaryOp → String
  | .add => "+" | .sub => "-" | .mul => "*" | .div => "/" | .mod => "%"
  | .eq => "==" | .ne => "!=" | .lt => "<" | .le => "<=" | .gt => ">" | .ge => ">="

def ofName? (name : String) : Option BinaryOp := all.find? (·.name == name)

theorem ofName?_name (op : BinaryOp) : ofName? op.name = some op := by
  cases op <;> decide

end BinaryOp

namespace Value

/-- The integer, if 64 bits hold it. -/
def int64? (n : Int) : Option Int64 :=
  if Int64.minValue.toInt ≤ n ∧ n ≤ Int64.maxValue.toInt then some (Int64.ofInt n) else none

/-- The exact result of an operator on integers, where it has one. -/
def exactResult? : BinaryOp → Int → Int → Option Int
  | .add, a, b => some (a + b)
  | .sub, a, b => some (a - b)
  | .mul, a, b => some (a * b)
  | .div, a, b => some (Int.tdiv a b)
  | .mod, a, b => some (Int.tmod a b)
  | _, _, _ => none

def integerOverflow (op : BinaryOp) (a b : Int64) : Failure :=
  .plain Failure.typeMismatchKind
    ("Integer overflow in " ++ toString a.toInt ++ " " ++ op.symbol ++ " " ++ toString b.toInt)

/-- Whether the machine's remainder refuses the operands together with its quotient. -/
def quotientOverflows (a b : Int64) : Bool := a == Int64.minValue && b == -1

/-- Arithmetic on integers: exact or refused. -/
def integerArithmetic (op : BinaryOp) (a b : Int64) : Except Failure Value :=
  if (op = .div ∨ op = .mod) ∧ b = 0 then .error .divisionByZero
  else if op = .mod ∧ quotientOverflows a b then .error (integerOverflow op a b)
  else
    match (exactResult? op a.toInt b.toInt).bind int64? with
    | some r => .ok (.int r)
    | none => .error (integerOverflow op a b)

def float? : Value → Option Float
  | .int i => some (Decimal.ofInt64 i)
  | .float f => some f
  | _ => none

def floatArithmetic? : BinaryOp → Float → Float → Option Float
  | .add, a, b => some (a + b)
  | .sub, a, b => some (a - b)
  | .mul, a, b => some (a * b)
  | .div, a, b => some (a / b)
  | .mod, a, b => some (Decimal.remainder a b)
  | _, _, _ => none

def arithmetic (op : BinaryOp) (lhs rhs : Value) : Except Failure Value :=
  match lhs, rhs with
  | .int a, .int b => integerArithmetic op a b
  | _, _ =>
    match lhs.float?, rhs.float? with
    | some a, some b =>
      match floatArithmetic? op a b with
      | some r => .ok (.float r)
      | none => .error (.typeMismatch op.symbol lhs rhs)
    | _, _ => .error (.typeMismatch op.symbol lhs rhs)

/-- Equality across the two kinds of numbers. -/
def looselyEqual : Value → Value → Bool
  | .int a, .float b => Decimal.ofInt64 a == b
  | .float a, .int b => Decimal.ofInt64 b == a
  | a, b => a == b

/-- How two floats are ordered, unless one of them is no number. -/
def compareFloat? (a b : Float) : Option Ordering :=
  if a < b then some .lt else if a == b then some .eq else if b < a then some .gt else none

/-- Integers and strings among themselves and numbers at large have an order; no other values. -/
def compare? : Value → Value → Option Ordering
  | .int a, .int b => some (compare a.toInt b.toInt)
  | .str a, .str b => some (compare a b)
  | a, b =>
    match a.float?, b.float? with
    | some a, some b => compareFloat? a b
    | _, _ => none

def holds (op : BinaryOp) (o : Ordering) : Bool :=
  match op with
  | .lt => o == .lt
  | .le => o != .gt
  | .gt => o == .gt
  | _ => o != .lt

def comparison (op : BinaryOp) (lhs rhs : Value) : Except Failure Value :=
  match compare? lhs rhs with
  | some o => .ok (.bool (holds op o))
  | none => .error (.typeMismatch op.symbol lhs rhs)

/-- A string takes the text of any value at its end, a list any value as its last items. -/
def addition (lhs rhs : Value) : Except Failure Value :=
  match lhs, rhs with
  | .str a, b => .ok (.str (a ++ b.text))
  | .list as, .list bs => .ok (.list (as ++ bs))
  | .list as, b => .ok (.list (as ++ [b]))
  | a, b => arithmetic .add a b

end Value

/-- The value of an operator on two operands. -/
def BinaryOp.apply (op : BinaryOp) (lhs rhs : Value) : Except Failure Value :=
  match op with
  | .eq => .ok (.bool (lhs.looselyEqual rhs))
  | .ne => .ok (.bool (!lhs.looselyEqual rhs))
  | .lt | .le | .gt | .ge => Value.comparison op lhs rhs
  | .add => Value.addition lhs rhs
  | .sub | .mul | .div | .mod => Value.arithmetic op lhs rhs

end FlowScript
