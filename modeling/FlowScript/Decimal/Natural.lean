/-! Natural numbers below a bound in decimal digits. -/
namespace FlowScript.Decimal

inductive NaturalError where
  | empty
  | invalidDigit
  | tooLarge
  deriving DecidableEq, Repr

def NaturalError.message : NaturalError → String
  | .empty => "cannot parse integer from empty string"
  | .invalidDigit => "invalid digit found in string"
  | .tooLarge => "number too large to fit in target type"

/-- One more digit. That it is a digit is looked at before the size. -/
def appendDigit (bound n : Nat) (c : Char) : Except NaturalError Nat :=
  if !c.isDigit then .error .invalidDigit
  else if 10 * n + (c.toNat - '0'.toNat) < bound then .ok (10 * n + (c.toNat - '0'.toNat))
  else .error .tooLarge

/-- Reads digits behind an optional plus sign. -/
def readNatural (bound : Nat) (s : String) : Except NaturalError Nat :=
  match s.toList with
  | [] => .error .empty
  | ['+'] => .error .invalidDigit
  | '+' :: digits | digits => digits.foldlM (appendDigit bound) 0

example : (readNatural UInt64.size "+18446744073709551615").toOption = some 18446744073709551615 := by
  decide +kernel
example : (readNatural UInt64.size "18446744073709551616").toOption = none := by decide +kernel
example : (readNatural UInt64.size "-1").toOption = none := by decide +kernel

end FlowScript.Decimal
