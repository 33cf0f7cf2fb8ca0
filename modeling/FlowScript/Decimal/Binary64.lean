/-! Doubles as exact numbers: a finite double is a natural significand times a power of two. The
remainder of a division of doubles is computed on these numbers, so it is exact. -/
namespace FlowScript.Decimal

/-- The number `significand * 2 ^ exponent`. -/
structure Dyadic where
  significand : Nat
  exponent : Int
  deriving DecidableEq, Repr

inductive Datum where
  | nan
  | infinite (negative : Bool)
  | finite (negative : Bool) (magnitude : Dyadic)
  deriving DecidableEq, Repr

/-- The leading bit of a significand of full width, which is not among the bits of a double. -/
def hidden : Nat := 1 <<< 52

def Datum.ofBits (bits : UInt64) : Datum :=
  let n : Nat := bits.toNat
  let negative := n >>> 63 == 1
  let biased : Nat := (n >>> 52) % 2048
  let fraction : Nat := n % hidden
  if biased = 2047 then
    if fraction = 0 then .infinite negative else .nan
  else if biased = 0 then .finite negative ⟨fraction, -1074⟩
  else .finite negative ⟨fraction + hidden, (biased : Int) - 1075⟩

def datum (f : Float) : Datum := Datum.ofBits f.toBits

/-- The bits of a magnitude that a double can hold exactly. -/
def Dyadic.toBits (x : Dyadic) : Nat :=
  if x.significand = 0 then 0
  else
    let width := x.significand.log2 + 1
    let up := min (53 - width) (x.exponent + 1074).toNat
    let down := width - 53
    let m := (x.significand <<< up) >>> down
    let q := x.exponent - up + down
    if m < hidden then m else (q + 1075).toNat * hidden + (m - hidden)

def ofDyadic (negative : Bool) (x : Dyadic) : Float :=
  Float.ofBits (UInt64.ofNat ((if negative then 1 <<< 63 else 0) + x.toBits))

/-- The remainder of two magnitudes: the quotient is cut to a whole number. -/
def Dyadic.mod (a b : Dyadic) : Dyadic :=
  let q := min a.exponent b.exponent
  ⟨(a.significand <<< (a.exponent - q).toNat) % (b.significand <<< (b.exponent - q).toNat), q⟩

/-- The remainder of a division, with the sign of the dividend; of an infinite dividend or of a zero
divisor there is none. -/
def remainder (a b : Float) : Float :=
  match datum a, datum b with
  | .finite negative x, .finite _ y =>
    if y.significand = 0 then 0.0 / 0.0 else ofDyadic negative (x.mod y)
  | .finite .., .infinite _ => a
  | _, _ => 0.0 / 0.0

/-- The double nearest to an integer of 64 bits. -/
def ofInt64 (i : Int64) : Float :=
  if i < 0 then -(UInt64.ofNat i.toInt.natAbs).toFloat else (UInt64.ofNat i.toInt.natAbs).toFloat

end FlowScript.Decimal
