import FlowScript.Decimal.Binary64

/-! The shortest decimal that reads back as a given double, and of those the one nearest to it. Where
two are equally near, a rule for ties decides.

The numbers that round to `m * 2 ^ q` form an interval, which has its ends when `m` is even. Grids of
powers of ten are tried from the coarsest: of a grid only the two neighbours of the double can lie in
the interval first. -/
namespace FlowScript.Decimal

/-- The number `significand * 10 ^ exponent`. -/
structure Digits where
  significand : Nat
  exponent : Int
  deriving DecidableEq, Repr

/-- Which of two decimals that are equally near is taken: the greater magnitude, or the one with an
even last digit. -/
inductive Tie where
  | away
  | even
  deriving DecidableEq, Repr

/-- Without zeros at the end of the significand; `fuel` bounds their number. -/
def Digits.stripped : Nat → Digits → Digits
  | 0, d => d
  | fuel + 1, d =>
    if d.significand ≠ 0 ∧ d.significand % 10 = 0
    then stripped fuel ⟨d.significand / 10, d.exponent + 1⟩
    else d

/-- A quarter of the last binary place of `x`, as a fraction of the grid step `10 ^ e`. -/
def quarterOverStep (x : Dyadic) (e : Int) : Nat × Nat :=
  (Nat.pow 10 (-e).toNat <<< (x.exponent - 2).toNat, Nat.pow 10 e.toNat <<< (2 - x.exponent).toNat)

/-- The quarters of a place from `x` to the lower end of its interval: below a power of two the
doubles lie twice as close. -/
def lowerGap (x : Dyadic) : Nat :=
  if x.significand = hidden ∧ x.exponent ≠ -1074 then 1 else 2

/-- Whether the grid point `k * 10 ^ e` rounds to `x`. -/
def reads (x : Dyadic) (e : Int) (k : Nat) : Bool :=
  let (num, den) := quarterOverStep x e
  let low := (4 * x.significand - lowerGap x) * num
  let high := (4 * x.significand + 2) * num
  let point := k * den
  if x.significand % 2 = 0 then low ≤ point && point ≤ high else low < point && point < high

/-- Whether of two neighbours on a grid the lower is taken, by their distances from the value. -/
def takesBelow (tie : Tie) (below toBelow toAbove : Nat) : Bool :=
  toBelow < toAbove || toBelow == toAbove && tie == .even && below % 2 == 0

/-- The point of the grid `10 ^ e` that rounds to `x` and is nearest to it. -/
def nearest? (tie : Tie) (x : Dyadic) (e : Int) : Option Nat :=
  let (num, den) := quarterOverStep x e
  let value := 4 * x.significand * num
  let below := value / den
  let above := below + 1
  match reads x e below, reads x e above with
  | true, true =>
    some (if takesBelow tie below (value - below * den) (above * den - value) then below else above)
  | true, false => some below
  | false, true => some above
  | false, false => none

/-- The first hit on the grids from `10 ^ e` downwards; after `fuel` grids all digits are given. -/
def firstHit (tie : Tie) (x : Dyadic) : Nat → Int → Digits
  | 0, _ => ⟨(x.significand <<< x.exponent.toNat) * Nat.pow 5 (-x.exponent).toNat, min x.exponent 0⟩
  | fuel + 1, e =>
    match nearest? tie x e with
    | some k => ⟨k, e⟩
    | none => firstHit tie x fuel (e - 1)

/-- An exponent of ten that is not below that of the first digit. -/
def topExponent (x : Dyadic) : Int :=
  (x.significand.log2 + 1 + x.exponent) * 30103 / 100000 + 1

/-- Seventeen digits tell all doubles apart, so twenty grids suffice. -/
def shortest (tie : Tie) (x : Dyadic) : Digits :=
  if x.significand = 0 then ⟨0, 0⟩ else (firstHit tie x 20 (topExponent x)).stripped 400

example : shortest .even ⟨0x1999999999999a, -56⟩ = ⟨1, -1⟩ := by decide +kernel
example : shortest .even ⟨1, -1074⟩ = ⟨5, -324⟩ := by decide +kernel
example : shortest .away ⟨7205759403792794, -3⟩ = ⟨9007199254740993, -1⟩ := by decide +kernel
example : shortest .even ⟨7205759403792794, -3⟩ = ⟨9007199254740992, -1⟩ := by decide +kernel

end FlowScript.Decimal
