import FlowScript.Decimal.Shortest

/-! Decimal digits as text: where the point stands, and when an exponent is written. -/
namespace FlowScript.Decimal

/-- How a decimal is laid out: which exponents of the first digit are written by position, what follows
the digits of a whole number, and which of two equally near decimals is written. -/
structure Layout where
  positional : Int → Bool
  wholeEnd : String
  tie : Tie

/-- Always by position, and a whole number has no point. -/
def Layout.plain : Layout := ⟨fun _ => true, "", .away⟩

/-- By position near one, and a whole number has one place. -/
def Layout.exponential : Layout := ⟨fun e => -5 ≤ e && e ≤ 15, ".0", .even⟩

def zeros (n : Nat) : List Char := List.replicate n '0'

/-- The digits with the point in its place. -/
def positionalText (wholeEnd : String) (d : Digits) : String :=
  let digits := (toString d.significand).toList
  let places := (-d.exponent).toNat
  if places = 0 then String.ofList (digits ++ zeros d.exponent.toNat) ++ wholeEnd
  else if places < digits.length then
    String.ofList (digits.take (digits.length - places) ++ '.' :: digits.drop (digits.length - places))
  else String.ofList ('0' :: '.' :: zeros (places - digits.length) ++ digits)

/-- One digit before the point, and the exponent with its sign. -/
def exponentText (first : Int) (d : Digits) : String :=
  let exponent := (if first < 0 then "e-" else "e+") ++ toString first.natAbs
  match (toString d.significand).toList with
  | [] => exponent
  | [c] => String.ofList [c] ++ exponent
  | c :: rest => String.ofList (c :: '.' :: rest) ++ exponent

def Layout.text (l : Layout) (d : Digits) : String :=
  let first := d.exponent + (toString d.significand).length - 1
  if l.positional first then positionalText l.wholeEnd d else exponentText first d

def signed (negative : Bool) (text : String) : String := if negative then "-" ++ text else text

/-- A finite double in the layout; of an infinite one and of no number there is no text here. -/
def Layout.render? (l : Layout) (f : Float) : Option String :=
  match datum f with
  | .finite negative x => some (signed negative (l.text (shortest l.tie x)))
  | _ => none

/-- The text of a double for a reader: never an exponent. -/
def display (f : Float) : String :=
  match datum f with
  | .nan => "NaN"
  | .infinite negative => signed negative "inf"
  | .finite negative x => signed negative (Layout.plain.text (shortest Layout.plain.tie x))

end FlowScript.Decimal
