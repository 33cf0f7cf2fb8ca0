import FlowScript.Text.Utf8

/-! Percent encoding: a byte that may not stand for itself is written as `%` with two hexadecimal
digits. Which characters may stand for themselves depends on the place. -/
namespace FlowScript.Url

def hexDigit (n : Nat) : Char := if n < 10 then Char.ofNat (48 + n) else Char.ofNat (55 + n)

def hexValue? (b : UInt8) : Option UInt8 :=
  if 48 ≤ b && b ≤ 57 then some (b - 48)
  else if 65 ≤ b && b ≤ 70 then some (b - 55)
  else if 97 ≤ b && b ≤ 102 then some (b - 87)
  else none

def escapeByte (b : UInt8) : List Char := ['%', hexDigit (b.toNat / 16), hexDigit (b.toNat % 16)]

/-- Escapes the characters that `isEscaped` names. -/
def escape (isEscaped : Char → Bool) (s : String) : String :=
  String.ofList (s.toList.flatMap fun c =>
    if isEscaped c then (String.utf8EncodeChar c).flatMap escapeByte else [c])

/-- Undoes escapes; a `%` without two hexadecimal digits stands for itself. -/
def unescape : List UInt8 → List UInt8
  | 37 :: a :: b :: rest =>
    match hexValue? a, hexValue? b with
    | some high, some low => (16 * high + low) :: unescape rest
    | _, _ => 37 :: unescape (a :: b :: rest)
  | b :: rest => b :: unescape rest
  | [] => []

def isControl (c : Char) : Bool := c.toNat < 0x20 || 0x7E < c.toNat

def inFragment (c : Char) : Bool := isControl c || [' ', '"', '<', '>', '`'].contains c

def inQuery (c : Char) : Bool := isControl c || [' ', '"', '#', '<', '>'].contains c

def inPath (c : Char) : Bool := inFragment c || ['#', '?', '\x7b', '\x7d'].contains c

/-- A name that is to be one whole segment. -/
def inSegment (c : Char) : Bool := inPath c || ['/', '%', '\\'].contains c

def inUser (c : Char) : Bool :=
  inPath c || ['/', ':', ';', '=', '@', '[', '\\', ']', '^', '|'].contains c

example : escape inSegment "a b/ü%" = "a%20b%2F%C3%BC%25" := by decide +kernel
example : Text.decodeLossy (unescape "a%20%zz%C3%bc".toUTF8.toList) = "a %zzü" := by decide +kernel

end FlowScript.Url
