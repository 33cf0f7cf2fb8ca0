/-! Bytes as text. -/
namespace FlowScript.Text

/-- The character that stands for bytes that are no text. -/
def replacementChar : Char := '\uFFFD'

/-- What may follow the first byte of a character: the bounds of the second byte, and the number of
bytes after it. -/
def leadBounds? (lead : UInt8) : Option (UInt8 × UInt8 × Nat) :=
  if 0xC2 ≤ lead && lead ≤ 0xDF then some (0x80, 0xBF, 0)
  else if lead == 0xE0 then some (0xA0, 0xBF, 1)
  else if lead == 0xED then some (0x80, 0x9F, 1)
  else if 0xE1 ≤ lead && lead ≤ 0xEF then some (0x80, 0xBF, 1)
  else if lead == 0xF0 then some (0x90, 0xBF, 2)
  else if 0xF1 ≤ lead && lead ≤ 0xF3 then some (0x80, 0xBF, 2)
  else if lead == 0xF4 then some (0x80, 0x8F, 2)
  else none

/-- A character that has begun: the bits read, and what has to follow. -/
structure Begun where
  bits : Nat
  low : UInt8
  high : UInt8
  after : Nat

def begin? (lead : UInt8) : Option Begun :=
  (leadBounds? lead).map fun (low, high, after) =>
    ⟨lead.toNat % (32 >>> after), low, high, after⟩

/-- The text of bytes. A run of bytes that begins a character and does not end it becomes one
replacement character, as does every byte that begins none. -/
def decodeFrom : Option Begun → List UInt8 → List Char
  | none, [] => []
  | some _, [] => [replacementChar]
  | none, b :: rest =>
    if b < 0x80 then Char.ofNat b.toNat :: decodeFrom none rest
    else
      match begin? b with
      | none => replacementChar :: decodeFrom none rest
      | some begun => decodeFrom (some begun) rest
  | some begun, b :: rest =>
    if begun.low ≤ b && b ≤ begun.high then
      let bits := begun.bits * 64 + b.toNat % 64
      match begun.after with
      | 0 => Char.ofNat bits :: decodeFrom none rest
      | after + 1 => decodeFrom (some ⟨bits, 0x80, 0xBF, after⟩) rest
    else if b < 0x80 then replacementChar :: Char.ofNat b.toNat :: decodeFrom none rest
    else
      match begin? b with
      | none => replacementChar :: replacementChar :: decodeFrom none rest
      | some begun => replacementChar :: decodeFrom (some begun) rest

def decodeLossy (bytes : List UInt8) : String := String.ofList (decodeFrom none bytes)

example : decodeLossy "aé日😀".toUTF8.toList = "aé日😀" := by decide +kernel
example : decodeLossy [0x61, 0xFF, 0xE6, 0x97, 0x62] = "a\uFFFD\uFFFDb" := by decide +kernel

end FlowScript.Text
