import FlowScript.Decimal.Layout
import FlowScript.Json.Basic

/-! The compact text of a tree: no blanks, fields in their order, and of a character only what must
be escaped is escaped. A float that is no finite number is written as null. -/
namespace FlowScript.Json

def hexDigit (n : Nat) : Char := if n < 10 then Char.ofNat (48 + n) else Char.ofNat (87 + n)

def escape (c : Char) : List Char :=
  if c = '"' then ['\\', '"']
  else if c = '\\' then ['\\', '\\']
  else if c = '\n' then ['\\', 'n']
  else if c = '\r' then ['\\', 'r']
  else if c = '\t' then ['\\', 't']
  else if c.toNat = 8 then ['\\', 'b']
  else if c.toNat = 12 then ['\\', 'f']
  else if c.toNat < 32 then ['\\', 'u', '0', '0', hexDigit (c.toNat / 16), hexDigit (c.toNat % 16)]
  else [c]

def quoted (s : String) : List Char := '"' :: (s.toList.flatMap escape ++ ['"'])

def Number.print : Number → List Char
  | .int i => (toString i).toList
  | .float f => ((Decimal.Layout.exponential.render? f).getD "null").toList

mutual

def print : Json → List Char
  | .null => "null".toList
  | .bool b => if b then "true".toList else "false".toList
  | .number n => n.print
  | .string s => quoted s
  | .array items _ => '[' :: (printItems items ++ [']'])
  | .object fields _ => '\x7b' :: (printFields fields ++ ['\x7d'])
  | .flawed _ => []

def printItems : List Json → List Char
  | [] => []
  | [j] => print j
  | j :: rest => print j ++ ',' :: printItems rest

def printFields : List (String × Json) → List Char
  | [] => []
  | [(key, j)] => quoted key ++ ':' :: print j
  | (key, j) :: rest => quoted key ++ ':' :: (print j ++ ',' :: printFields rest)

end

def text (j : Json) : String := String.ofList j.print

end FlowScript.Json
