import FlowScript.Json.Scalar
import FlowScript.Toml

/-! The smallest parts of a configuration text: strings of four kinds, numbers, dates and times. Each
reader gives what it read with the characters that follow, or nothing where the text is wrong. -/
namespace FlowScript.Toml

/-- What stands before the rest of a text. -/
def before (cs rest : List Char) : String := String.ofList (cs.take (cs.length - rest.length))

def isBlank (c : Char) : Bool := c == ' ' || c == '\t'

def skipBlank (cs : List Char) : List Char := cs.dropWhile isBlank

/-- The characters that may stand in a line as they are. -/
def isPlain (c : Char) : Bool := c == '\t' || (0x20 ≤ c.toNat && c.toNat ≠ 0x7F)

/-! ### Strings -/

def hexChar? (digits : List Char) : Option Char := do
  let n ← digits.foldlM (fun n c => (Json.hexValue? c).map (16 * n + ·)) 0
  if n.isValidChar then some (Char.ofNat n) else none

def escaped? : Char → Option Char
  | 'b' => some '\x08'
  | 't' => some '\t'
  | 'n' => some '\n'
  | 'f' => some '\x0c'
  | 'r' => some '\r'
  | '"' => some '"'
  | '\\' => some '\\'
  | _ => none

/-- Reads a string with escapes behind its quote; `read` holds its characters so far, the last first. -/
def scanBasic (read : List Char) : List Char → Option (String × List Char)
  | [] => none
  | '"' :: rest => some (String.ofList read.reverse, rest)
  | '\\' :: 'u' :: a :: b :: c :: d :: rest => do scanBasic ((← hexChar? [a, b, c, d]) :: read) rest
  | '\\' :: 'U' :: a :: b :: c :: d :: e :: f :: g :: h :: rest => do
    scanBasic ((← hexChar? [a, b, c, d, e, f, g, h]) :: read) rest
  | '\\' :: c :: rest => do scanBasic ((← escaped? c) :: read) rest
  | c :: rest => if isPlain c then scanBasic (c :: read) rest else none

/-- Reads a string without escapes behind its quote. -/
def scanLiteral (read : List Char) : List Char → Option (String × List Char)
  | [] => none
  | '\'' :: rest => some (String.ofList read.reverse, rest)
  | c :: rest => if isPlain c then scanLiteral (c :: read) rest else none

/-- Whether only blanks stand before the end of the line. -/
def endsLine (cs : List Char) : Bool :=
  match skipBlank cs with
  | '\n' :: _ | '\r' :: '\n' :: _ => true
  | _ => false

/-- Reads a string of several lines with escapes behind its three quotes; up to two more quotes at its
end are part of it. Behind a backslash that ends its line, blanks and line ends are skipped. -/
def scanBasicLines (read : List Char) (skipping : Bool) : List Char → Option (String × List Char)
  | [] => none
  | '"' :: '"' :: '"' :: '"' :: '"' :: rest => some (String.ofList ('"' :: '"' :: read).reverse, rest)
  | '"' :: '"' :: '"' :: '"' :: rest => some (String.ofList ('"' :: read).reverse, rest)
  | '"' :: '"' :: '"' :: rest => some (String.ofList read.reverse, rest)
  | '\\' :: 'u' :: a :: b :: c :: d :: rest => do
    scanBasicLines ((← hexChar? [a, b, c, d]) :: read) false rest
  | '\\' :: 'U' :: a :: b :: c :: d :: e :: f :: g :: h :: rest => do
    scanBasicLines ((← hexChar? [a, b, c, d, e, f, g, h]) :: read) false rest
  | '\\' :: c :: rest =>
    if endsLine (c :: rest) then scanBasicLines read true (c :: rest)
    else do scanBasicLines ((← escaped? c) :: read) false rest
  | '\r' :: '\n' :: rest => scanBasicLines (if skipping then read else '\n' :: read) skipping rest
  | c :: rest =>
    if skipping && (isBlank c || c == '\n') then scanBasicLines read true rest
    else if c == '\n' || isPlain c then scanBasicLines (c :: read) false rest
    else none

/-- Reads a string of several lines without escapes behind its three quotes. -/
def scanLiteralLines (read : List Char) : List Char → Option (String × List Char)
  | [] => none
  | '\'' :: '\'' :: '\'' :: '\'' :: '\'' :: rest =>
    some (String.ofList ('\'' :: '\'' :: read).reverse, rest)
  | '\'' :: '\'' :: '\'' :: '\'' :: rest => some (String.ofList ('\'' :: read).reverse, rest)
  | '\'' :: '\'' :: '\'' :: rest => some (String.ofList read.reverse, rest)
  | '\r' :: '\n' :: rest => scanLiteralLines ('\n' :: read) rest
  | c :: rest => if c == '\n' || isPlain c then scanLiteralLines (c :: read) rest else none

/-- A line end right behind three opening quotes is no part of the string. -/
def skipFirstLineEnd : List Char → List Char
  | '\n' :: rest | '\r' :: '\n' :: rest => rest
  | cs => cs

/-- Reads a string of any kind. -/
def scanString : List Char → Option (String × List Char)
  | '"' :: '"' :: '"' :: rest => scanBasicLines [] false (skipFirstLineEnd rest)
  | '"' :: rest => scanBasic [] rest
  | '\'' :: '\'' :: '\'' :: rest => scanLiteralLines [] (skipFirstLineEnd rest)
  | '\'' :: rest => scanLiteral [] rest
  | _ => none

/-! ### Numbers -/

/-- Digits behind the first ones, with single underscores between two of them. -/
def moreDigits (isDigit : Char → Bool) (read : List Char) : List Char → Option (List Char × List Char)
  | '_' :: c :: rest => if isDigit c then moreDigits isDigit (c :: read) rest else none
  | c :: rest =>
    if isDigit c then moreDigits isDigit (c :: read) rest
    else if c == '_' then none
    else some (read.reverse, c :: rest)
  | [] => some (read.reverse, [])

def scanDigits (isDigit : Char → Bool) : List Char → Option (List Char × List Char)
  | c :: rest => if isDigit c then moreDigits isDigit [c] rest else none
  | [] => none

/-- A whole number does not begin with a zero unless it is one. -/
def scanWhole : List Char → Option (List Char × List Char)
  | '0' :: rest => some (['0'], rest)
  | cs => scanDigits Char.isDigit cs

def scanFraction : List Char → Option (List Char × List Char)
  | '.' :: rest => scanDigits Char.isDigit rest
  | cs => some ([], cs)

def scanExponent : List Char → Option (Int × List Char)
  | c :: rest =>
    if c == 'e' || c == 'E' then do
      let (negative, digits) :=
        match rest with
        | '-' :: digits => (true, digits)
        | '+' :: digits => (false, digits)
        | digits => (false, digits)
      let (digits, rest) ← scanDigits Char.isDigit digits
      some (if negative then -Json.digitsValue digits else Json.digitsValue digits, rest)
    else some (0, c :: rest)
  | [] => some (0, [])

def isSigned64 (i : Int) : Bool := Int64.minValue.toInt ≤ i && i ≤ Int64.maxValue.toInt

/-- Reads a whole number of a base other than ten behind its mark. -/
def scanBased (base : Nat) (cs : List Char) : Option (Toml × List Char) := do
  let isDigit (c : Char) : Bool := (Json.hexValue? c).any (· < base)
  let (digits, rest) ← scanDigits isDigit cs
  let n := digits.foldl (fun n c => base * n + (Json.hexValue? c).getD 0) 0
  if isSigned64 n then some (.int n, rest) else none

/-- Reads a decimal number without its sign. A positive number with a fraction or an exponent has to be
near a double. -/
def scanDecimal (negative : Bool) (cs : List Char) : Option (Toml × List Char) := do
  let (whole, rest) ← scanWhole cs
  match rest with
  | '.' :: _ | 'e' :: _ | 'E' :: _ =>
    let (fraction, rest) ← scanFraction rest
    let (exponent, rest) ← scanExponent rest
    let near := Json.nearestDouble? (Json.digitsValue (whole ++ fraction)) (exponent - fraction.length)
    if near.isSome || negative then some (.float (before cs rest), rest) else none
  | _ =>
    let n : Int := if negative then -Json.digitsValue whole else Json.digitsValue whole
    if isSigned64 n then some (.int n, rest) else none

def scanMagnitude (negative : Bool) : List Char → Option (Toml × List Char)
  | 'i' :: 'n' :: 'f' :: rest => some (.float "inf", rest)
  | 'n' :: 'a' :: 'n' :: rest => some (.float "nan", rest)
  | cs => scanDecimal negative cs

def scanNumber : List Char → Option (Toml × List Char)
  | '0' :: 'x' :: rest => scanBased 16 rest
  | '0' :: 'o' :: rest => scanBased 8 rest
  | '0' :: 'b' :: rest => scanBased 2 rest
  | '+' :: rest => scanMagnitude false rest
  | '-' :: rest => scanMagnitude true rest
  | cs => scanMagnitude false cs

/-! ### Dates and times -/

/-- Two digits that make up at most `most`. -/
def twoDigits? (most : Nat) : List Char → Option (Nat × List Char)
  | a :: b :: rest =>
    let n := Json.digitsValue [a, b]
    if a.isDigit && b.isDigit && n ≤ most then some (n, rest) else none
  | _ => none

def expect (c : Char) : List Char → Option (List Char)
  | d :: rest => if d = c then some rest else none
  | [] => none

def daysIn (year month : Nat) : Nat :=
  if month = 2 then
    if year % 4 = 0 ∧ (year % 100 ≠ 0 ∨ year % 400 = 0) then 29 else 28
  else if month = 4 ∨ month = 6 ∨ month = 9 ∨ month = 11 then 30
  else 31

/-- Whether a year and a hyphen stand here. -/
def startsDate : List Char → Bool
  | a :: b :: c :: d :: '-' :: _ => a.isDigit && b.isDigit && c.isDigit && d.isDigit
  | _ => false

/-- Whether an hour and a colon stand here. -/
def startsTime (cs : List Char) : Bool :=
  match twoDigits? 23 cs with
  | some (_, ':' :: _) => true
  | _ => false

def skipDate (cs : List Char) : Option (List Char) := do
  let year := Json.digitsValue (cs.take 4)
  let (month, rest) ← twoDigits? 12 (cs.drop 5)
  let (day, rest) ← twoDigits? (daysIn year month) (← expect '-' rest)
  if month = 0 ∨ day = 0 then none else some rest

/-- Skips a time, whose minute may have a leap second. -/
def skipTime (cs : List Char) : Option (List Char) := do
  let (_, rest) ← twoDigits? 23 cs
  let (_, rest) ← twoDigits? 59 (← expect ':' rest)
  let (_, rest) ← twoDigits? 60 (← expect ':' rest)
  match rest with
  | '.' :: c :: rest => if c.isDigit then some (rest.dropWhile Char.isDigit) else none
  | rest => some rest

/-- Skips the distance from universal time, if it stands here. -/
def skipOffset : List Char → Option (List Char)
  | 'Z' :: rest | 'z' :: rest => some rest
  | '+' :: rest | '-' :: rest => do
    let (_, rest) ← twoDigits? 23 rest
    let (_, rest) ← twoDigits? 59 (← expect ':' rest)
    some rest
  | rest => some rest

/-- Skips a date with its time, if one follows. -/
def skipDateTime (cs : List Char) : Option (List Char) := do
  let rest ← skipDate cs
  match rest with
  | c :: time =>
    if (c == 'T' || c == 't' || c == ' ') && startsTime time then skipOffset (← skipTime time)
    else some rest
  | [] => some []

/-- Reads a date, a time or a number. -/
def scanDateOrNumber (cs : List Char) : Option (Toml × List Char) :=
  if startsDate cs then (skipDateTime cs).map fun rest => (.dateTime (before cs rest), rest)
  else if startsTime cs then (skipTime cs).map fun rest => (.dateTime (before cs rest), rest)
  else scanNumber cs

end FlowScript.Toml
