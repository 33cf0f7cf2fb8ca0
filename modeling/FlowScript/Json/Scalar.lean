import FlowScript.Json.Basic

/-! The smallest parts of a JSON text: blanks, words, numbers and strings. Each reader takes the
characters of the text and gives what it read with the characters that follow. -/
namespace FlowScript.Json

/-- What comes of reading a part of a text: the part, with what follows it; a part that is there but
cannot be read, with what follows it; or a fault that ends all reading. -/
inductive Scan (α : Type) where
  | read (a : α) (rest : List Char)
  | unreadable (rest : List Char)
  | broken (flaw : Flaw) (fault : Fault)

/-- A fault that is the same for reading and skipping. -/
def Scan.fault (f : Fault) : Scan α := .broken (.ofFault f) f

def isSpace (c : Char) : Bool := c = ' ' || c = '\n' || c = '\t' || c = '\r'

def skipSpace (cs : List Char) : List Char := cs.dropWhile isSpace

/-- Reads the rest of a word. -/
def scanWord (word : List Char) (a : α) : List Char → Scan α := go word
where
  go : List Char → List Char → Scan α
    | [], cs => .read a cs
    | _ :: _, [] => .fault .truncated
    | w :: ws, c :: cs => if w = c then go ws cs else .fault .malformed

/-! ### Numbers -/

def digitValue (c : Char) : Nat := c.toNat - 48

def digitsValue (ds : List Char) : Nat := ds.foldl (fun n c => 10 * n + digitValue c) 0

/-- One digit or more. -/
def scanDigits (cs : List Char) : Scan (List Char) :=
  match cs.takeWhile Char.isDigit, cs with
  | [], [] => .fault .truncated
  | [], _ :: _ => .fault .malformed
  | ds, _ => .read ds (cs.dropWhile Char.isDigit)

/-- The whole part of a number: no zero stands before another digit. -/
def scanWhole (cs : List Char) : Scan (List Char) :=
  match scanDigits cs with
  | .read ('0' :: _ :: _) _ => .fault .malformed
  | s => s

/-- The places after the point; none where there is no point. -/
def scanFraction : List Char → Scan (List Char)
  | '.' :: cs => scanDigits cs
  | cs => .read [] cs

/-- The exponent with its sign; none where there is none. -/
def scanExponent : List Char → Scan (Option Int)
  | c :: cs =>
    if c = 'e' ∨ c = 'E' then
      let (negative, digits) :=
        match cs with
        | '-' :: ds => (true, ds)
        | '+' :: ds => (false, ds)
        | ds => (false, ds)
      match scanDigits digits with
      | .read ds rest =>
        .read (some (if negative then -(digitsValue ds : Int) else (digitsValue ds : Int))) rest
      | .unreadable rest => .unreadable rest
      | .broken flaw f => .broken flaw f
    else .read none (c :: cs)
  | [] => .read none []

/-- The double nearest to `significand * 10 ^ exponent`, if it is finite. Beyond 400 places the
exponent alone decides. -/
def nearestDouble? (significand : Nat) (exponent : Int) : Option Float :=
  let width : Int := significand.log2 / 3 + 1
  if significand = 0 ∨ exponent + width < -400 then some 0.0
  else if exponent > 400 then none
  else
    let f := Float.ofScientific significand (exponent < 0) exponent.natAbs
    if f.isFinite then some f else none

def negateIf (negative : Bool) (f : Float) : Float := if negative then -f else f

/-- The number that digits, places and exponent make up, unless no double is near it. -/
def number? (negative : Bool) (whole fraction : List Char) (exponent : Option Int) : Option Number :=
  let n := digitsValue whole
  if fraction = [] ∧ exponent = none ∧ !negative ∧ n < UInt64.size then some (.int n)
  else if fraction = [] ∧ exponent = none ∧ negative ∧ 0 < n ∧ Int64.minValue.toInt ≤ -n then
    some (.int (-n))
  else
    (nearestDouble? (digitsValue (whole ++ fraction)) (exponent.getD 0 - fraction.length)).map
      fun f => .float (negateIf negative f)

/-- The double of a number. -/
def Number.toFloat : Number → Float
  | .int i => negateIf (i < 0) (UInt64.ofNat i.natAbs).toFloat
  | .float f => f

/-- Reads a number without its sign. -/
def scanMagnitude (negative : Bool) (cs : List Char) : Scan Number :=
  match scanWhole cs with
  | .read whole cs =>
    match scanFraction cs with
    | .read fraction cs =>
      match scanExponent cs with
      | .read exponent rest =>
        match number? negative whole fraction exponent with
        | some n => .read n rest
        | none => .unreadable rest
      | .unreadable rest => .unreadable rest
      | .broken flaw f => .broken flaw f
    | .unreadable rest => .unreadable rest
    | .broken flaw f => .broken flaw f
  | .unreadable rest => .unreadable rest
  | .broken flaw f => .broken flaw f

def scanNumber : List Char → Scan Number
  | '-' :: cs => scanMagnitude true cs
  | cs => scanMagnitude false cs

/-! ### Strings -/

def hexValue? (c : Char) : Option Nat :=
  if c.isDigit then some (c.toNat - 48)
  else if 'a' ≤ c ∧ c ≤ 'f' then some (c.toNat - 87)
  else if 'A' ≤ c ∧ c ≤ 'F' then some (c.toNat - 55)
  else none

def hexUnit? (a b c d : Char) : Option Nat := do
  let a ← hexValue? a
  let b ← hexValue? b
  let c ← hexValue? c
  let d ← hexValue? d
  return ((a * 16 + b) * 16 + c) * 16 + d

/-- Why four hexadecimal digits do not stand here: the text counts as cut short when less than four
bytes are left. -/
def hexFault (cs : List Char) : Fault :=
  if (cs.take 4).foldl (fun size c => size + c.utf8Size) 0 < 4 then .truncated else .malformed

def unescape? : Char → Option Char
  | '"' => some '"'
  | '\\' => some '\\'
  | '/' => some '/'
  | 'b' => some '\x08'
  | 'f' => some '\x0c'
  | 'n' => some '\n'
  | 'r' => some '\r'
  | 't' => some '\t'
  | _ => none

/-- Skips to behind the closing quote. -/
def skipString : List Char → Except Fault (List Char)
  | [] => .error .truncated
  | '"' :: rest => .ok rest
  | '\\' :: 'u' :: a :: b :: c :: d :: rest =>
    if (hexUnit? a b c d).isSome then skipString rest else .error (hexFault (a :: b :: c :: d :: rest))
  | '\\' :: 'u' :: rest => .error (hexFault rest)
  | ['\\'] => .error .truncated
  | '\\' :: c :: rest => if (unescape? c).isSome then skipString rest else .error .malformed
  | c :: rest => if c.toNat < 32 then .error .malformed else skipString rest

/-- A string with half a surrogate pair; `rest` follows the half. -/
def halfPair (reading : Fault) (rest : List Char) : Scan String :=
  match skipString rest with
  | .ok rest => .unreadable rest
  | .error f => .broken ⟨reading, some f⟩ f

/-- What a high surrogate is followed by, if not by a low one: a text that ends is cut short. -/
def secondHalfFault : List Char → Fault
  | [] => .truncated
  | ['\\'] => .truncated
  | '\\' :: 'u' :: rest =>
    match rest with
    | a :: b :: c :: d :: _ => if (hexUnit? a b c d).isSome then .malformed else hexFault rest
    | _ => hexFault rest
  | _ => .malformed

def isHighSurrogate (n : Nat) : Bool := 0xD800 ≤ n && n ≤ 0xDBFF

def isLowSurrogate (n : Nat) : Bool := 0xDC00 ≤ n && n ≤ 0xDFFF

def pairedChar (high low : Nat) : Char := Char.ofNat ((high - 0xD800) * 1024 + (low - 0xDC00) + 0x10000)

/-- Reads a string behind its opening quote; `before` holds its characters so far, the last first. -/
def scanString (before : List Char) : List Char → Scan String
  | [] => .fault .truncated
  | '"' :: rest => .read (String.ofList before.reverse) rest
  | '\\' :: 'u' :: a :: b :: c :: d :: '\\' :: 'u' :: e :: f :: g :: h :: rest =>
    match hexUnit? a b c d with
    | none => .fault (hexFault [a, b, c, d])
    | some n =>
      if isLowSurrogate n then halfPair .malformed ('\\' :: 'u' :: e :: f :: g :: h :: rest)
      else if isHighSurrogate n then
        match hexUnit? e f g h with
        | some m =>
          if isLowSurrogate m then scanString (pairedChar n m :: before) rest
          else halfPair .malformed ('\\' :: 'u' :: e :: f :: g :: h :: rest)
        | none => .fault (hexFault [e, f, g, h])
      else scanString (Char.ofNat n :: before) ('\\' :: 'u' :: e :: f :: g :: h :: rest)
  | '\\' :: 'u' :: a :: b :: c :: d :: rest =>
    match hexUnit? a b c d with
    | none => .fault (hexFault (a :: b :: c :: d :: rest))
    | some n =>
      if isLowSurrogate n then halfPair .malformed rest
      else if isHighSurrogate n then halfPair (secondHalfFault rest) rest
      else scanString (Char.ofNat n :: before) rest
  | '\\' :: 'u' :: rest => .fault (hexFault rest)
  | ['\\'] => .fault .truncated
  | '\\' :: c :: rest =>
    match unescape? c with
    | some c => scanString (c :: before) rest
    | none => .fault .malformed
  | c :: rest => if c.toNat < 32 then .fault .malformed else scanString (c :: before) rest

end FlowScript.Json
