import FlowScript.Text.Case
import FlowScript.Text.Split
import FlowScript.Url.Percent
import FlowScript.Url.Punycode

/-! Hosts of locations: names, and addresses of four bytes or of eight groups. -/
namespace FlowScript

inductive Url.Host where
  | name (s : String)
  | ipv4 (address : Nat)
  | ipv6 (groups : List Nat)
  deriving DecidableEq, Repr

namespace Url.Host
open Text

/-- The number that digits of a base make up. -/
def number? (base : Nat) (digits : List Char) : Option Nat :=
  digits.foldlM (fun n c => do
    let d ← hexValue? (UInt8.ofNat c.toNat)
    if c.toNat < 0x80 ∧ d.toNat < base then some (n * base + d.toNat) else none) 0

/-! ### Addresses -/

/-- A part of a four-byte address: decimal, octal behind a zero, hexadecimal behind `0x`. -/
def ipv4Part? (part : String) : Option Nat :=
  match part.toList with
  | [] => none
  | '0' :: 'x' :: digits | '0' :: 'X' :: digits => number? 16 digits
  | '0' :: d :: digits => number? 8 (d :: digits)
  | digits => number? 10 digits

/-- The parts between the points; a point at the end adds none. -/
def ipv4Parts (s : String) : List String :=
  let parts := split '.' s
  if parts.getLast? = some "" then parts.dropLast else parts

/-- Whether the last part makes a host an address. -/
def endsInNumber (s : String) : Bool :=
  match (ipv4Parts s).getLast? with
  | none => false
  | some last =>
    (!last.isEmpty && last.toList.all Char.isDigit) || (ipv4Part? last).isSome

/-- The last part stands for all bytes that are left. -/
def ipv4? (s : String) : Option Host := do
  let numbers ← (ipv4Parts s).mapM ipv4Part?
  let last ← numbers.getLast?
  let firsts := numbers.dropLast
  if firsts.length > 3 ∨ firsts.any (255 < ·) ∨ last ≥ 1 <<< (8 * (4 - firsts.length)) then none
  else some (.ipv4 ((firsts.foldl (fun n part => n * 256 + part) 0 <<< (8 * (4 - firsts.length))) + last))

def ipv6Group? (part : String) : Option Nat :=
  if part.isEmpty ∨ part.length > 4 then none else number? 16 part.toList

/-- A decimal byte without needless zeros. -/
def byte? (part : String) : Option Nat := do
  let digits := part.toList
  if digits = [] ∨ (digits.length > 1 ∧ digits.head? = some '0') then none
  let n ← number? 10 digits
  if n < 256 then some n else none

/-- The groups of a side; the last part may be four decimal bytes. -/
def ipv6Side? (s : String) : Option (List Nat) :=
  if s.isEmpty then some []
  else
    let parts := split ':' s
    match parts.getLast? with
    | some last =>
      if last.toList.contains '.' then do
        let groups ← parts.dropLast.mapM ipv6Group?
        match ← (split '.' last).mapM byte? with
        | [a, b, c, d] => some (groups ++ [a * 256 + b, c * 256 + d])
        | _ => none
      else parts.mapM ipv6Group?
    | none => none

/-- The text before and behind the first two colons in a row. -/
def cutAtGap : List Char → List Char → Option (List Char × List Char)
  | _, [] => none
  | before, ':' :: ':' :: rest => some (before.reverse, rest)
  | before, c :: rest => cutAtGap (c :: before) rest

/-- Two colons in a row stand for the zero groups that are missing. -/
def ipv6? (s : String) : Option Host :=
  match cutAtGap [] s.toList with
  | none => do
    let groups ← ipv6Side? s
    if groups.length = 8 then some (.ipv6 groups) else none
  | some (before, after) => do
    if before.contains '.' then none
    let before ← ipv6Side? (String.ofList before)
    let after ← ipv6Side? (String.ofList after)
    let missing := 8 - before.length - after.length
    if missing = 0 then none else some (.ipv6 (before ++ List.replicate missing 0 ++ after))

/-! ### Names -/

/-- Characters that no name may have. -/
def isForbidden (c : Char) : Bool :=
  [' ', '#', '/', ':', '<', '>', '?', '@', '[', '\\', ']', '^', '|'].contains c || c.toNat == 0 ||
    c.toNat == 9 || c.toNat == 10 || c.toNat == 13

def isForbiddenInDomain (c : Char) : Bool :=
  isForbidden c || c == '%' || c.toNat < 0x20 || c.toNat == 0x7F

/-- A label in small letters of ASCII. -/
def asciiLabel (label : String) : String :=
  let label := toLower label
  if label.toList.all (·.toNat < 0x80) then label
  else "xn--" ++ String.ofList (Punycode.encode label.toList)

/-- Reads the host of a location whose scheme knows host names. -/
def domain? (s : String) : Option Host :=
  match s.toList with
  | '[' :: rest => if rest.getLast? = some ']' then ipv6? (String.ofList rest.dropLast) else none
  | _ =>
    let decoded := decodeLossy (unescape s.toUTF8.toList)
    let name := join "." ((split '.' decoded).map asciiLabel)
    if name.isEmpty ∨ name.toList.any isForbiddenInDomain then none
    else if endsInNumber name then ipv4? name
    else some (.name name)

/-- Reads the host of a location of any other scheme, which is kept as it is. -/
def verbatim? (s : String) : Option Host :=
  match s.toList with
  | '[' :: rest => if rest.getLast? = some ']' then ipv6? (String.ofList rest.dropLast) else none
  | cs => if cs.any isForbidden then none else some (.name (escape isControl s))

/-! ### Text -/

/-- The start and length of the longest run of two zero groups or more, the first of equal ones. -/
def longestGap (groups : List Nat) : Option (Nat × Nat) :=
  let runs := (List.range groups.length).map fun i => (i, ((groups.drop i).takeWhile (· == 0)).length)
  runs.foldl (fun best (i, n) =>
    if 2 ≤ n ∧ n > (best.map Prod.snd).getD 0 then some (i, n) else best) none

def groupTexts (groups : List Nat) : String :=
  join ":" (groups.map fun g => String.ofList (Nat.toDigits 16 g))

def text : Host → String
  | .name s => s
  | .ipv4 n => join "." ([n >>> 24, (n >>> 16) % 256, (n >>> 8) % 256, n % 256].map toString)
  | .ipv6 groups =>
    match longestGap groups with
    | none => "[" ++ groupTexts groups ++ "]"
    | some (i, n) => "[" ++ groupTexts (groups.take i) ++ "::" ++ groupTexts (groups.drop (i + n)) ++ "]"

end Url.Host
end FlowScript
