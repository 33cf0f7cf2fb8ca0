import FlowScript.Url

/-! Reading locations. The reader is generous: it drops blanks around the text, takes backslashes for
slashes where the scheme is a known one, and resolves dots; only an absolute location is read. -/
namespace FlowScript.Url
open Text

/-- How the schemes differ: files, the schemes with host names, and all others. -/
inductive SchemeKind where
  | file
  | web
  | other
  deriving DecidableEq, Repr

def defaultPort? : String → Option Nat
  | "http" | "ws" => some 80
  | "https" | "wss" => some 443
  | "ftp" => some 21
  | _ => none

def kindOf (scheme : String) : SchemeKind :=
  if scheme = "file" then .file else if (defaultPort? scheme).isSome then .web else .other

def isSchemeChar (c : Char) : Bool := c.isAlphanum || c == '+' || c == '-' || c == '.'

/-- The scheme in small letters, with what follows its colon. -/
def scheme? (cs : List Char) : Option (String × List Char) :=
  match cs.head?, cs.dropWhile isSchemeChar with
  | some c, ':' :: rest =>
    if c.isAlpha then some (String.ofList ((cs.takeWhile isSchemeChar).map Char.toLower), rest) else none
  | _, _ => none

/-- The text before a character, and the text behind it if it occurs. -/
def cut (c : Char) (cs : List Char) : List Char × Option (List Char) :=
  match cs.dropWhile (· != c) with
  | [] => (cs, none)
  | _ :: rest => (cs.takeWhile (· != c), some rest)

def SchemeKind.isSlash (kind : SchemeKind) (c : Char) : Bool :=
  c == '/' || (kind != .other && c == '\\')

/-! ### Paths -/

def isDrive : List Char → Bool
  | [c, d] => c.isAlpha && (d == ':' || d == '|')
  | _ => false

/-- Dots may be escaped. -/
def plainDots (segment : String) : String :=
  let rec go : List Char → List Char
    | '%' :: '2' :: 'e' :: rest | '%' :: '2' :: 'E' :: rest => '.' :: go rest
    | c :: rest => c :: go rest
    | [] => []
  String.ofList (go segment.toList)

/-- The path without its last segment; the letter of a drive stays. -/
def shorten (kind : SchemeKind) (path : List String) : List String :=
  match kind, path with
  | .file, [drive] => if isDrive drive.toList then path else []
  | _, _ => path.dropLast

/-- The letter of a drive is followed by a colon. -/
def firstSegment (segment : String) : String :=
  match segment.toList with
  | [c, '|'] => if c.isAlpha then String.ofList [c, ':'] else segment
  | _ => segment

/-- Goes down the segments: `..` takes one back and `.` stays, and both leave a slash at the end. -/
def descend (kind : SchemeKind) (path : List String) : List String → List String
  | [] => path
  | segment :: rest =>
    let atEnd : List String := if rest.isEmpty then [""] else []
    let next :=
      match plainDots segment with
      | ".." => shorten kind path ++ atEnd
      | "." => path ++ atEnd
      | _ => path ++ [if kind = .file ∧ path = [] then firstSegment segment else segment]
    descend kind next rest

/-- The segments of a text behind its first slash. Paths of files do not begin with empty segments. -/
def segments (kind : SchemeKind) (cs : List Char) : List String :=
  let parts := (splitChars kind.isSlash cs).map fun part => escape inPath (String.ofList part)
  let path := descend kind [] parts
  match kind with
  | .file => if path.all String.isEmpty then [""] else path.dropWhile String.isEmpty
  | _ => path

/-- The text without its first slash. -/
def withoutSlash (kind : SchemeKind) : List Char → List Char
  | c :: rest => if kind.isSlash c then rest else c :: rest
  | [] => []

/-! ### Authorities -/

/-- The text before the last `@`, and the text behind it. -/
def splitUser (cs : List Char) : Option (List Char) × List Char :=
  match cs.reverse.dropWhile (· != '@') with
  | [] => (none, cs)
  | _ :: user => (some user.reverse, (cs.reverse.takeWhile (· != '@')).reverse)

/-- A user is written before an `@`, and a password behind a colon. -/
def userText : List Char → String
  | [] => ""
  | user =>
    let (name, password) := cut ':' user
    let password := (password.map String.ofList).getD ""
    let name := escape inUser (String.ofList name)
    if name.isEmpty && password.isEmpty then ""
    else name ++ (if password.isEmpty then "" else ":" ++ escape inUser password) ++ "@"

/-- The host, and the digits behind the colon; colons between brackets belong to the host. -/
def splitPort : Bool → List Char → List Char × Option (List Char)
  | _, [] => ([], none)
  | inBrackets, c :: rest =>
    if c = ':' ∧ !inBrackets then ([], some rest)
    else
      let (host, digits) := splitPort (if c = '[' then true else if c = ']' then false else inBrackets) rest
      (c :: host, digits)

/-- The number behind the colon, unless it is the usual one of the scheme. -/
def portNumber? (scheme : String) (digits : List Char) : Option (Option Nat) :=
  if digits.isEmpty then some none
  else if digits.all Char.isDigit then do
    let n ← Host.number? 10 digits
    if n < 65536 then some (if defaultPort? scheme = some n then none else some n) else none
  else none

def authority? (scheme : String) (cs : List Char) : Option Authority := do
  let (user, rest) := splitUser cs
  let (host, digits) := splitPort false rest
  let number ← portNumber? scheme (digits.getD [])
  let s := String.ofList host
  if host.isEmpty then
    if kindOf scheme = .web ∨ user.isSome ∨ number.isSome then none else some ⟨"", none, none⟩
  else
    let host ← if kindOf scheme = .web then Host.domain? s else Host.verbatim? s
    some ⟨userText (user.getD []), some host, number⟩

/-- The host of a file; this machine is written as no host. -/
def fileHost? (cs : List Char) : Option (Option Host) :=
  if cs.isEmpty then some none
  else
    (Host.domain? (String.ofList cs)).map fun
      | .name "localhost" => none
      | host => some host

/-! ### Locations -/

/-- Two slashes begin the host of a file, unless the letter of a drive stands there. -/
def file? (cs : List Char) : Option (Authority × Route) :=
  match cs with
  | a :: b :: rest =>
    if SchemeKind.file.isSlash a && SchemeKind.file.isSlash b then
      let host := rest.takeWhile (!SchemeKind.file.isSlash ·)
      if isDrive host then some (⟨"", none, none⟩, .segments (segments .file rest))
      else do
        let found ← fileHost? host
        let path := segments .file (withoutSlash .file (rest.dropWhile (!SchemeKind.file.isSlash ·)))
        let found := if isDrive (path.headD "").toList then none else found
        some (⟨"", found, none⟩, .segments path)
    else some (⟨"", none, none⟩, .segments (segments .file (withoutSlash .file cs)))
  | _ => some (⟨"", none, none⟩, .segments (segments .file (withoutSlash .file cs)))

/-- What stands between the two slashes and the path. -/
def withAuthority? (scheme : String) (cs : List Char) : Option (Option Authority × Route) := do
  let kind := kindOf scheme
  let authority ← authority? scheme (cs.takeWhile (!kind.isSlash ·))
  let path := cs.dropWhile (!kind.isSlash ·)
  some (some authority,
    if path.isEmpty ∧ kind = .other then .plain "" else .segments (segments kind (withoutSlash kind path)))

/-- The authority and the path, by the kind of the scheme. -/
def body? (scheme : String) (cs : List Char) : Option (Option Authority × Route) :=
  match kindOf scheme with
  | .file => (file? cs).map fun (authority, route) => (some authority, route)
  | .web => withAuthority? scheme (cs.dropWhile SchemeKind.web.isSlash)
  | .other =>
    match cs with
    | '/' :: '/' :: rest => withAuthority? scheme rest
    | '/' :: rest => some (none, .segments (segments .other rest))
    | cs => some (none, .plain (escape isControl (String.ofList cs)))

def isBlankAtEnds (c : Char) : Bool := c.toNat ≤ 0x20

def trimEnds (cs : List Char) : List Char :=
  ((cs.dropWhile isBlankAtEnds).reverse.dropWhile isBlankAtEnds).reverse

/-- Reads an absolute location; tabs and line ends in it are passed over. -/
def parse? (s : String) : Option Url := do
  let cs := (trimEnds s.toList).filter fun c => c != '\t' && c != '\n' && c != '\r'
  let (scheme, rest) ← scheme? cs
  let (rest, fragment) := cut '#' rest
  let (rest, query) := cut '?' rest
  let (authority, route) ← body? scheme rest
  let inQuery (c : Char) : Bool := inQuery c || (c == '\'' && kindOf scheme != .other)
  some ⟨scheme, authority, route, query.map fun q => escape inQuery (String.ofList q),
    fragment.map fun f => escape inFragment (String.ofList f)⟩

end FlowScript.Url
