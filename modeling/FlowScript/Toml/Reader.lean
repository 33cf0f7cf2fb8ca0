import FlowScript.Toml.Scalar

/-! Reading configuration texts, line by line. -/
namespace FlowScript.Toml

/-- Values nest less deep than this, and no more names make up a key. -/
def maxDepth : Nat := 79

/-- Skips blanks, line ends and remarks; `inRemark` tells that a remark has begun. -/
def skipLines (inRemark : Bool) : List Char → Option (List Char)
  | '\r' :: '\n' :: rest => skipLines false rest
  | '\n' :: rest => skipLines false rest
  | c :: rest =>
    if inRemark then if isPlain c then skipLines true rest else none
    else if isBlank c then skipLines false rest
    else if c == '#' then skipLines true rest
    else some (c :: rest)
  | [] => if inRemark then none else some []

/-- Goes to the next line; only blanks and a remark may stand before it. -/
def endLine (cs : List Char) : Option (List Char) :=
  let rest :=
    match skipBlank cs with
    | '#' :: remark => remark.dropWhile isPlain
    | rest => rest
  match rest with
  | [] => some []
  | '\n' :: rest | '\r' :: '\n' :: rest => some rest
  | _ => none

/-! ### Keys -/

def isBare (c : Char) : Bool := c.isAlphanum || c == '-' || c == '_'

/-- Reads one name, bare or between quotes. -/
def scanName : List Char → Option (String × List Char)
  | '"' :: rest => scanBasic [] rest
  | '\'' :: rest => scanLiteral [] rest
  | cs =>
    match cs.takeWhile isBare with
    | [] => none
    | name => some (String.ofList name, cs.dropWhile isBare)

/-- Reads a key of at most `most` names, with blanks around them. -/
def scanKeyWithin : Nat → List Char → Option (Key × List Char)
  | 0, _ => none
  | most + 1, cs => do
    let (name, rest) ← scanName (skipBlank cs)
    match skipBlank rest with
    | '.' :: rest =>
      let (key, rest) ← scanKeyWithin most rest
      some (⟨name :: key.parents, key.name⟩, rest)
    | rest => some (⟨[], name⟩, rest)

def scanKey (cs : List Char) : Option (Key × List Char) := scanKeyWithin maxDepth cs

/-! ### Values -/

mutual

/-- Reads a value that nests at most `depth` deep. Each call takes a character or is followed by one
that does. -/
def scanValue : Nat → Nat → List Char → Option (Toml × List Char)
  | 0, _, _ => none
  | fuel + 1, depth, cs =>
    match depth, cs with
    | 0, '[' :: _ | 0, '\x7b' :: _ => none
    | depth + 1, '[' :: rest => (scanItems fuel depth rest).map fun (items, rest) => (.array items, rest)
    | depth + 1, '\x7b' :: rest =>
      match skipBlank rest with
      | '\x7d' :: rest => some (.table .inline [], rest)
      | rest => (scanPairs fuel depth [] rest).map fun (fields, rest) => (.table .inline fields, rest)
    | _, '"' :: _ | _, '\'' :: _ => (scanString cs).map fun (s, rest) => (.string s, rest)
    | _, 't' :: 'r' :: 'u' :: 'e' :: rest => some (.bool true, rest)
    | _, 'f' :: 'a' :: 'l' :: 's' :: 'e' :: rest => some (.bool false, rest)
    | _, cs => scanDateOrNumber cs

/-- Reads the items of an array that are left; a comma may stand behind the last one. -/
def scanItems : Nat → Nat → List Char → Option (List Toml × List Char)
  | 0, _, _ => none
  | fuel + 1, depth, cs => do
    match ← skipLines false cs with
    | ']' :: rest => some ([], rest)
    | cs =>
      let (v, rest) ← scanValue fuel depth cs
      match ← skipLines false rest with
      | ',' :: rest =>
        let (items, rest) ← scanItems fuel depth rest
        some (v :: items, rest)
      | ']' :: rest => some ([v], rest)
      | _ => none

/-- Reads the fields of a table on one line that are left. -/
def scanPairs : Nat → Nat → Fields → List Char → Option (Fields × List Char)
  | 0, _, _, _ => none
  | fuel + 1, depth, fields, cs => do
    let (key, rest) ← scanKey cs
    let (v, rest) ← scanValue fuel depth (skipBlank (← expect '=' rest))
    let fields ← assign key v .header fields
    match skipBlank rest with
    | ',' :: rest => scanPairs fuel depth fields rest
    | '\x7d' :: rest => some (fields, rest)
    | _ => none

end

/-! ### Documents -/

/-- Reads a key and its value to the end of the line. -/
def scanPair (cs : List Char) : Option ((Key × Toml) × List Char) := do
  let (key, rest) ← scanKey cs
  let rest := skipBlank (← expect '=' rest)
  let (v, rest) ← scanValue (2 * rest.length + 1) maxDepth rest
  some ((key, v), ← endLine rest)

/-- Reads the lines that are left under a header. -/
def readLines : Nat → List String → Fields → List Char → Option Fields
  | 0, _, _, _ => none
  | fuel + 1, header, fields, cs => do
    match skipBlank cs with
    | [] => some fields
    | '\n' :: rest | '\r' :: '\n' :: rest => readLines fuel header fields rest
    | '#' :: rest => readLines fuel header fields (← endLine ('#' :: rest))
    | '[' :: '[' :: rest =>
      let (key, rest) ← scanKey rest
      let rest ← endLine (← expect ']' (← expect ']' rest))
      readLines fuel key.path (← openElement key fields) rest
    | '[' :: rest =>
      let (key, rest) ← scanKey rest
      let rest ← endLine (← expect ']' rest)
      readLines fuel key.path (← openTable key fields) rest
    | cs =>
      let ((key, v), rest) ← scanPair cs
      readLines fuel header (← assignUnder header key v fields) rest

/-- Reads a whole text; a mark of its byte order may stand before it. -/
def read? (s : String) : Option Fields :=
  let cs :=
    match s.toList with
    | '\uFEFF' :: cs => cs
    | cs => cs
  readLines (cs.length + 1) [] [] cs

end FlowScript.Toml
