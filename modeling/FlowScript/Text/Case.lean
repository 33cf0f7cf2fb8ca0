import FlowScript.Text.CaseTable

/-! Upper and lower case of a text by the full mappings of Unicode: a character may become several,
and a capital sigma that ends a word becomes the final form of the small letter. -/
namespace FlowScript.Text

def inRanges (table : List (Nat × Nat)) (c : Char) : Bool :=
  table.any fun (first, last) => first ≤ c.toNat && c.toNat ≤ last

def isCased (c : Char) : Bool := inRanges casedRanges c

def isCaseIgnorable (c : Char) : Bool := inRanges ignorableRanges c

/-- The image of a character that is no ASCII letter under the mapping of the two tables. -/
def mapByTables (many : List (Nat × List Nat)) (runs : List CaseRun) (c : Char) : List Char :=
  match many.lookup c.toNat with
  | some image => image.map Char.ofNat
  | none =>
    match runs.find? (·.holds c.toNat) with
    | some run => [Char.ofNat (c.toNat + run.shift).toNat]
    | none => [c]

def upperChar (c : Char) : List Char :=
  if c.toNat < 128 then [c.toUpper] else mapByTables upperMany upperRuns c

def lowerChar (c : Char) : List Char :=
  if c.toNat < 128 then [c.toLower] else mapByTables lowerMany lowerRuns c

/-- Whether the first character that is not case-ignorable is cased. -/
def meetsCased (cs : List Char) : Bool :=
  match cs.dropWhile isCaseIgnorable with
  | [] => false
  | c :: _ => isCased c

def toUpper (s : String) : String := String.ofList (s.toList.flatMap upperChar)

/-- The lower case of the characters that follow `before`, which is read backwards. -/
def lowerFrom (before : List Char) : List Char → List Char
  | [] => []
  | c :: rest =>
    let image :=
      if c = 'Σ' then [if meetsCased before && !meetsCased rest then 'ς' else 'σ'] else lowerChar c
    image ++ lowerFrom (c :: before) rest

def toLower (s : String) : String := String.ofList (lowerFrom [] s.toList)

example : toUpper "straße" = "STRASSE" := by decide +kernel
example : toLower "ΟΔΟΣ Σ" = "οδος σ" := by decide +kernel

end FlowScript.Text
