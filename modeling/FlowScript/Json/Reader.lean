import FlowScript.Json.Scalar

/-! Reading a text into a tree. Reading goes at most 127 brackets deep; deeper parts are only skipped,
by a machine that keeps the open brackets in a list. -/
namespace FlowScript.Json

inductive Bracket where
  | square
  | curly
  deriving DecidableEq, Repr

def Bracket.close : Bracket → Char
  | .square => ']'
  | .curly => '\x7d'

/-- What skipping expects next: a value; the first element behind an opening bracket; a comma or the
closing bracket; or a key. -/
inductive Expected where
  | value
  | first
  | more
  | key
  deriving DecidableEq, Repr

/-- Skips one value or what is left of it; the open brackets are `opened`, the innermost first.
Each turn takes a character, so a fuel of twice the length of the text suffices. -/
def skip : Nat → List Bracket → Expected → List Char → Except Fault (List Char)
  | 0, _, _, _ => .error .truncated
  | fuel + 1, opened, expected, cs =>
    match expected, opened with
    | .more, [] => .ok cs
    | .more, b :: outer =>
      match skipSpace cs with
      | [] => .error .truncated
      | c :: rest =>
        if c = ',' then skip fuel opened (if b = .curly then .key else .value) rest
        else if c = b.close then skip fuel outer .more rest
        else .error .malformed
    | .first, b :: outer =>
      match skipSpace cs with
      | [] => .error .truncated
      | c :: rest =>
        if c = b.close then skip fuel outer .more rest
        else skip fuel opened (if b = .curly then .key else .value) (c :: rest)
    | .key, _ =>
      match skipSpace cs with
      | [] => .error .truncated
      | c :: rest =>
        if c = '"' then
          match skipString rest with
          | .error f => .error f
          | .ok rest =>
            match skipSpace rest with
            | [] => .error .truncated
            | c :: rest => if c = ':' then skip fuel opened .value rest else .error .malformed
        else .error .malformed
    | _, _ =>
      match skipSpace cs with
      | [] => .error .truncated
      | c :: rest =>
        if c = '[' then skip fuel (.square :: opened) .first rest
        else if c = '\x7b' then skip fuel (.curly :: opened) .first rest
        else if c = '"' then
          match skipString rest with
          | .error f => .error f
          | .ok rest => skip fuel opened .more rest
        else
          let scalar : Scan Unit :=
            if c = 'n' then scanWord "ull".toList () rest
            else if c = 't' then scanWord "rue".toList () rest
            else if c = 'f' then scanWord "alse".toList () rest
            else if c = '-' || c.isDigit then
              match scanNumber (c :: rest) with
              | .read _ rest => .read () rest
              | .unreadable rest => .read () rest
              | .broken flaw f => .broken flaw f
            else .fault .malformed
          match scalar with
          | .read _ rest => skip fuel opened .more rest
          | .unreadable rest => skip fuel opened .more rest
          | .broken _ f => .error f

/-- Skips what is left of a value. -/
def skipRest (opened : List Bracket) (expected : Expected) (cs : List Char) :
    Except Fault (List Char) :=
  skip (4 * cs.length + 4) opened expected cs

/-- A tree, and the characters behind it unless a fault ended the reading. -/
abbrev Reading := Json × Option (List Char)

/-- The outcome of reading a scalar. -/
def Scan.toReading (wrap : α → Json) : Scan α → Reading
  | .read a rest => (wrap a, some rest)
  | .unreadable rest => (.flawed ⟨.malformed, none⟩, some rest)
  | .broken flaw _ => (.flawed flaw, none)

/-- A part that is not read, with what skipping it meets. -/
def unread : Except Fault (List Char) → Flaw × Option (List Char)
  | .ok rest => (⟨.malformed, none⟩, some rest)
  | .error f => (⟨.malformed, some f⟩, none)

mutual

/-- Reads a value; `depth` more brackets may be opened. -/
def readValue : Nat → Nat → List Char → Reading
  | 0, _, _ => (.flawed (.ofFault .truncated), none)
  | fuel + 1, depth, cs =>
    match skipSpace cs with
    | [] => (.flawed (.ofFault .truncated), none)
    | c :: rest =>
      if c = '[' then
        match depth with
        | 0 => let (flaw, rest) := unread (skipRest [.square] .first rest); (.flawed flaw, rest)
        | depth + 1 => readItems fuel depth true [] rest
      else if c = '\x7b' then
        match depth with
        | 0 => let (flaw, rest) := unread (skipRest [.curly] .first rest); (.flawed flaw, rest)
        | depth + 1 => readFields fuel depth true [] rest
      else if c = '"' then (scanString [] rest).toReading .string
      else if c = 'n' then (scanWord "ull".toList .null rest).toReading id
      else if c = 't' then (scanWord "rue".toList true rest).toReading .bool
      else if c = 'f' then (scanWord "alse".toList false rest).toReading .bool
      else if c = '-' || c.isDigit then (scanNumber (c :: rest)).toReading .number
      else (.flawed (.ofFault .malformed), none)

/-- Reads the items of an array behind its bracket or behind an item, up to its end; `before` holds
the items so far, the last first. -/
def readItems : Nat → Nat → Bool → List Json → List Char → Reading
  | 0, _, _, before, _ => (.array before.reverse (some (.ofFault .truncated)), none)
  | fuel + 1, depth, isFirst, before, cs =>
    match skipSpace cs with
    | [] => (.array before.reverse (some (.ofFault .truncated)), none)
    | c :: rest =>
      if c = ']' then (.array before.reverse none, some rest)
      else if !isFirst && c ≠ ',' then (.array before.reverse (some (.ofFault .malformed)), none)
      else
        match readValue fuel depth (if isFirst then c :: rest else rest) with
        | (item, some rest) => readItems fuel depth false (item :: before) rest
        | (item, none) => (.array (item :: before).reverse none, none)

/-- Reads the fields of an object, as `readItems` does the items of an array. -/
def readFields : Nat → Nat → Bool → List (String × Json) → List Char → Reading
  | 0, _, _, before, _ => (.object before.reverse (some (.ofFault .truncated)), none)
  | fuel + 1, depth, isFirst, before, cs =>
    match skipSpace cs with
    | [] => (.object before.reverse (some (.ofFault .truncated)), none)
    | c :: rest =>
      if c = '\x7d' then (.object before.reverse none, some rest)
      else if !isFirst && c ≠ ',' then (.object before.reverse (some (.ofFault .malformed)), none)
      else
        match skipSpace (if isFirst then c :: rest else rest) with
        | [] => (.object before.reverse (some (.ofFault .truncated)), none)
        | q :: rest =>
          if q ≠ '"' then (.object before.reverse (some (.ofFault .malformed)), none)
          else
            match scanString [] rest with
            | .broken flaw _ => (.object before.reverse (some flaw), none)
            | .unreadable rest =>
              match skipSpace rest with
              | [] => (.object before.reverse (some ⟨.malformed, some .truncated⟩), none)
              | c :: rest =>
                if c = ':' then
                  let (flaw, rest) := unread (skipRest [.curly] .value rest)
                  (.object before.reverse (some flaw), rest)
                else (.object before.reverse (some ⟨.malformed, some .malformed⟩), none)
            | .read key rest =>
              match skipSpace rest with
              | [] => (.object before.reverse (some (.ofFault .truncated)), none)
              | c :: rest =>
                if c = ':' then
                  match readValue fuel depth rest with
                  | (j, some rest) => readFields fuel depth false ((key, j) :: before) rest
                  | (j, none) => (.object ((key, j) :: before).reverse none, none)
                else (.object before.reverse (some (.ofFault .malformed)), none)

end

/-- How many brackets may be open at once. -/
def maxDepth : Nat := 127

/-- The tree at the start of a text, and the characters behind it. -/
def read (s : String) : Reading :=
  let cs := s.toList
  readValue (2 * cs.length + 2) maxDepth cs

end FlowScript.Json
