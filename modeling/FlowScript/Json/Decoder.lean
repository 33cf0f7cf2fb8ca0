import FlowScript.Entries
import FlowScript.Json.Reader

/-! Decoding a tree into data. Of several things that are wrong the one that comes first in the text
counts; a field that is missing is wrong at the end of its object. -/
namespace FlowScript.Json

/-- Why a text does not decode: it is no JSON, or it is JSON of another shape. -/
inductive Problem where
  | malformed
  | truncated
  | shape
  deriving DecidableEq, Repr

def Fault.problem : Fault → Problem
  | .malformed => .malformed
  | .truncated => .truncated

abbrev Decoder (α : Type) := Json → Except Problem α

/-- What is wrong with a tree of which another kind is expected. -/
def mismatch : Json → Problem
  | .flawed flaw => flaw.reading.problem
  | _ => .shape

/-- What a flaw behind the last element makes of the elements. -/
def closing (flaw : Option Flaw) (a : α) : Except Problem α :=
  match flaw with
  | none => .ok a
  | some flaw => .error flaw.reading.problem

def asBool : Decoder Bool
  | .bool b => .ok b
  | j => .error j.mismatch

def asString : Decoder String
  | .string s => .ok s
  | j => .error j.mismatch

/-- An integer from `least` up to, but without, `bound`. -/
def asInt (least bound : Int) : Decoder Int
  | .number (.int i) => if least ≤ i ∧ i < bound then .ok i else .error .shape
  | j => .error j.mismatch

def asInt64 : Decoder Int64 := fun j =>
  (asInt Int64.minValue.toInt (Int64.maxValue.toInt + 1) j).map Int64.ofInt

/-- A natural number below a bound. -/
def asNat (bound : Nat) : Decoder Nat := fun j => (asInt 0 bound j).map Int.toNat

def asFloat : Decoder Float
  | .number n => .ok n.toFloat
  | j => .error j.mismatch

def nullable (decode : Decoder α) : Decoder (Option α)
  | .null => .ok none
  | j => (decode j).map some

def decodeEach (decode : Decoder α) : List Json → Except Problem (List α)
  | [] => .ok []
  | j :: rest => do
    let a ← decode j
    let as ← decodeEach decode rest
    return a :: as

def asList (decode : Decoder α) : Decoder (List α)
  | .array items flaw => do
    let as ← decodeEach decode items
    closing flaw as
  | j => .error j.mismatch

/-- The fields of an object with their keys, in the order of the text. -/
def decodePairs (decode : Decoder α) : List (String × Json) → Except Problem (List (String × α))
  | [] => .ok []
  | (key, j) :: rest => do
    let a ← decode j
    let as ← decodePairs decode rest
    return (key, a) :: as

/-- An object with any keys; of a repeated key the last field counts. -/
def asEntries (decode : Decoder α) : Decoder (Entries α)
  | .object fields flaw => do
    let pairs ← decodePairs decode fields
    closing flaw (Entries.ofPairs pairs)
  | j => .error j.mismatch

/-- Where data is decoded from: the text itself, or a part of the text that was read whole and put aside
before it was known what it is. -/
inductive Medium where
  | text
  | buffer
  deriving DecidableEq, Repr

/-- Only the shape can be wrong of what has been put aside. -/
def Medium.settle : Medium → Except Problem α → Except Problem α
  | .text, x => x
  | .buffer, x => x.mapError fun _ => .shape

/-- What stands for nothing beside a name. -/
def Medium.isNothing : Medium → Json → Bool
  | _, .null => true
  | .buffer, .object [] none => true
  | _, _ => false

/-- One of a closed list of names. An object whose only field has such a name and holds nothing stands
for the name, too. -/
def asName (medium : Medium) (ofName? : String → Option α) : Decoder α
  | .string s => (ofName? s).elim (.error .shape) .ok
  | .object [(s, j)] flaw =>
    match ofName? s with
    | some a => if medium.isNothing j then closing flaw a else .error j.mismatch
    | none => .error .shape
  | .object ((s, j) :: _) _ =>
    match ofName? s with
    | some _ => if medium.isNothing j then .error .malformed else .error j.mismatch
    | none => .error .shape
  | .object [] flaw => .error ((flaw.map fun f => f.reading.problem).getD .malformed)
  | .flawed flaw => .error flaw.reading.problem
  | _ => .error .malformed

/-! ### Records

A record decoder asks for each field on its own. What it finds wrong carries the place of the field,
and of several such findings the earliest is kept. -/

/-- Something wrong, and the number of the field where it shows. -/
structure Finding where
  place : Nat
  problem : Problem

/-- What came of asking an object for fields. -/
inductive Asked (α : Type) where
  | got (a : α)
  | wrong (f : Finding)

def Asked.map (f : α → β) : Asked α → Asked β
  | .got a => .got (f a)
  | .wrong w => .wrong w

/-- Both, or the earlier of the findings. -/
def Asked.combine (f : α → β → γ) : Asked α → Asked β → Asked γ
  | .got a, .got b => .got (f a b)
  | .got _, .wrong w => .wrong w
  | .wrong w, .got _ => .wrong w
  | .wrong w, .wrong w' => .wrong (if w'.place < w.place then w' else w)

instance : Applicative Asked where
  pure := .got
  seq f a := f.combine (fun f a => f a) (a ())

def Asked.toExcept : Asked α → Except Problem α
  | .got a => .ok a
  | .wrong w => .error w.problem

/-- The places at which a key stands, from `place` on. -/
def placesOf (key : String) : Nat → List (String × Json) → List (Nat × Json)
  | _, [] => []
  | place, (k, j) :: rest =>
    if k = key then (place, j) :: placesOf key (place + 1) rest else placesOf key (place + 1) rest

/-- The field of a key, or what its absence stands for. A repeated key is wrong. -/
def ask (fields : List (String × Json)) (key : String) (decode : Decoder α) (absent : Option α) :
    Asked α :=
  match placesOf key 0 fields with
  | [] => absent.elim (.wrong ⟨fields.length + 1, .shape⟩) .got
  | [(place, j)] =>
    match decode j with
    | .ok a => .got a
    | .error p => .wrong ⟨place, p⟩
  | (place, j) :: (again, _) :: _ =>
    match decode j with
    | .ok _ => .wrong ⟨again, .shape⟩
    | .error p => .wrong ⟨place, p⟩

def required (fields : List (String × Json)) (key : String) (decode : Decoder α) : Asked α :=
  ask fields key decode none

def defaulted (fields : List (String × Json)) (key : String) (default : α) (decode : Decoder α) :
    Asked α :=
  ask fields key decode (some default)

/-- A field that may be absent or null. -/
def optionalField (fields : List (String × Json)) (key : String) (decode : Decoder α) :
    Asked (Option α) :=
  ask fields key (nullable decode) (some none)

/-- The fields that are not asked for are skipped. -/
def skipOthers (keys : List String) : Nat → List (String × Json) → Asked Unit
  | _, [] => .got ()
  | place, (k, j) :: rest =>
    match (if keys.contains k then none else j.skippingFault) with
    | some f => .wrong ⟨place, f.problem⟩
    | none => skipOthers keys (place + 1) rest

/-- The fields of a record in the order of their declaration. An array of fields in this order is the record,
too, if it has the first `least` of them. -/
structure Layout where
  keys : List String
  least : Nat
  deriving DecidableEq, Repr

/-- What is wrong at the end of an array of fields. -/
def Layout.ended (layout : Layout) (items : List Json) (flaw : Option Flaw) : Asked Unit :=
  if layout.keys.length < items.length then .wrong ⟨layout.keys.length, .malformed⟩
  else
    match flaw with
    | some flaw => .wrong ⟨items.length, flaw.reading.problem⟩
    | none => if items.length < layout.least then .wrong ⟨items.length, .shape⟩ else .got ()

/-- Decodes an object or an array by asking for the fields of the layout. -/
def asRecord (layout : Layout) (read : List (String × Json) → Asked α) : Decoder α
  | .object fields flaw =>
    let ended : Asked Unit :=
      match flaw with
      | none => .got ()
      | some flaw => .wrong ⟨fields.length, flaw.reading.problem⟩
    (((read fields).combine (fun a _ => a) (skipOthers layout.keys 0 fields)).combine
      (fun a _ => a) ended).toExcept
  | .array items flaw =>
    ((read (layout.keys.zip items)).combine (fun a _ => a) (layout.ended items flaw)).toExcept
  | j => .error j.mismatch

/-! ### Tagged records

The key `tag` tells which of several records an object is; of an array the first item tells it. All of the
tree is read before the other fields are decoded; only the tag itself is looked at as soon as it comes. -/

/-- The name of a record. -/
def asTag (ofName? : String → Option τ) : Decoder τ := fun j => do
  let s ← asString j
  (ofName? s).elim (.error .shape) .ok

/-- The tag, the other fields, or the first problem of reading them. -/
def splitTag (tag : String) (ofName? : String → Option τ) :
    Option τ → List (String × Json) → Except Problem (Option τ × List (String × Json))
  | found, [] => .ok (found, [])
  | found, (key, j) :: rest =>
    if key = tag then
      match found with
      | some _ => .error .shape
      | none => do
        let t ← asTag ofName? j
        splitTag tag ofName? (some t) rest
    else
      match j.readingFault with
      | some f => .error f.problem
      | none => do
        let (found, others) ← splitTag tag ofName? found rest
        return (found, (key, j) :: others)

def asTagged (tag : String) (ofName? : String → Option τ) (layout : τ → Layout)
    (read : τ → List (String × Json) → Asked α) : Decoder α
  | .object fields flaw => do
    let (found, others) ← splitTag tag ofName? none fields
    let _ ← closing flaw ()
    match found with
    | none => .error .shape
    | some t => Medium.buffer.settle (read t others).toExcept
  | .array [] flaw => .error ((flaw.map fun f => f.reading.problem).getD .shape)
  | .array (j :: items) flaw => do
    let t ← asTag ofName? j
    match (itemsFault items).or (flaw.map Flaw.reading) with
    | some f => .error f.problem
    | none => Medium.buffer.settle (asRecord (layout t) (read t) (.list items))
  | j => .error j.mismatch

/-- Decodes a whole text: behind the tree only blanks may follow. -/
def decodeText (decode : Decoder α) (s : String) : Except Problem α := do
  let (j, rest) := read s
  let a ← decode j
  match skipSpace (rest.getD []) with
  | [] => .ok a
  | _ => .error .malformed

end FlowScript.Json
