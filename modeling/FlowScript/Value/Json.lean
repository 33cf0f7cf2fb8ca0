import FlowScript.Failure
import FlowScript.Json.Decoder
import FlowScript.Json.Printer

/-! Values and failures as JSON. A value is an object with its type and, unless it is null, its
content; the two may come in either order. An array of type and content is read as a value, too. -/
namespace FlowScript

/-- The types of values, as they are written. -/
inductive Value.Tag where
  | null | bool | int | float | str | list | map
  deriving DecidableEq, Repr

namespace Value

def Tag.all : List Tag := [.null, .bool, .int, .float, .str, .list, .map]

def Tag.name : Tag → String
  | .null => "null" | .bool => "bool" | .int => "int" | .float => "float"
  | .str => "str" | .list => "list" | .map => "map"

def Tag.ofName? (name : String) : Option Tag := all.find? (·.name == name)

theorem Tag.ofName?_name (t : Tag) : ofName? t.name = some t := by cases t <;> decide

def tagged (t : Tag) (content : Json) : Json :=
  .record [("type", .string t.name), ("value", content)]

mutual

def toJson : Value → Json
  | .null => .record [("type", .string Tag.null.name)]
  | .bool b => tagged .bool (.bool b)
  | .int i => tagged .int (.int i.toInt)
  | .float f => tagged .float (.number (.float f))
  | .str s => tagged .str (.string s)
  | .list items => tagged .list (.list (itemsToJson items))
  | .map entries => tagged .map (.record (entriesToJson entries))

def itemsToJson : List Value → List Json
  | [] => []
  | v :: rest => toJson v :: itemsToJson rest

def entriesToJson : List (String × Value) → List (String × Json)
  | [] => []
  | (name, v) :: rest => (name, toJson v) :: entriesToJson rest

end

/-- Content that is no array and no object. -/
def ofScalar (t : Tag) (j : Json) : Except Json.Problem Value :=
  match t with
  | .null =>
    match j with
    | .null => .ok .null
    | j => .error j.mismatch
  | .bool => (Json.asBool j).map .bool
  | .int => (Json.asInt64 j).map .int
  | .float => (Json.asFloat j).map .float
  | .str => (Json.asString j).map .str
  | .list | .map => .error j.mismatch

/-- Reads a part of the text without decoding it. -/
def onlyRead : Json.Decoder Unit := fun j =>
  match j.readingFault with
  | some f => .error f.problem
  | none => .ok ()

/-- Content that comes before its type is only read until the type is known. -/
def readEarly (fields : List (String × Json)) : Json.Asked Unit :=
  match Json.placesOf "type" 0 fields, Json.placesOf "value" 0 fields with
  | (tagPlace, _) :: _, (place, _) :: _ =>
    if place < tagPlace then Json.required fields "value" onlyRead else .got ()
  | [], _ :: _ => Json.required fields "value" onlyRead
  | _, [] => .got ()

/-- What the content comes to under the type, found wrong where both are known. -/
def typedContent (fields : List (String × Json)) (content : Tag → Option (Except Json.Problem Value))
    (t : Tag) : Json.Asked Value :=
  match Json.placesOf "value" 0 fields, content t with
  | [(_, _)], some (.ok v) => .got v
  | (_, _) :: (again, _) :: _, some (.ok _) => .wrong ⟨again, .shape⟩
  | (place, _) :: _, some (.error p) =>
    .wrong ⟨((Json.placesOf "type" 0 fields).map Prod.fst).headD 0 |> max place, p⟩
  | _, _ => if t = .null then .got .null else .wrong ⟨fields.length + 1, .shape⟩

/-- Puts together what type and content say. -/
def assemble (medium : Json.Medium) (fields : List (String × Json))
    (content : Tag → Option (Except Json.Problem Value)) : Json.Asked Value :=
  let value : Json.Asked Value :=
    match Json.required fields "type" (Json.asName medium Tag.ofName?) with
    | .got t => typedContent fields content t
    | .wrong w => .wrong w
  value.combine (fun v _ => v) (readEarly fields)

def layout : Json.Layout := ⟨["type", "value"], 2⟩

mutual

def ofJson (medium : Json.Medium) : Json → Except Json.Problem Value
  | .object fields flaw =>
    Json.asRecord layout (fun fields' => assemble medium fields' fun t => ofFields medium .buffer t fields)
      (.object fields flaw)
  | .array items flaw =>
    Json.asRecord layout (fun fields => assemble medium fields fun t => ofSecond medium t items)
      (.array items flaw)
  | j => .error j.mismatch

/-- The content among the fields of a value. It is put aside where it comes before the type. -/
def ofFields (medium current : Json.Medium) (t : Tag) :
    List (String × Json) → Option (Except Json.Problem Value)
  | [] => none
  | (key, j) :: rest =>
    if key = "value" then some (current.settle (ofContent current t j))
    else ofFields medium (if key = "type" then medium else current) t rest

/-- The content in an array of type and content. -/
def ofSecond (medium : Json.Medium) (t : Tag) : List Json → Option (Except Json.Problem Value)
  | _ :: j :: _ => some (ofContent medium t j)
  | _ => none

def ofContent (medium : Json.Medium) (t : Tag) : Json → Except Json.Problem Value
  | .array items flaw =>
    if t = .list then do
      let vs ← ofItems medium items
      Json.closing flaw (.list vs)
    else .error .shape
  | .object fields flaw =>
    if t = .map then do
      let pairs ← ofEntries medium fields
      Json.closing flaw (.map (Entries.ofPairs pairs))
    else .error .shape
  | j => ofScalar t j

def ofItems (medium : Json.Medium) : List Json → Except Json.Problem (List Value)
  | [] => .ok []
  | j :: rest => do
    let v ← ofJson medium j
    let vs ← ofItems medium rest
    return v :: vs

def ofEntries (medium : Json.Medium) : List (String × Json) → Except Json.Problem (List (String × Value))
  | [] => .ok []
  | (name, j) :: rest => do
    let v ← ofJson medium j
    let vs ← ofEntries medium rest
    return (name, v) :: vs

end

def bindingsOfJson (medium : Json.Medium) : Json.Decoder Bindings := Json.asEntries (ofJson medium)

def bindingsToJson (b : Bindings) : Json := .record (entriesToJson b)

end Value

namespace Failure

def toJson (f : Failure) : Json :=
  .record ([("kind", .string f.kind), ("message", .string f.message)] ++
    (f.payload.map fun payload => ("payload", payload.toJson)).toList)

def ofJson (medium : Json.Medium) : Json.Decoder Failure :=
  Json.asRecord ⟨["kind", "message", "payload"], 2⟩ fun fields =>
    Failure.mk <$> Json.required fields "kind" Json.asString
      <*> Json.required fields "message" Json.asString
      <*> Json.optionalField fields "payload" (Value.ofJson medium)

end Failure

namespace Signal

def toJson : Signal → Json
  | .value v => .record [("value", v.toJson)]
  | .thrown f => .record [("thrown", f.toJson)]

/-- An object with one field, which tells what the signal is. -/
def ofJson (medium : Json.Medium) : Json.Decoder Signal
  | .object [("value", j)] flaw => do
    let v ← Value.ofJson medium j
    Json.closing flaw (.value v)
  | .object [("thrown", j)] flaw => do
    let f ← Failure.ofJson medium j
    Json.closing flaw (.thrown f)
  | j => .error j.mismatch

end Signal
end FlowScript
