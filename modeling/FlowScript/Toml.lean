import FlowScript.Entries

/-! Configuration documents: tables of named values. How a table came to be decides what may still be
added to it: a table is opened by at most one header, and a table that is written out as a value is
closed. -/
namespace FlowScript

/-- A table was opened by a header, is implied by the header of a table in it, is made by keys with
dots, or is written out as a value. -/
inductive Toml.Origin where
  | header
  | implied
  | dotted
  | inline
  deriving DecidableEq, Repr

/-- Numbers with a fraction, dates and times keep their text. -/
inductive Toml where
  | bool (b : Bool)
  | int (i : Int)
  | float (text : String)
  | dateTime (text : String)
  | string (s : String)
  | array (items : List Toml)
  | table (origin : Toml.Origin) (fields : List (String × Toml))
  | tables (elements : List (List (String × Toml)))

namespace Toml

abbrev Fields := Entries Toml

/-- The names that lead to a field, of which the last one is its own. -/
structure Key where
  parents : List String
  name : String
  deriving DecidableEq, Repr

def Key.path (key : Key) : List String := key.parents ++ [key.name]

/-- Changes the table to which names lead. Tables that are missing on the way are made with the origin
`made`; an array of tables leads to its last element. -/
def within (made : Origin) (change : Origin → Fields → Option Fields) :
    List String → Origin → Fields → Option Fields
  | [], origin, fields => change origin fields
  | name :: names, _, fields =>
    match fields.find? name with
    | none => (within made change names made []).map fun inner => fields.insert name (.table made inner)
    | some (.table origin inner) =>
      if origin = .inline ∨ (made = .dotted ∧ origin = .header) then none
      else
        (within made change names origin inner).map fun inner =>
          fields.insert name (.table origin inner)
    | some (.tables elements) =>
      match elements.getLast? with
      | none => none
      | some last =>
        (within made change names .header last).map fun last =>
          fields.insert name (.tables (elements.dropLast ++ [last]))
    | some _ => none

/-- Sets a field that is not set. Dots lead only into tables that dots have made. -/
def assign (key : Key) (v : Toml) : Origin → Fields → Option Fields :=
  within .dotted (fun origin fields =>
    if (key.parents ≠ [] ∧ origin ≠ .dotted) ∨ fields.binds key.name then none
    else some (fields.insert key.name v)) key.parents

/-- Sets a field of the table that a header has opened. -/
def assignUnder (header : List String) (key : Key) (v : Toml) (fields : Fields) : Option Fields :=
  within .implied (assign key v) header .header fields

/-- Opens a table. -/
def openTable (key : Key) (fields : Fields) : Option Fields :=
  within .implied (fun _ fields =>
    match fields.find? key.name with
    | none => some (fields.insert key.name (.table .header []))
    | some (.table .implied inner) => some (fields.insert key.name (.table .header inner))
    | some _ => none) key.parents .header fields

/-- Opens the next element of an array of tables. -/
def openElement (key : Key) (fields : Fields) : Option Fields :=
  within .implied (fun _ fields =>
    match fields.find? key.name with
    | none => some (fields.insert key.name (.tables [[]]))
    | some (.tables elements) => some (fields.insert key.name (.tables (elements ++ [[]])))
    | some _ => none) key.parents .header fields

end Toml
end FlowScript
