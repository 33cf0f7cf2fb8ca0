/-! JSON as it is read. A text may break off or go wrong in its middle, and what stands before the fault
is still worth decoding: the first thing that is wrong, in the order of the text, is what counts. So
a tree keeps its faults in their places.

Some text is well-formed but cannot be read as data (a number out of range, half a surrogate pair,
brackets nested too deeply). Such a flaw matters only where the data is asked for; a field that
nobody asks for is skipped over. -/
namespace FlowScript

/-- Why a text is not JSON: something stands where it may not stand, or the text ends too early. -/
inductive Json.Fault where
  | malformed
  | truncated
  deriving DecidableEq, Repr

/-- A place that cannot be read as data, and the fault met when it is only skipped, if any. -/
structure Json.Flaw where
  reading : Json.Fault
  skipping : Option Json.Fault
  deriving DecidableEq, Repr

/-- A number is an integer where it is written as one, is not a negative zero, and lies between the
least signed and the greatest unsigned number of 64 bits. -/
inductive Json.Number where
  | int (i : Int)
  | float (f : Float)

/-- The items of an array and the fields of an object are those before the flaw, if there is one. -/
inductive Json where
  | null
  | bool (b : Bool)
  | number (n : Json.Number)
  | string (s : String)
  | array (items : List Json) (flaw : Option Json.Flaw)
  | object (fields : List (String × Json)) (flaw : Option Json.Flaw)
  | flawed (flaw : Json.Flaw)

namespace Json

instance : Inhabited Json := ⟨.null⟩

/-- A fault that is met whether the place is read or skipped. -/
def Flaw.ofFault (f : Fault) : Flaw := ⟨f, some f⟩

def list (items : List Json) : Json := .array items none

def record (fields : List (String × Json)) : Json := .object fields none

def int (i : Int) : Json := .number (.int i)

/-- The value, or null. -/
def optional (o : Option Json) : Json := o.getD .null

mutual

/-- The first fault met when all of a tree is read. -/
def readingFault : Json → Option Fault
  | .array items flaw => (itemsFault items).or (flaw.map Flaw.reading)
  | .object fields flaw => (fieldsFault fields).or (flaw.map Flaw.reading)
  | .flawed flaw => some flaw.reading
  | _ => none

def itemsFault : List Json → Option Fault
  | [] => none
  | j :: rest => (readingFault j).or (itemsFault rest)

def fieldsFault : List (String × Json) → Option Fault
  | [] => none
  | (_, j) :: rest => (readingFault j).or (fieldsFault rest)

end

mutual

/-- The first fault met when a tree is skipped. -/
def skippingFault : Json → Option Fault
  | .array items flaw => (skippedItemsFault items).or (flaw.bind Flaw.skipping)
  | .object fields flaw => (skippedFieldsFault fields).or (flaw.bind Flaw.skipping)
  | .flawed flaw => flaw.skipping
  | _ => none

def skippedItemsFault : List Json → Option Fault
  | [] => none
  | j :: rest => (skippingFault j).or (skippedItemsFault rest)

def skippedFieldsFault : List (String × Json) → Option Fault
  | [] => none
  | (_, j) :: rest => (skippingFault j).or (skippedFieldsFault rest)

end
end Json
end FlowScript
