import FlowScript.Decimal.Layout
import FlowScript.Entries

/-! The values that scripts compute with. They are plain data, so whatever holds a value can be
written out and read back. -/
namespace FlowScript

/-- A map keeps its entries in the order of their names, one entry a name. -/
inductive Value where
  | null
  | bool (b : Bool)
  | int (i : Int64)
  | float (f : Float)
  | str (s : String)
  | list (items : List Value)
  | map (entries : List (String × Value))

instance : Inhabited Value := ⟨.null⟩

/-- The bindings of a scope, the entries of a map. -/
abbrev Bindings := Entries Value

namespace Value

mutual

/-- Whether two values are equal; no number that is not one equals itself, and zeros are equal. -/
def beq : Value → Value → Bool
  | .null, .null => true
  | .bool a, .bool b => a == b
  | .int a, .int b => a == b
  | .float a, .float b => a == b
  | .str a, .str b => a == b
  | .list a, .list b => beqItems a b
  | .map a, .map b => beqEntries a b
  | _, _ => false

def beqItems : List Value → List Value → Bool
  | [], [] => true
  | a :: as, b :: bs => beq a b && beqItems as bs
  | _, _ => false

def beqEntries : List (String × Value) → List (String × Value) → Bool
  | [], [] => true
  | (name, a) :: as, (other, b) :: bs => name == other && beq a b && beqEntries as bs
  | _, _ => false

end

instance : BEq Value := ⟨beq⟩

/-- What a condition takes for true: all but null, false, zero and the empty containers. -/
def truthy : Value → Bool
  | .null => false
  | .bool b => b
  | .int i => i != 0
  | .float f => f != 0.0
  | .str s => !s.isEmpty
  | .list items => !items.isEmpty
  | .map entries => !entries.isEmpty

def typeName : Value → String
  | .null => "Null"
  | .bool _ => "Boolean"
  | .int _ => "Integer"
  | .float _ => "Float"
  | .str _ => "String"
  | .list _ => "List"
  | .map _ => "Map"

def str? : Value → Option String
  | .str s => some s
  | _ => none

def int? : Value → Option Int64
  | .int i => some i
  | _ => none

mutual

/-- The text of a value for a reader: strings stand without quotes. -/
def text : Value → String
  | .null => "null"
  | .bool b => if b then "true" else "false"
  | .int i => toString i.toInt
  | .float f => Decimal.display f
  | .str s => s
  | .list items => "[" ++ ", ".intercalate (itemTexts items) ++ "]"
  | .map entries => "[" ++ ", ".intercalate (entryTexts entries) ++ "]"

def itemTexts : List Value → List String
  | [] => []
  | a :: as => text a :: itemTexts as

def entryTexts : List (String × Value) → List String
  | [] => []
  | (name, a) :: as => (name ++ ": " ++ text a) :: entryTexts as

end
end Value
end FlowScript
