import FlowScript.Scope

/-! The text of values for those who look into a running system: it shows types, quotes strings and
marks floats as such. -/
namespace FlowScript

namespace Value

/-- A character inside quotes. -/
def describeChar (c : Char) : List Char :=
  if c = '"' then ['\\', '"']
  else if c = '\\' then ['\\', '\\']
  else if c = '\n' then ['\\', 'n']
  else if c = '\r' then ['\\', 'r']
  else if c = '\t' then ['\\', 't']
  else if c.toNat = 0 then ['\\', '0']
  else if c.toNat < 32 ∨ (127 ≤ c.toNat ∧ c.toNat < 160) then
    ['\\', 'u', '\x7b'] ++ Nat.toDigits 16 c.toNat ++ ['\x7d']
  else [c]

def describeString (s : String) : String :=
  "\"" ++ String.ofList (s.toList.flatMap describeChar) ++ "\""

/-- By position near one, with one place at least; far from one with an exponent. -/
def describeFloat (f : Float) : String :=
  let layout : Decimal.Layout := ⟨fun e => -5 ≤ e && e ≤ 15, ".0", .away⟩
  match layout.render? f with
  | some text => String.ofList (text.toList.filter (· ≠ '+'))
  | none => Decimal.display f

mutual

def describe : Value → String
  | .null => "Null"
  | .bool b => "Bool(" ++ (if b then "true" else "false") ++ ")"
  | .int i => "Int(" ++ toString i.toInt ++ ")"
  | .float f => "Float(" ++ describeFloat f ++ ")"
  | .str s => "Str(" ++ describeString s ++ ")"
  | .list items => "List([" ++ ", ".intercalate (describeItems items) ++ "])"
  | .map entries => "Map(\x7b" ++ ", ".intercalate (describeEntries entries) ++ "\x7d)"

def describeItems : List Value → List String
  | [] => []
  | v :: rest => describe v :: describeItems rest

def describeEntries : List (String × Value) → List String
  | [] => []
  | (name, v) :: rest => (describeString name ++ ": " ++ describe v) :: describeEntries rest

end
end Value

/-- A scope with its own bindings and the number of its ancestors. -/
def Heap.describe (h : Heap) (e : ScopeId) : String :=
  "Env \x7b bindings: \x7b" ++ ", ".intercalate (Value.describeEntries (h.locals e)) ++
    "\x7d, depth: " ++ toString (h.depth e) ++ " \x7d"

end FlowScript
