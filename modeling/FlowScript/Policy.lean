import FlowScript.Invocation
import FlowScript.Json.Decoder
import FlowScript.Json.Printer

/-! Access policies: named lists of what scripts may do. `Type.member` allows one member, `Type.*` all
members of a type and `*` everything. -/
namespace FlowScript

/-- The allowed signatures stand in order, each once. -/
structure Policy where
  name : String
  allowed : Entries Unit
  deriving DecidableEq

namespace Policy

def any : String := "*"

def strict (name : String) : Policy := ⟨name, []⟩

def allow (p : Policy) (signature : String) : Policy := { p with allowed := p.allowed.insert signature () }

def allowAll (p : Policy) (signatures : List String) : Policy := signatures.foldl allow p

/-- The policy of trusted scripts. -/
def unrestricted : Policy := (strict "unrestricted").allow any

def allows (p : Policy) (signature : String) : Bool := p.allowed.binds signature

def permits (p : Policy) (call : Invocation) : Bool :=
  p.allows any || p.allows call.signature || p.allows (call.receiverType ++ "." ++ any)

def rejectedKind : String := "RejectedAccess"

def rejection (call : Invocation) : Failure :=
  .plain rejectedKind ("Scripts not permitted to use " ++ call.signature)

def toJson (p : Policy) : Json :=
  .record [("name", .string p.name), ("allowed", .list (p.allowed.names.map .string))]

def ofJson : Json.Decoder Policy :=
  Json.asRecord ⟨["name", "allowed"], 2⟩ fun fields =>
    (fun name allowed => (strict name).allowAll allowed)
      <$> Json.required fields "name" Json.asString
      <*> Json.required fields "allowed" (Json.asList Json.asString)

/-- A grant adds what its signature names and takes nothing away. -/
theorem permits_allow (p : Policy) (signature : String) (call : Invocation) :
    (p.allow signature).permits call =
      (p.permits call || signature == any || signature == call.signature ||
        signature == call.receiverType ++ "." ++ any) := by
  simp only [permits, allows, allow, Entries.binds, Entries.find?_insert]
  grind

end Policy
end FlowScript
