import FlowScript.Frame
import FlowScript.Invocation
import FlowScript.Program.Json

/-! Captured state and invocations as JSON. -/
namespace FlowScript

namespace Captured

open Block (idJson asId)

def tagged (t : Tag) (fields : List (String × Json)) : Json :=
  .record (("kind", .string t.name) :: fields)

def toJson : Captured → Json
  | .logical op rhs => tagged .logical [("op", .string op.name), ("rhs", idJson rhs)]
  | .not => tagged .not []
  | .binaryLhs op rhs => tagged .binaryLhs [("op", .string op.name), ("rhs", idJson rhs)]
  | .binaryRhs op lhs => tagged .binaryRhs [("op", .string op.name), ("lhs", lhs.toJson)]
  | .declare name => tagged .declare [("name", .string name)]
  | .assign name => tagged .assign [("name", .string name)]
  | .branch thenBranch elseBranch =>
    tagged .branch [("then_branch", idJson thenBranch), ("else_branch", .optional (elseBranch.map idJson))]
  | .loop cond body => tagged .loop [("cond", idJson cond), ("body", idJson body)]
  | .sequence body index => tagged .sequence [("body", .list (body.map idJson)), ("index", .int index)]
  | .property name isAttribute =>
    tagged .property [("name", .string name), ("attribute", .bool isAttribute)]
  | .propertyStore target name isAttribute =>
    tagged .propertyStore [("target", .string target), ("name", .string name),
      ("attribute", .bool isAttribute)]
  | .storeReceiver target value =>
    tagged .storeReceiver [("target", .string target), ("value", value.toJson)]
  | .call method args receiver evaluated =>
    tagged .call [("method", .string method), ("args", .list (args.map idJson)),
      ("receiver", .optional (receiver.map Value.toJson)),
      ("evaluated", .list (evaluated.map Value.toJson))]
  | .throw => tagged .throw []
  | .guarded clauses last =>
    tagged .guarded [("catches", .list (clauses.map CatchClause.toJson)),
      ("finally", .optional (last.map idJson))]
  | .handler last => tagged .handler [("finally", .optional (last.map idJson))]
  | .cleanup pending => tagged .cleanup [("pending", pending.toJson)]
  | .yield => tagged .yield []

/-- The fields of captured state of the given kind. None of them may be missing in an array. -/
def Tag.layout (t : Tag) : Json.Layout :=
  let keys := match t with
    | .logical | .binaryLhs => ["op", "rhs"]
    | .binaryRhs => ["op", "lhs"]
    | .declare | .assign => ["name"]
    | .branch => ["then_branch", "else_branch"]
    | .loop => ["cond", "body"]
    | .sequence => ["body", "index"]
    | .property => ["name", "attribute"]
    | .propertyStore => ["target", "name", "attribute"]
    | .storeReceiver => ["target", "value"]
    | .call => ["method", "args", "receiver", "evaluated"]
    | .guarded => ["catches", "finally"]
    | .handler => ["finally"]
    | .cleanup => ["pending"]
    | .not | .throw | .yield => []
  ⟨keys, keys.length⟩

/-- Reads the fields of captured state of the given kind. -/
def ofFields (t : Tag) (fields : List (String × Json)) : Json.Asked Captured :=
  let id := fun key => Json.required fields key asId
  let id? := fun key => Json.optionalField fields key asId
  let name := fun key => Json.required fields key Json.asString
  let flag := fun key => Json.required fields key Json.asBool
  let value := fun key => Json.required fields key (Value.ofJson .buffer)
  match t with
  | .logical =>
    Captured.logical <$> Json.required fields "op" (Json.asName .buffer LogicalOp.ofName?) <*> id "rhs"
  | .not => pure .not
  | .binaryLhs =>
    Captured.binaryLhs <$> Json.required fields "op" (Json.asName .buffer BinaryOp.ofName?) <*> id "rhs"
  | .binaryRhs =>
    Captured.binaryRhs <$> Json.required fields "op" (Json.asName .buffer BinaryOp.ofName?) <*> value "lhs"
  | .declare => Captured.declare <$> name "name"
  | .assign => Captured.assign <$> name "name"
  | .branch => Captured.branch <$> id "then_branch" <*> id? "else_branch"
  | .loop => Captured.loop <$> id "cond" <*> id "body"
  | .sequence =>
    Captured.sequence <$> Json.required fields "body" (Json.asList asId)
      <*> Json.required fields "index" (Json.asNat UInt64.size)
  | .property => Captured.property <$> name "name" <*> flag "attribute"
  | .propertyStore => Captured.propertyStore <$> name "target" <*> name "name" <*> flag "attribute"
  | .storeReceiver => Captured.storeReceiver <$> name "target" <*> value "value"
  | .call =>
    Captured.call <$> name "method" <*> Json.required fields "args" (Json.asList asId)
      <*> Json.optionalField fields "receiver" (Value.ofJson .buffer)
      <*> Json.required fields "evaluated" (Json.asList (Value.ofJson .buffer))
  | .throw => pure .throw
  | .guarded =>
    Captured.guarded <$> Json.required fields "catches" (Json.asList CatchClause.ofJson) <*> id? "finally"
  | .handler => Captured.handler <$> id? "finally"
  | .cleanup => Captured.cleanup <$> Json.required fields "pending" (Signal.ofJson .buffer)
  | .yield => pure .yield

def ofJson : Json.Decoder Captured := Json.asTagged "kind" Tag.ofName? Tag.layout ofFields

end Captured

/-- The kinds of invocations, as they are written. -/
inductive Invocation.Tag where
  | methodCall | getProperty | setProperty | getAttribute | setAttribute
  deriving DecidableEq, Repr

namespace Invocation

def Tag.all : List Tag := [.methodCall, .getProperty, .setProperty, .getAttribute, .setAttribute]

def Tag.name : Tag → String
  | .methodCall => "method_call" | .getProperty => "get_property" | .setProperty => "set_property"
  | .getAttribute => "get_attribute" | .setAttribute => "set_attribute"

def Tag.ofName? (name : String) : Option Tag := all.find? (·.name == name)

def tag : Invocation → Tag
  | .methodCall .. => .methodCall | .getProperty .. => .getProperty
  | .setProperty .. => .setProperty | .getAttribute .. => .getAttribute
  | .setAttribute .. => .setAttribute

/-- The fields of an invocation of the given kind. None of them may be missing. -/
def Tag.layout (t : Tag) : Json.Layout :=
  let keys := match t with
    | .methodCall => ["receiver", "method", "args"]
    | .getProperty | .getAttribute => ["receiver", "name"]
    | .setProperty | .setAttribute => ["receiver", "name", "value"]
  ⟨keys, keys.length⟩

/-- Reads the fields of an invocation of the given kind. -/
def ofFields (t : Tag) (fields : List (String × Json)) : Json.Asked Invocation :=
  let value := fun key => Json.required fields key (Value.ofJson .buffer)
  let name := fun key => Json.required fields key Json.asString
  match t with
  | .methodCall =>
    Invocation.methodCall <$> value "receiver" <*> name "method"
      <*> Json.required fields "args" (Json.asList (Value.ofJson .buffer))
  | .getProperty => Invocation.getProperty <$> value "receiver" <*> name "name"
  | .setProperty => Invocation.setProperty <$> value "receiver" <*> name "name" <*> value "value"
  | .getAttribute => Invocation.getAttribute <$> value "receiver" <*> name "name"
  | .setAttribute => Invocation.setAttribute <$> value "receiver" <*> name "name" <*> value "value"

def ofJson : Json.Decoder Invocation := Json.asTagged "call" Tag.ofName? Tag.layout ofFields

end Invocation
end FlowScript
