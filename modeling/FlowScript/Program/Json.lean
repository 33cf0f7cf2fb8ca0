import FlowScript.Program
import FlowScript.Value.Json

/-! Programs as JSON, and the compilation of a program's text. -/
namespace FlowScript

namespace CatchClause

def toJson (c : CatchClause) : Json :=
  .record [("kind", .optional (c.kind.map .string)), ("var", .string c.variableName), ("body", .int c.body)]

def ofJson : Json.Decoder CatchClause :=
  Json.asRecord ⟨["kind", "var", "body"], 3⟩ fun fields =>
    CatchClause.mk <$> Json.optionalField fields "kind" Json.asString
      <*> Json.required fields "var" Json.asString
      <*> Json.required fields "body" (Json.asNat UInt32.size)

end CatchClause

/-- The kinds of blocks, as they are written. -/
inductive Block.Tag where
  | constant | readVariable | declare | assign | logical | not | binary | ifElse | whileLoop
  | sequence | scope | property | setProperty | call | throw | tryCatch | yield
  deriving DecidableEq, Repr

namespace Block

def Tag.all : List Tag :=
  [.constant, .readVariable, .declare, .assign, .logical, .not, .binary, .ifElse, .whileLoop,
    .sequence, .scope, .property, .setProperty, .call, .throw, .tryCatch, .yield]

def Tag.name : Tag → String
  | .constant => "constant" | .readVariable => "local_var" | .declare => "declare"
  | .assign => "assign" | .logical => "logical" | .not => "not" | .binary => "binary"
  | .ifElse => "if" | .whileLoop => "while" | .sequence => "sequence" | .scope => "scope"
  | .property => "property" | .setProperty => "set_property" | .call => "call"
  | .throw => "throw" | .tryCatch => "try" | .yield => "yield"

def Tag.ofName? (name : String) : Option Tag := all.find? (·.name == name)

theorem Tag.ofName?_name (t : Tag) : ofName? t.name = some t := by cases t <;> decide

def idJson (b : BlockId) : Json := .int b

def tagged (t : Tag) (fields : List (String × Json)) : Json :=
  .record (("block", .string t.name) :: fields)

def toJson : Block → Json
  | .constant v => tagged .constant [("value", v.toJson)]
  | .readVariable name => tagged .readVariable [("name", .string name)]
  | .declare name init =>
    tagged .declare [("name", .string name), ("init", .optional (init.map idJson))]
  | .assign name value => tagged .assign [("name", .string name), ("value", idJson value)]
  | .logical op lhs rhs =>
    tagged .logical [("op", .string op.name), ("lhs", idJson lhs), ("rhs", idJson rhs)]
  | .not operand => tagged .not [("operand", idJson operand)]
  | .binary op lhs rhs =>
    tagged .binary [("op", .string op.name), ("lhs", idJson lhs), ("rhs", idJson rhs)]
  | .ifElse cond thenBranch elseBranch =>
    tagged .ifElse [("cond", idJson cond), ("then_branch", idJson thenBranch),
      ("else_branch", .optional (elseBranch.map idJson))]
  | .whileLoop cond body => tagged .whileLoop [("cond", idJson cond), ("body", idJson body)]
  | .sequence body => tagged .sequence [("body", .list (body.map idJson))]
  | .scope body => tagged .scope [("body", idJson body)]
  | .property receiver name isAttribute =>
    tagged .property
      [("receiver", idJson receiver), ("name", .string name), ("attribute", .bool isAttribute)]
  | .setProperty target name value isAttribute =>
    tagged .setProperty [("target", .string target), ("name", .string name), ("value", idJson value),
      ("attribute", .bool isAttribute)]
  | .call receiver method args =>
    tagged .call [("receiver", .optional (receiver.map idJson)), ("method", .string method),
      ("args", .list (args.map idJson))]
  | .throw value => tagged .throw [("value", idJson value)]
  | .tryCatch body clauses cleanup =>
    tagged .tryCatch [("body", idJson body), ("catches", .list (clauses.map CatchClause.toJson)),
      ("finally", .optional (cleanup.map idJson))]
  | .yield request => tagged .yield [("request", idJson request)]

def asId : Json.Decoder BlockId := Json.asNat UInt32.size

/-- The fields of a block of the given kind. Those that may be missing stand at the end. -/
def Tag.layout : Tag → Json.Layout
  | .constant => ⟨["value"], 1⟩
  | .readVariable => ⟨["name"], 1⟩
  | .declare => ⟨["name", "init"], 1⟩
  | .assign => ⟨["name", "value"], 2⟩
  | .logical | .binary => ⟨["op", "lhs", "rhs"], 3⟩
  | .not => ⟨["operand"], 1⟩
  | .ifElse => ⟨["cond", "then_branch", "else_branch"], 2⟩
  | .whileLoop => ⟨["cond", "body"], 2⟩
  | .sequence | .scope => ⟨["body"], 1⟩
  | .property => ⟨["receiver", "name", "attribute"], 2⟩
  | .setProperty => ⟨["target", "name", "value", "attribute"], 3⟩
  | .call => ⟨["receiver", "method", "args"], 2⟩
  | .throw => ⟨["value"], 1⟩
  | .tryCatch => ⟨["body", "catches", "finally"], 1⟩
  | .yield => ⟨["request"], 1⟩

/-- Reads the fields of a block of the given kind. -/
def ofFields (t : Tag) (fields : List (String × Json)) : Json.Asked Block :=
  let id := fun key => Json.required fields key asId
  let id? := fun key => Json.optionalField fields key asId
  let name := fun key => Json.required fields key Json.asString
  let flag := fun key => Json.defaulted fields key false Json.asBool
  match t with
  | .constant => Block.constant <$> Json.required fields "value" (Value.ofJson .buffer)
  | .readVariable => Block.readVariable <$> name "name"
  | .declare => Block.declare <$> name "name" <*> id? "init"
  | .assign => Block.assign <$> name "name" <*> id "value"
  | .logical =>
    Block.logical <$> Json.required fields "op" (Json.asName .buffer LogicalOp.ofName?) <*> id "lhs" <*> id "rhs"
  | .not => Block.not <$> id "operand"
  | .binary =>
    Block.binary <$> Json.required fields "op" (Json.asName .buffer BinaryOp.ofName?) <*> id "lhs" <*> id "rhs"
  | .ifElse => Block.ifElse <$> id "cond" <*> id "then_branch" <*> id? "else_branch"
  | .whileLoop => Block.whileLoop <$> id "cond" <*> id "body"
  | .sequence => Block.sequence <$> Json.required fields "body" (Json.asList asId)
  | .scope => Block.scope <$> id "body"
  | .property => Block.property <$> id "receiver" <*> name "name" <*> flag "attribute"
  | .setProperty =>
    Block.setProperty <$> name "target" <*> name "name" <*> id "value" <*> flag "attribute"
  | .call =>
    Block.call <$> id? "receiver" <*> name "method"
      <*> Json.defaulted fields "args" [] (Json.asList asId)
  | .throw => Block.throw <$> id "value"
  | .tryCatch =>
    Block.tryCatch <$> id "body" <*> Json.defaulted fields "catches" [] (Json.asList CatchClause.ofJson)
      <*> id? "finally"
  | .yield => Block.yield <$> id "request"

def ofJson : Json.Decoder Block := Json.asTagged "block" Tag.ofName? Tag.layout ofFields

end Block

namespace Program

def toJson (p : Program) : Json :=
  .record [("blocks", .list (p.blocks.toList.map Block.toJson)), ("root", Block.idJson p.root)]

def ofJson : Json.Decoder Program :=
  Json.asRecord ⟨["blocks", "root"], 2⟩ fun fields =>
    (fun blocks root => Program.mk blocks.toArray root)
      <$> Json.required fields "blocks" (Json.asList Block.ofJson)
      <*> Json.required fields "root" Block.asId

end Program

/-- Why a text is no program. -/
inductive CompileError where
  | encoding (problem : Json.Problem)
  | invalid (error : ProgramError)
  deriving DecidableEq, Repr

/-- The wording for an invalid program; that for a bad encoding is left to who shows it. -/
def CompileError.message : CompileError → String
  | .encoding _ => "Invalid program encoding"
  | .invalid error => "Invalid program: " ++ error.message

/-- The program that a text encodes. -/
def Program.compile (text : String) : Except CompileError Program :=
  match Json.decodeText Program.ofJson text with
  | .error problem => .error (.encoding problem)
  | .ok p =>
    match p.validate with
    | .error error => .error (.invalid error)
    | .ok () => .ok p

end FlowScript
