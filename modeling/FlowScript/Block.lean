import FlowScript.Operator

/-! The blocks of a program. A block names the blocks it evaluates by number. -/
namespace FlowScript

abbrev BlockId := Nat

def BlockId.text (b : BlockId) : String := "#" ++ toString b

inductive LogicalOp where
  | and | or
  deriving DecidableEq, Repr

def LogicalOp.name : LogicalOp → String
  | .and => "and"
  | .or => "or"

def LogicalOp.ofName? (name : String) : Option LogicalOp := [and, or].find? (·.name == name)

/-- One clause of a `try`: it catches failures of its kind, or all if it has none, and runs its body
with the failure bound to its variable. -/
structure CatchClause where
  kind : Option String
  variableName : String
  body : BlockId
  deriving DecidableEq, Repr

def CatchClause.catches (c : CatchClause) (f : Failure) : Bool :=
  match c.kind with
  | none => true
  | some kind => kind == f.kind

inductive Block where
  | constant (value : Value)
  | readVariable (name : String)
  | declare (name : String) (init : Option BlockId)
  | assign (name : String) (value : BlockId)
  | logical (op : LogicalOp) (lhs rhs : BlockId)
  | not (operand : BlockId)
  | binary (op : BinaryOp) (lhs rhs : BlockId)
  | ifElse (cond thenBranch : BlockId) (elseBranch : Option BlockId)
  | whileLoop (cond body : BlockId)
  | sequence (body : List BlockId)
  | scope (body : BlockId)
  | property (receiver : BlockId) (name : String) (isAttribute : Bool)
  | setProperty (target name : String) (value : BlockId) (isAttribute : Bool)
  | call (receiver : Option BlockId) (method : String) (args : List BlockId)
  | throw (value : BlockId)
  | tryCatch (body : BlockId) (clauses : List CatchClause) (cleanup : Option BlockId)
  | yield (request : BlockId)

/-- The blocks that a block may evaluate. -/
def Block.children : Block → List BlockId
  | .constant _ | .readVariable _ => []
  | .declare _ init => init.toList
  | .assign _ value => [value]
  | .logical _ lhs rhs | .binary _ lhs rhs => [lhs, rhs]
  | .not operand => [operand]
  | .ifElse cond thenBranch elseBranch => cond :: thenBranch :: elseBranch.toList
  | .whileLoop cond body => [cond, body]
  | .sequence body => body
  | .scope body => [body]
  | .property receiver _ _ => [receiver]
  | .setProperty _ _ value _ => [value]
  | .call receiver _ args => receiver.toList ++ args
  | .throw value => [value]
  | .tryCatch body clauses cleanup => body :: clauses.map CatchClause.body ++ cleanup.toList
  | .yield request => [request]

end FlowScript
