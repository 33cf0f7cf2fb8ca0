import FlowScript.Block
import FlowScript.ResumePoint
import FlowScript.Scope

/-! Frames: what is left to do once a block has delivered its signal, as plain data. -/
namespace FlowScript

/-- What a frame keeps for its resume point. -/
inductive Captured where
  | logical (op : LogicalOp) (rhs : BlockId)
  | not
  | binaryLhs (op : BinaryOp) (rhs : BlockId)
  | binaryRhs (op : BinaryOp) (lhs : Value)
  | declare (name : String)
  | assign (name : String)
  | branch (thenBranch : BlockId) (elseBranch : Option BlockId)
  | loop (cond body : BlockId)
  | sequence (body : List BlockId) (index : Nat)
  | property (name : String) (isAttribute : Bool)
  | propertyStore (target name : String) (isAttribute : Bool)
  | storeReceiver (target : String) (value : Value)
  | call (method : String) (args : List BlockId) (receiver : Option Value) (evaluated : List Value)
  | throw
  | guarded (clauses : List CatchClause) (cleanup : Option BlockId)
  | handler (cleanup : Option BlockId)
  | cleanup (pending : Signal)
  | yield

/-- The kinds of captured state, as they are written. -/
inductive Captured.Tag where
  | logical | not | binaryLhs | binaryRhs | declare | assign | branch | loop | sequence | property
  | propertyStore | storeReceiver | call | throw | guarded | handler | cleanup | yield
  deriving DecidableEq, Repr

namespace Captured

def Tag.all : List Tag :=
  [.logical, .not, .binaryLhs, .binaryRhs, .declare, .assign, .branch, .loop, .sequence, .property,
    .propertyStore, .storeReceiver, .call, .throw, .guarded, .handler, .cleanup, .yield]

def Tag.name : Tag → String
  | .logical => "logical" | .not => "not" | .binaryLhs => "binary_lhs"
  | .binaryRhs => "binary_rhs" | .declare => "declare" | .assign => "assign"
  | .branch => "branch" | .loop => "loop" | .sequence => "sequence" | .property => "property"
  | .propertyStore => "property_store" | .storeReceiver => "store_receiver" | .call => "call"
  | .throw => "throw" | .guarded => "guarded" | .handler => "handler" | .cleanup => "finally"
  | .yield => "yield"

def Tag.ofName? (name : String) : Option Tag := all.find? (·.name == name)

theorem Tag.ofName?_name (t : Tag) : ofName? t.name = some t := by cases t <;> decide

def tag : Captured → Tag
  | .logical .. => .logical | .not => .not | .binaryLhs .. => .binaryLhs
  | .binaryRhs .. => .binaryRhs | .declare .. => .declare | .assign .. => .assign
  | .branch .. => .branch | .loop .. => .loop | .sequence .. => .sequence
  | .property .. => .property | .propertyStore .. => .propertyStore
  | .storeReceiver .. => .storeReceiver | .call .. => .call | .throw => .throw
  | .guarded .. => .guarded | .handler .. => .handler | .cleanup .. => .cleanup
  | .yield => .yield

/-- The name of the kind of captured state. -/
def kind (c : Captured) : String := c.tag.name

end Captured

structure Frame where
  point : ResumePoint
  scope : ScopeId
  captured : Captured

/-- The frames that wait for a signal, the innermost first; the empty one ends the run. -/
abbrev Continuation := List Frame

def Continuation.text : Continuation → String
  | [] => "Halt"
  | f :: rest => "Continuation(" ++ f.point.name ++ " +" ++ toString rest.length ++ ")"

end FlowScript
