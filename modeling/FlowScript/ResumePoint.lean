/-! The points at which a run can be resumed. Each belongs to a group and has a name in it; a run that
is written out names its points by these pairs. -/
namespace FlowScript

/-- Families of resume points; a host registers whole groups. -/
inductive Group where
  | logical | operator | variable | control | access | exception | suspend
  deriving DecidableEq, Repr

def Group.all : List Group :=
  [.logical, .operator, .variable, .control, .access, .exception, .suspend]

def Group.name : Group → String
  | .logical => "LogicalOp" | .operator => "Operator" | .variable => "Variable"
  | .control => "Control" | .access => "Access" | .exception => "Exception"
  | .suspend => "Suspend"

inductive ResumePoint where
  | decide
  | not | lhs | rhs
  | declare | assign
  | branch | loopTest | loopBody | sequence
  | property | propertyStore | storeReceiver | callReceiver | callArgument
  | throw | guarded | handler | cleanup
  | request
  deriving DecidableEq, Repr

namespace ResumePoint

def all : List ResumePoint :=
  [.decide, .not, .lhs, .rhs, .declare, .assign, .branch, .loopTest, .loopBody, .sequence,
    .property, .propertyStore, .storeReceiver, .callReceiver, .callArgument, .throw, .guarded,
    .handler, .cleanup, .request]

def group : ResumePoint → Group
  | .decide => .logical
  | .not | .lhs | .rhs => .operator
  | .declare | .assign => .variable
  | .branch | .loopTest | .loopBody | .sequence => .control
  | .property | .propertyStore | .storeReceiver | .callReceiver | .callArgument => .access
  | .throw | .guarded | .handler | .cleanup => .exception
  | .request => .suspend

def method : ResumePoint → String
  | .decide => "decide" | .not => "not" | .lhs => "lhs" | .rhs => "rhs"
  | .declare => "declare" | .assign => "assign" | .branch => "branch"
  | .loopTest => "loop_test" | .loopBody => "loop_body" | .sequence => "sequence"
  | .property => "property" | .propertyStore => "property_store"
  | .storeReceiver => "store_receiver" | .callReceiver => "call_receiver"
  | .callArgument => "call_argument" | .throw => "throw" | .guarded => "guarded"
  | .handler => "handler" | .cleanup => "finally" | .request => "request"

/-- The name of a point with that of its group. -/
def name (p : ResumePoint) : String := p.group.name ++ "." ++ p.method

/-- The points that see failures; all others are passed over. -/
def intercepts : ResumePoint → Bool
  | .guarded | .handler | .cleanup => true
  | _ => false

/-- The point of a pair of names. -/
def ofNames? (group method : String) : Option ResumePoint :=
  all.find? fun p => p.group.name == group && p.method == method

theorem ofNames?_names (p : ResumePoint) : ofNames? p.group.name p.method = some p := by
  cases p <;> decide

end ResumePoint
end FlowScript
