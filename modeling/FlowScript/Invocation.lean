import FlowScript.Failure

/-! What a script asks of its host: a method, or a property or attribute to be read or set. -/
namespace FlowScript

inductive Invocation where
  | methodCall (receiver : Value) (method : String) (args : List Value)
  | getProperty (receiver : Value) (name : String)
  | setProperty (receiver : Value) (name : String) (value : Value)
  | getAttribute (receiver : Value) (name : String)
  | setAttribute (receiver : Value) (name : String) (value : Value)

namespace Invocation

def receiver : Invocation → Value
  | .methodCall r _ _ | .getProperty r _ | .setProperty r _ _ | .getAttribute r _
  | .setAttribute r _ _ => r

def member : Invocation → String
  | .methodCall _ m _ | .getProperty _ m | .setProperty _ m _ | .getAttribute _ m
  | .setAttribute _ m _ => m

/-- What stands for the type of the receiver where a method is called on null: the script itself. -/
def scriptType : String := "Script"

/-- The type of the receiver as policies and call logs see it. -/
def receiverType : Invocation → String
  | .methodCall .null _ _ => scriptType
  | call => call.receiver.typeName

/-- What policies and call logs refer to. -/
def signature (call : Invocation) : String := call.receiverType ++ "." ++ call.member

end Invocation
end FlowScript
