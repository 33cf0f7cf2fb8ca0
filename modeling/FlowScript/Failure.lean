import FlowScript.Value

/-! Failures of a script. A failure is data: it goes through the continuation as values do, and a
catch clause sees it as a map. -/
namespace FlowScript

structure Failure where
  kind : String
  message : String
  payload : Option Value

namespace Failure

/-- The kinds that the engine itself raises. -/
def missingVariableKind : String := "MissingVariable"
def missingMemberKind : String := "MissingMember"
def typeMismatchKind : String := "TypeMismatch"
def divisionByZeroKind : String := "DivisionByZero"
def thrownKind : String := "Thrown"
def engineFaultKind : String := "EngineFault"

/-- A failure without payload. -/
def plain (kind message : String) : Failure := ⟨kind, message, none⟩

def missingVariable (name : String) : Failure :=
  plain missingVariableKind ("No such variable: " ++ name)

def missingMember (receiver : Value) (name : String) : Failure :=
  plain missingMemberKind ("No member " ++ name ++ " on " ++ receiver.typeName)

def missingScriptMethod (name : String) : Failure :=
  plain missingMemberKind ("No such script method: " ++ name)

def typeMismatch (operation : String) (lhs rhs : Value) : Failure :=
  plain typeMismatchKind
    ("Cannot apply " ++ operation ++ " to " ++ lhs.typeName ++ " and " ++ rhs.typeName)

def divisionByZero : Failure := plain divisionByZeroKind "Division by zero"

def engineFault (message : String) : Failure := plain engineFaultKind message

/-- What `throw` raises: a text is the message, a map may name kind, message and payload, and any
other value becomes the payload. -/
def ofThrown : Value → Failure
  | .str message => plain thrownKind message
  | .map entries =>
    let kind :=
      match Entries.find? entries "kind" with
      | some (.str kind) => kind
      | _ => thrownKind
    let message :=
      match Entries.find? entries "message" with
      | some message => message.text
      | none => ""
    ⟨kind, message, Entries.find? entries "payload"⟩
  | other => ⟨thrownKind, other.text, some other⟩

/-- What a catch clause binds. -/
def toValue (f : Failure) : Value :=
  .map ([("kind", .str f.kind), ("message", .str f.message)] ++
    (f.payload.map fun payload => ("payload", payload)).toList)

def text (f : Failure) : String := f.kind ++ ": " ++ f.message

theorem ofThrown_toValue (f : Failure) : ofThrown f.toValue = f := by
  obtain ⟨kind, message, payload⟩ := f
  cases payload <;> simp [toValue, ofThrown, Entries.find?, Value.text]

end Failure

/-- What a continuation receives. -/
inductive Signal where
  | value (v : Value)
  | thrown (f : Failure)

def Signal.isThrown : Signal → Bool
  | .value _ => false
  | .thrown _ => true

end FlowScript
