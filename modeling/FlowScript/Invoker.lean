import FlowScript.Policy
import FlowScript.Text.Blank
import FlowScript.Text.Case

/-! Invokers perform what scripts ask for. An invoker has an entrance for each kind of access and one
for invocations of any kind; the entrances are kept apart because layers may treat them apart. -/
namespace FlowScript

/-- An answer that depends on the host's state and may change it. -/
abbrev Reply (σ : Type) := σ → Except Failure Value × σ

structure Invoker (σ : Type) where
  methodCall : Value → String → List Value → Reply σ
  getProperty : Value → String → Reply σ
  setProperty : Value → String → Value → Reply σ
  getAttribute : Value → String → Reply σ
  setAttribute : Value → String → Value → Reply σ
  invoke : Invocation → Reply σ

namespace Invoker
variable {σ : Type}

/-- The entrance for the kind of an invocation. -/
def direct (i : Invoker σ) : Invocation → Reply σ
  | .methodCall receiver method args => i.methodCall receiver method args
  | .getProperty receiver name => i.getProperty receiver name
  | .setProperty receiver name value => i.setProperty receiver name value
  | .getAttribute receiver name => i.getAttribute receiver name
  | .setAttribute receiver name value => i.setAttribute receiver name value

/-! ### Built-in members -/

/-- A function of the host that scripts call without a receiver. -/
abbrev HostFunction (σ : Type) := List Value → Reply σ

def contains (needle : List Char) : List Char → Bool
  | [] => needle.isEmpty
  | c :: rest => needle.isPrefixOf (c :: rest) || contains needle rest

def count (n : Nat) : Value := .int (Int64.ofNat n)

def expectsArguments (receiver : Value) (method : String) (args : List Value) (expected : Nat) : Failure :=
  .plain Failure.typeMismatchKind
    (receiver.typeName ++ "." ++ method ++ " expects " ++ toString expected ++ " argument(s), got " ++
      toString args.length)

/-- The only argument of a method. -/
def oneArgument (receiver : Value) (method : String) (args : List Value)
    (go : Value → Except Failure Value) : Except Failure Value :=
  match args with
  | [arg] => go arg
  | _ => .error (expectsArguments receiver method args 1)

/-- The item at an index; behind the last item there is null. -/
def item (receiver : Value) (items : List Value) (method : String) (index : Value) :
    Except Failure Value :=
  match index.int? with
  | some i =>
    if i < 0 then .error (.missingMember receiver method)
    else .ok ((items[i.toInt.toNat]?).getD .null)
  | none => .error (.missingMember receiver method)

/-- The methods of strings, lists and maps. -/
def builtinMethod (receiver : Value) (method : String) (args : List Value) : Except Failure Value :=
  match receiver with
  | .str s =>
    match method with
    | "size" | "length" => .ok (count s.length)
    | "toUpperCase" => .ok (.str (Text.toUpper s))
    | "toLowerCase" => .ok (.str (Text.toLower s))
    | "trim" => .ok (.str (Text.trim s))
    | "contains" =>
      oneArgument receiver method args fun arg => .ok (.bool (contains arg.text.toList s.toList))
    | "startsWith" =>
      oneArgument receiver method args fun arg => .ok (.bool (arg.text.toList.isPrefixOf s.toList))
    | "endsWith" =>
      oneArgument receiver method args fun arg => .ok (.bool (arg.text.toList.isSuffixOf s.toList))
    | _ => .error (.missingMember receiver method)
  | .list items =>
    match method with
    | "size" => .ok (count items.length)
    | "isEmpty" => .ok (.bool items.isEmpty)
    | "contains" => oneArgument receiver method args fun arg => .ok (.bool (items.any (· == arg)))
    | "get" => oneArgument receiver method args fun arg => item receiver items method arg
    | _ => .error (.missingMember receiver method)
  | .map entries =>
    match method with
    | "size" => .ok (count entries.length)
    | "isEmpty" => .ok (.bool entries.isEmpty)
    | "get" =>
      oneArgument receiver method args fun arg => .ok ((Entries.find? entries arg.text).getD .null)
    | "containsKey" =>
      oneArgument receiver method args fun arg => .ok (.bool (Entries.binds entries arg.text))
    | "keySet" => .ok (.list ((Entries.names entries).map .str))
    | _ => .error (.missingMember receiver method)
  | _ => .error (.missingMember receiver method)

def builtinGet (receiver : Value) (name : String) : Except Failure Value :=
  match receiver, name with
  | .map entries, _ => .ok ((Entries.find? entries name).getD .null)
  | .list items, "size" => .ok (count items.length)
  | .str s, "length" => .ok (count s.length)
  | _, _ => .error (.missingMember receiver name)

/-- Setting a property answers the receiver as it is afterwards. -/
def builtinSet (receiver : Value) (name : String) (value : Value) : Except Failure Value :=
  match receiver with
  | .map entries => .ok (.map (Entries.insert entries name value))
  | _ => .error (.missingMember receiver name)

/-- An invoker whose attributes are its properties. -/
def ofMembers (methodCall : Value → String → List Value → Reply σ) (getProperty : Value → String → Reply σ)
    (setProperty : Value → String → Value → Reply σ) : Invoker σ where
  methodCall := methodCall
  getProperty := getProperty
  setProperty := setProperty
  getAttribute := getProperty
  setAttribute := setProperty
  invoke
    | .methodCall receiver method args => methodCall receiver method args
    | .getProperty receiver name | .getAttribute receiver name => getProperty receiver name
    | .setProperty receiver name value | .setAttribute receiver name value =>
      setProperty receiver name value

/-- The built-in members, and the functions of the host as methods of null. -/
def builtin (functions : Entries (HostFunction σ)) : Invoker σ :=
  ofMembers
    (fun receiver method args host =>
      match receiver with
      | .null =>
        match functions.find? method with
        | some f => f args host
        | none => (.error (.missingScriptMethod method), host)
      | receiver => (builtinMethod receiver method args, host))
    (fun receiver name host => (builtinGet receiver name, host))
    (fun receiver name value host => (builtinSet receiver name value, host))

/-! ### Layers -/

/-- Passes on what the policy permits and refuses all else. -/
def sandboxed (policy : Policy) (inner : Invoker σ) : Invoker σ :=
  let invoke (call : Invocation) : Reply σ :=
    if policy.permits call then inner.invoke call else fun host => (.error (Policy.rejection call), host)
  { methodCall := fun receiver method args => invoke (.methodCall receiver method args)
    getProperty := fun receiver name => invoke (.getProperty receiver name)
    setProperty := fun receiver name value => invoke (.setProperty receiver name value)
    getAttribute := fun receiver name => invoke (.getProperty receiver name)
    setAttribute := fun receiver name value => invoke (.setProperty receiver name value)
    invoke }

/-- The receiver types whose calls are recorded unless others are named. -/
def defaultInternalTypes : List String := [Invocation.scriptType]

/-- Records the signatures of the calls on internal types, and passes all calls on. -/
def logged (internalTypes : List String) (record : String → σ → σ) (inner : Invoker σ) : Invoker σ :=
  let noted (call : Invocation) (host : σ) : σ :=
    if internalTypes.contains call.receiverType then record call.signature host else host
  let invoke (call : Invocation) : Reply σ := fun host => inner.invoke call (noted call host)
  { methodCall := fun receiver method args host =>
      inner.methodCall receiver method args (noted (.methodCall receiver method []) host)
    getProperty := fun receiver name => invoke (.getProperty receiver name)
    setProperty := fun receiver name value => invoke (.setProperty receiver name value)
    getAttribute := fun receiver name => invoke (.getAttribute receiver name)
    setAttribute := fun receiver name value => invoke (.setAttribute receiver name value)
    invoke }

end Invoker
end FlowScript
