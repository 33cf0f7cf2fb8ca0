import FlowScript.Step

/-! Resuming a frame with a signal. Each resume point takes one kind of captured state and refuses all
others. A failure passes every point but those of `try`. -/
namespace FlowScript

/-- Faults of the engine or of what it is given, never of a script. -/
inductive EngineError where
  | unknownPoint (point : ResumePoint)
  | unknownNames (group method : String)
  | capturedMismatch (point : ResumePoint) (found : String)
  deriving DecidableEq, Repr

def EngineError.message : EngineError → String
  | .unknownPoint point => "no resume entry registered for " ++ point.name
  | .unknownNames group method =>
    "no continuation type registered as " ++ group ++ "." ++ method
  | .capturedMismatch point found =>
    "captured state of kind " ++ found ++ " cannot resume " ++ point.name

/-- What a resumed frame does to the scopes, and the step it leads to. -/
abbrev Resumption := Heap → Heap × Step

namespace Frame

/-- Goes on with a value and passes a failure on. -/
def onValue (s : Signal) (k : Continuation) (go : Value → Resumption) : Resumption :=
  match s with
  | .value v => go v
  | .thrown f => fun h => (h, .thrown f k)

/-- Runs the cleanup, if there is one, before the pending signal goes on. -/
def leave (cleanup : Option BlockId) (pending : Signal) (e : ScopeId) (k : Continuation) : Step :=
  match cleanup with
  | some block => .evalFor block e .cleanup (.cleanup pending) k
  | none => .resume pending k

/-- What a logical operator does with its left operand. -/
def afterLhs (op : LogicalOp) (rhs : BlockId) (lhs : Value) (e : ScopeId) (k : Continuation) : Step :=
  match op, lhs.truthy with
  | .and, false => .value (.bool false) k
  | .or, true => .value (.bool true) k
  | _, _ => .eval rhs e k

def afterCondition (thenBranch : BlockId) (elseBranch : Option BlockId) (cond : Value) (e : ScopeId)
    (k : Continuation) : Step :=
  match cond.truthy, elseBranch with
  | true, _ => .eval thenBranch e k
  | false, some block => .eval block e k
  | false, none => .value .null k

/-- The block at the index comes next; behind the last one its value is that of the sequence. -/
def afterElement (body : List BlockId) (index : Nat) (v : Value) (e : ScopeId) (k : Continuation) :
    Step :=
  match body[index]? with
  | none => .value v k
  | some block =>
    if index + 1 = body.length then .eval block e k
    else .evalFor block e .sequence (.sequence body (index + 1)) k

def ofResult (r : Except Failure Value) (k : Continuation) : Step :=
  match r with
  | .ok v => .value v k
  | .error f => .thrown f k

/-- The target is looked up once the value is known, and receives what the host answers. -/
def storeProperty (target name : String) (isAttribute : Bool) (value : Value) (e : ScopeId)
    (k : Continuation) : Resumption := fun h =>
  match h.lookup e target with
  | none => (h, .thrown (.missingVariable target) k)
  | some receiver =>
    (h, .invoke
      (if isAttribute then .setAttribute receiver name value else .setProperty receiver name value)
      (⟨.storeReceiver, e, .storeReceiver target value⟩ :: k))

/-- The first clause that catches the failure runs in a scope of its own. -/
def catchFailure (clauses : List CatchClause) (cleanup : Option BlockId) (f : Failure)
    (e : ScopeId) (k : Continuation) : Resumption := fun h =>
  match clauses.find? (·.catches f) with
  | some clause =>
    let inner := h.next
    ((h.child e).declare inner clause.variableName f.toValue,
      .eval clause.body inner (⟨.handler, e, .handler cleanup⟩ :: k))
  | none => (h, leave cleanup (.thrown f) e k)

/-- Resumes a frame; `k` holds the frames below it. -/
def resume (f : Frame) (s : Signal) (k : Continuation) : Except EngineError Resumption :=
  let e := f.scope
  match f.point with
  | .decide =>
    match f.captured with
    | .logical op rhs => .ok (onValue s k fun v h => (h, afterLhs op rhs v e k))
    | c => .error (.capturedMismatch .decide c.kind)
  | .not =>
    match f.captured with
    | .not => .ok (onValue s k fun v h => (h, .value (.bool !v.truthy) k))
    | c => .error (.capturedMismatch .not c.kind)
  | .lhs =>
    match f.captured with
    | .binaryLhs op rhs => .ok (onValue s k fun v h => (h, .evalFor rhs e .rhs (.binaryRhs op v) k))
    | c => .error (.capturedMismatch .lhs c.kind)
  | .rhs =>
    match f.captured with
    | .binaryRhs op lhs => .ok (onValue s k fun v h => (h, ofResult (op.apply lhs v) k))
    | c => .error (.capturedMismatch .rhs c.kind)
  | .declare =>
    match f.captured with
    | .declare name => .ok (onValue s k fun v h => (h.declare e name v, .value v k))
    | c => .error (.capturedMismatch .declare c.kind)
  | .assign =>
    match f.captured with
    | .assign name => .ok (onValue s k fun v h => (h.assign e name v, .value v k))
    | c => .error (.capturedMismatch .assign c.kind)
  | .branch =>
    match f.captured with
    | .branch thenBranch elseBranch =>
      .ok (onValue s k fun v h => (h, afterCondition thenBranch elseBranch v e k))
    | c => .error (.capturedMismatch .branch c.kind)
  | .loopTest =>
    match f.captured with
    | .loop cond body =>
      .ok (onValue s k fun v h =>
        (h, if v.truthy then .evalFor body e .loopBody (.loop cond body) k else .value .null k))
    | c => .error (.capturedMismatch .loopTest c.kind)
  | .loopBody =>
    match f.captured with
    | .loop cond body => .ok (onValue s k fun _ h => (h, .evalFor cond e .loopTest (.loop cond body) k))
    | c => .error (.capturedMismatch .loopBody c.kind)
  | .sequence =>
    match f.captured with
    | .sequence body index => .ok (onValue s k fun v h => (h, afterElement body index v e k))
    | c => .error (.capturedMismatch .sequence c.kind)
  | .property =>
    match f.captured with
    | .property name isAttribute =>
      .ok (onValue s k fun v h =>
        (h, .invoke (if isAttribute then .getAttribute v name else .getProperty v name) k))
    | c => .error (.capturedMismatch .property c.kind)
  | .propertyStore =>
    match f.captured with
    | .propertyStore target name isAttribute =>
      .ok (onValue s k fun v => storeProperty target name isAttribute v e k)
    | c => .error (.capturedMismatch .propertyStore c.kind)
  | .storeReceiver =>
    match f.captured with
    | .storeReceiver target value =>
      .ok (onValue s k fun updated h => (h.assign e target updated, .value value k))
    | c => .error (.capturedMismatch .storeReceiver c.kind)
  | .callReceiver =>
    match f.captured with
    | .call method args _ evaluated =>
      .ok (onValue s k fun v h => (h, .nextArgument method args v evaluated e k))
    | c => .error (.capturedMismatch .callReceiver c.kind)
  | .callArgument =>
    match f.captured with
    | .call method args receiver evaluated =>
      .ok (onValue s k fun v h =>
        (h, .nextArgument method args (receiver.getD .null) (evaluated ++ [v]) e k))
    | c => .error (.capturedMismatch .callArgument c.kind)
  | .throw =>
    match f.captured with
    | .throw => .ok (onValue s k fun v h => (h, .thrown (.ofThrown v) k))
    | c => .error (.capturedMismatch .throw c.kind)
  | .guarded =>
    match f.captured, s with
    | .guarded _ cleanup, .value v => .ok fun h => (h, leave cleanup (.value v) e k)
    | .guarded clauses cleanup, .thrown failure => .ok (catchFailure clauses cleanup failure e k)
    | c, _ => .error (.capturedMismatch .guarded c.kind)
  | .handler =>
    match f.captured with
    | .handler cleanup => .ok fun h => (h, leave cleanup s e k)
    | c => .error (.capturedMismatch .handler c.kind)
  | .cleanup =>
    match f.captured with
    | .cleanup pending => .ok (onValue s k fun _ h => (h, .resume pending k))
    | c => .error (.capturedMismatch .cleanup c.kind)
  | .request =>
    match f.captured with
    | .yield => .ok (onValue s k fun v h => (h, .yield v k))
    | c => .error (.capturedMismatch .request c.kind)

end Frame
end FlowScript
