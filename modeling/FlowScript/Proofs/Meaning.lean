import FlowScript.Proofs.Driving

/-! The values of blocks by plain recursion, with no frames and no steps: a block calls for the values
of its parts and puts them together. A failure is an exception; a request takes the next answer. -/
namespace FlowScript

/-- An evaluation that is cut short by a request without an answer. -/
inductive OutOfAnswers where
  | outOfAnswers

/-- Evaluations over a store. A failure keeps what was written before it; `none` stands for an
evaluation that is not done yet. -/
abbrev Direct (σ : Type) := ExceptT Failure (StateT (Store σ) (ExceptT OutOfAnswers Option))

namespace Direct
variable {σ : Type}

def unfinished : Direct σ α := fun _ => none

def heap : Direct σ Heap := do return (← get).world.heap

def setHeap (h : Heap) : Direct σ Unit :=
  modify fun st => { st with world := { st.world with heap := h } }

def declareIn (e : ScopeId) (name : String) (v : Value) : Direct σ Unit := do
  setHeap ((← heap).declare e name v)

def assignFrom (e : ScopeId) (name : String) (v : Value) : Direct σ Unit := do
  setHeap ((← heap).assign e name v)

/-- A new scope below another one. -/
def enter (e : ScopeId) : Direct σ ScopeId := do
  let h ← heap
  setHeap (h.child e)
  return h.next

def lookupFrom (e : ScopeId) (name : String) : Direct σ Value := do
  match (← heap).lookup e name with
  | some v => return v
  | none => throw (.missingVariable name)

/-- Goes on with an outcome. -/
def settle : Except Failure α → Direct σ α
  | .ok a => return a
  | .error f => throw f

/-- A call of the host. -/
def perform (host : Host σ) (call : Invocation) : Direct σ Value := do
  let st ← get
  let (result, after) := host call st.world.host
  set { st with world := { st.world with host := after } }
  settle result

/-- What the next answer says. -/
def nextAnswer : Direct σ Value := do
  match (← get).answers with
  | [] => fun _ => some (.error .outOfAnswers)
  | answer :: rest =>
    modify fun st => { st with answers := rest }
    match answer with
    | .value v => return v
    | .thrown f => throw f

/-- The outcome of an evaluation, as data. -/
def attempt (x : Direct σ α) : Direct σ (Except Failure α) := ExceptT.lift x.run

/-- Evaluates in order and keeps the last value; of nothing the value is null. -/
def lastOf (value : BlockId → Direct σ Value) : List BlockId → Direct σ Value
  | [] => return .null
  | [last] => value last
  | b :: rest => do
    let _ ← value b
    lastOf value rest

/-- Evaluates the cleanup, if there is one, before it goes on with an outcome. -/
def leaving (value : BlockId → ScopeId → Direct σ Value) (cleanup : Option BlockId) (e : ScopeId)
    (left : Except Failure Value) : Direct σ Value := do
  match cleanup with
  | some b =>
    let _ ← value b e
    settle left
  | none => settle left

end Direct

open Direct

/-- The value of a block in a scope, given that of any block in any scope; `again` evaluates the block
itself once more. -/
def Block.meaning (host : Host σ) (value : BlockId → ScopeId → Direct σ Value)
    (again : Direct σ Value) (e : ScopeId) : Block → Direct σ Value
  | .constant v => return v
  | .readVariable name => lookupFrom e name
  | .declare name none => do
    declareIn e name .null
    return .null
  | .declare name (some init) => do
    let v ← value init e
    declareIn e name v
    return v
  | .assign name b => do
    let v ← value b e
    assignFrom e name v
    return v
  | .logical .and lhs rhs => do
    let v ← value lhs e
    if v.truthy then value rhs e else return .bool false
  | .logical .or lhs rhs => do
    let v ← value lhs e
    if v.truthy then return .bool true else value rhs e
  | .not operand => do
    let v ← value operand e
    return .bool !v.truthy
  | .binary op lhs rhs => do
    let l ← value lhs e
    let r ← value rhs e
    settle (op.apply l r)
  | .ifElse cond thenBranch elseBranch => do
    let v ← value cond e
    if v.truthy then value thenBranch e
    else
      match elseBranch with
      | some b => value b e
      | none => return .null
  | .whileLoop cond body => do
    let v ← value cond e
    if v.truthy then
      let _ ← value body e
      again
    else return .null
  | .sequence body => lastOf (value · e) body
  | .scope body => do
    let inner ← enter e
    value body inner
  | .property receiver name isAttribute => do
    let v ← value receiver e
    perform host (if isAttribute then .getAttribute v name else .getProperty v name)
  | .setProperty target name b isAttribute => do
    let v ← value b e
    let receiver ← lookupFrom e target
    let updated ← perform host
      (if isAttribute then .setAttribute receiver name v else .setProperty receiver name v)
    assignFrom e target updated
    return v
  | .call receiver method args => do
    let v ← match receiver with
      | some b => value b e
      | none => pure .null
    let vs ← args.mapM (value · e)
    perform host (.methodCall v method vs)
  | .throw b => do
    let v ← value b e
    settle (.error (.ofThrown v))
  | .tryCatch body clauses cleanup => do
    let tried ← attempt (value body e)
    let left ← match tried with
      | .ok v => pure (.ok v)
      | .error f =>
        match clauses.find? (·.catches f) with
        | none => pure (.error f)
        | some clause => do
          let inner ← enter e
          declareIn inner clause.variableName f.toValue
          attempt (value clause.body inner)
    leaving value cleanup e left
  | .yield request => do
    let _ ← value request e
    nextAnswer

namespace Program
variable {σ : Type}

/-- The value of a block by recursion of at most the given depth. -/
def meaning (p : Program) (host : Host σ) : Nat → BlockId → ScopeId → Direct σ Value
  | 0, _, _ => unfinished
  | depth + 1, b, e =>
    match p.block? b with
    | some block => block.meaning host (p.meaning host depth) (p.meaning host depth b e) e
    | none => throw (.engineFault ("block " ++ b.text ++ " is outside the program"))

/-- The recursion ends with a signal and a store. -/
def Returns (p : Program) (host : Host σ) (b : BlockId) (e : ScopeId) (st : Store σ) :
    Signal → Store σ → Prop
  | .value v, st' => ∃ depth, p.meaning host depth b e st = some (.ok (.ok v, st'))
  | .thrown f, st' => ∃ depth, p.meaning host depth b e st = some (.ok (.error f, st'))

/-- The recursion stops at a request for which no answer is left. -/
def RunsDry (p : Program) (host : Host σ) (b : BlockId) (e : ScopeId) (st : Store σ) : Prop :=
  ∃ depth, p.meaning host depth b e st = some (.error .outOfAnswers)

/-- The recursion does not end at any depth. -/
def Diverges (p : Program) (host : Host σ) (b : BlockId) (e : ScopeId) (st : Store σ) : Prop :=
  ∀ depth, p.meaning host depth b e st = none

end Program
end FlowScript
