import FlowScript.Frame
import FlowScript.Invocation
import FlowScript.Program

/-! Steps of a run, and what the evaluation of a block does first. No evaluation looks inside of the
blocks below it: what is to be done with their signals goes into a frame. -/
namespace FlowScript

/-- The next unit of work. -/
inductive Step where
  | eval (block : BlockId) (scope : ScopeId) (k : Continuation)
  | resume (signal : Signal) (k : Continuation)
  | invoke (call : Invocation) (k : Continuation)
  | yield (request : Value) (k : Continuation)

namespace Step

def value (v : Value) (k : Continuation) : Step := .resume (.value v) k

def thrown (f : Failure) (k : Continuation) : Step := .resume (.thrown f) k

/-- Evaluates a block for a frame in the same scope. -/
def evalFor (block : BlockId) (e : ScopeId) (point : ResumePoint) (captured : Captured)
    (k : Continuation) : Step :=
  .eval block e (⟨point, e, captured⟩ :: k)

/-- The continuation of a step. -/
def rest : Step → Continuation
  | .eval _ _ k | .resume _ k | .invoke _ k | .yield _ k => k

/-- Evaluates the next argument of a call, or makes the call. -/
def nextArgument (method : String) (args : List BlockId) (receiver : Value) (evaluated : List Value)
    (e : ScopeId) (k : Continuation) : Step :=
  match args[evaluated.length]? with
  | none => .invoke (.methodCall receiver method evaluated) k
  | some arg => evalFor arg e .callArgument (.call method args (some receiver) evaluated) k

/-- Evaluates the blocks of a sequence in order; the last one stands in for the sequence. -/
def ofSequence (body : List BlockId) (e : ScopeId) (k : Continuation) : Step :=
  match body with
  | [] => value .null k
  | [last] => .eval last e k
  | first :: _ => evalFor first e .sequence (.sequence body 1) k

end Step

/-- The first step of a block, with the heap after it. -/
def Block.evaluate (block : Block) (h : Heap) (e : ScopeId) (k : Continuation) : Heap × Step :=
  match block with
  | .constant v => (h, .value v k)
  | .readVariable name =>
    match h.lookup e name with
    | some v => (h, .value v k)
    | none => (h, .thrown (.missingVariable name) k)
  | .declare name none => (h.declare e name .null, .value .null k)
  | .declare name (some init) => (h, .evalFor init e .declare (.declare name) k)
  | .assign name value => (h, .evalFor value e .assign (.assign name) k)
  | .logical op lhs rhs => (h, .evalFor lhs e .decide (.logical op rhs) k)
  | .not operand => (h, .evalFor operand e .not .not k)
  | .binary op lhs rhs => (h, .evalFor lhs e .lhs (.binaryLhs op rhs) k)
  | .ifElse cond thenBranch elseBranch =>
    (h, .evalFor cond e .branch (.branch thenBranch elseBranch) k)
  | .whileLoop cond body => (h, .evalFor cond e .loopTest (.loop cond body) k)
  | .sequence body => (h, .ofSequence body e k)
  | .scope body =>
    let inner := h.next
    (h.child e, .eval body inner k)
  | .property receiver name isAttribute =>
    (h, .evalFor receiver e .property (.property name isAttribute) k)
  | .setProperty target name value isAttribute =>
    (h, .evalFor value e .propertyStore (.propertyStore target name isAttribute) k)
  | .call (some receiver) method args =>
    (h, .evalFor receiver e .callReceiver (.call method args none []) k)
  | .call none method args => (h, .nextArgument method args .null [] e k)
  | .throw value => (h, .evalFor value e .throw .throw k)
  | .tryCatch body clauses cleanup => (h, .evalFor body e .guarded (.guarded clauses cleanup) k)
  | .yield request => (h, .evalFor request e .request .yield k)

/-- The first step of the block of a number. -/
def Program.evaluate (p : Program) (h : Heap) (b : BlockId) (e : ScopeId) (k : Continuation) :
    Heap × Step :=
  match p.block? b with
  | some block => block.evaluate h e k
  | none => (h, .thrown (.engineFault ("block " ++ b.text ++ " is outside the program")) k)

end FlowScript
