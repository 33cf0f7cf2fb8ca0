import FlowScript.Machine
import FlowScript.Program.Json

/-! Compiled scripts: a program, which is shared freely, and the scopes of its own that it runs in. -/
namespace FlowScript

/-- Names an execution among those of a world. -/
abbrev ExecutionId := Nat

/-- Statements run in the scope `fields`, whose parent `binding` holds what the caller supplies. -/
structure Script where
  name : String
  program : Program
  binding : ScopeId
  fields : ScopeId
  execution : Option ExecutionId

namespace Script

/-- A script over two fresh scopes with the given contents. -/
def create (name : String) (program : Program) (binding fields : Bindings)
    (execution : Option ExecutionId) (h : Heap) : Heap × Script :=
  let root := h.next
  let h := h.addScope none binding
  let own := h.next
  (h.addScope (some root) fields, ⟨name, program, root, own, execution⟩)

/-- A copy with its own scopes: the fields are copied, and the root scope holds what the caller
supplies. Only the program is shared. -/
def clone (s : Script) (binding : Bindings) (execution : Option ExecutionId) (h : Heap) : Heap × Script :=
  create s.name s.program binding (h.locals s.fields) execution h

def bind (s : Script) (execution : ExecutionId) : Script := { s with execution := some execution }

def setField (s : Script) (name : String) (v : Value) (h : Heap) : Heap := h.declare s.fields name v

def start (s : Script) : Step := .eval s.program.root s.fields []

/-- The machine that runs the script with all resume points and no bound. -/
def machine (s : Script) (host : Host σ) : Machine σ := ⟨s.program, .standard, host, fun _ => false⟩

/-- Runs the script to its end or to its first suspension. -/
def run (s : Script) (host : Host σ) (w : World σ) : World σ × Outcome :=
  (s.machine host).runWithin none w s.start

/-- Compiles a text into a script without bindings. -/
def compile (name text : String) (h : Heap) : Except CompileError (Heap × Script) :=
  (Program.compile text).map fun p => create name p [] [] none h

end Script
end FlowScript
