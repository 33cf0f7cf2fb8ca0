import FlowScript.Table

/-! Running steps. A run goes on until it completes, fails, suspends or is cancelled, or until it has
taken as many steps as it may. -/
namespace FlowScript

/-- A run that waits for its host's answer. -/
structure Suspension where
  request : Value
  k : Continuation

namespace Suspension

def resume (s : Suspension) (v : Value) : Step := .value v s.k

def resumeWithFailure (s : Suspension) (f : Failure) : Step := .thrown f s.k

end Suspension

inductive Outcome where
  | completed (v : Value)
  | failed (f : Failure)
  | suspended (s : Suspension)
  | cancelled
  | outOfBudget (step : Step)

namespace Outcome

def completed? : Outcome → Option Value
  | .completed v => some v
  | _ => none

def failed? : Outcome → Option Failure
  | .failed f => some f
  | _ => none

end Outcome

/-- What a host answers to an invocation, with its state after it. -/
abbrev Host (σ : Type) := Invocation → σ → Except Failure Value × σ

/-- A program with all that its runs depend on; the host says when a run is cancelled. -/
structure Machine (σ : Type) where
  program : Program
  table : Table
  host : Host σ
  isCancelled : σ → Bool

/-- The scopes, and the state of the host. -/
structure World (σ : Type) where
  heap : Heap
  host : σ

/-- One step leads to the next one or ends the run. -/
inductive Turn where
  | next (step : Step)
  | ended (outcome : Outcome)

namespace Machine
variable {σ : Type}

/-- The step that evaluates the root of the program. -/
def start (m : Machine σ) (e : ScopeId) : Step := .eval m.program.root e []

/-- What a delivery means for the run. -/
def turn : Except EngineError Delivery → Turn
  | .ok (.next step) => .next step
  | .ok (.halted (.value v)) => .ended (.completed v)
  | .ok (.halted (.thrown f)) => .ended (.failed f)
  | .error e => .ended (.failed (.engineFault e.message))

def step (m : Machine σ) : World σ → Step → World σ × Turn
  | ⟨heap, host⟩, .eval block e k =>
    let (heap, next) := m.program.evaluate heap block e k
    (⟨heap, host⟩, .next next)
  | ⟨heap, host⟩, .resume signal k =>
    let (heap, delivery) := m.table.deliver heap k signal
    (⟨heap, host⟩, turn delivery)
  | ⟨heap, host⟩, .invoke call k =>
    let (answer, host) := m.host call host
    (⟨heap, host⟩, .next (Frame.ofResult answer k))
  | w, .yield request k => (w, .ended (.suspended ⟨request, k⟩))

/-- Runs at most `budget` steps. Before each step it is seen whether the run is cancelled, and then
whether a step is left. -/
def run (m : Machine σ) : Nat → World σ → Step → World σ × Outcome
  | 0, w, s => if m.isCancelled w.host then (w, .cancelled) else (w, .outOfBudget s)
  | budget + 1, w, s =>
    if m.isCancelled w.host then (w, .cancelled)
    else
      match m.step w s with
      | (w, .next s) => run m budget w s
      | (w, .ended outcome) => (w, outcome)

/-- Steps are counted with 64 bits, so no run takes more. -/
def stepLimit : Nat := UInt64.size

/-- Runs with a budget, or without a bound of its own. -/
def runWithin (m : Machine σ) (budget : Option Nat) (w : World σ) (s : Step) : World σ × Outcome :=
  m.run (budget.getD stepLimit) w s

end Machine
end FlowScript
