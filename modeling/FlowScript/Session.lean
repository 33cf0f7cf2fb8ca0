import FlowScript.HostDesk
import FlowScript.Script
import FlowScript.Snapshot

/-! Sessions: scripts that are started, parked, written out, restored and resumed one command at a
time, over one heap and one host. At most one run is parked at a time. -/
namespace FlowScript

/-- What a session keeps of its last run. -/
inductive Pending where
  | nothing
  | suspended (s : Suspension)
  | stopped (step : Step)

structure Session where
  invoker : Invoker HostDesk
  world : World HostDesk
  scripts : List Script
  pending : Pending
  saved : String

/-- Why a command finds nothing to act on, or refuses its text. -/
inductive SessionError where
  | noStep
  | notSuspended
  | encoding (problem : Json.Problem)
  | snapshot (error : SnapshotError)
  deriving DecidableEq, Repr

/-- How a run is bounded: the registered groups, and the number of steps. -/
structure RunLimits where
  table : Table
  budget : Option Nat

namespace Session

def create (setup : HostSetup) (heap : Heap) (script : Script) : Session :=
  ⟨setup.invoker, ⟨heap, .empty⟩, [script], .nothing, ""⟩

def script? (s : Session) (index : Nat) : Option Script := s.scripts[index]?

def heap (s : Session) : Heap := s.world.heap

def desk (s : Session) : HostDesk := s.world.host

def machine (s : Session) (script : Script) (table : Table) : Machine HostDesk :=
  ⟨script.program, table, s.invoker.invoke, HostDesk.isCancelled⟩

/-- Keeps what a run left behind to be gone on with. -/
def park (s : Session) (w : World HostDesk) (o : Outcome) : Session :=
  { s with
    world := w
    pending :=
      match o with
      | .suspended suspension => .suspended suspension
      | .outOfBudget step => .stopped step
      | _ => .nothing }

def runStep (s : Session) (script : Script) (limits : RunLimits) (step : Step) : Session × Outcome :=
  let (w, o) := (s.machine script limits.table).runWithin limits.budget s.world step
  (s.park w o, o)

def start (s : Session) (script : Script) (limits : RunLimits) : Session × Outcome :=
  s.runStep script limits script.start

/-- Goes on with a run that stopped for want of budget. -/
def proceed (s : Session) (script : Script) (limits : RunLimits) :
    Session × Except SessionError Outcome :=
  match s.pending with
  | .stopped step => let (s, o) := s.runStep script limits step; (s, .ok o)
  | _ => (s, .error .noStep)

/-- Takes the steps one by one and lists them. -/
def traceSteps (m : Machine HostDesk) : Nat → World HostDesk → Step → List Step →
    World HostDesk × Outcome × List Step
  | 0, w, step, taken => (w, .outOfBudget step, taken.reverse)
  | max + 1, w, step, taken =>
    match m.run 1 w step with
    | (w, .outOfBudget next) => traceSteps m max w next (step :: taken)
    | (w, o) => (w, o, (step :: taken).reverse)

/-- Like `start` when nothing is parked and like `proceed` otherwise, with the steps taken. -/
def trace (s : Session) (script : Script) (table : Table) (max : Nat) :
    Session × Except SessionError (Outcome × List Step) :=
  let from? : Option Step :=
    match s.pending with
    | .nothing => some script.start
    | .stopped step => some step
    | .suspended _ => none
  match from? with
  | none => (s, .error .noStep)
  | some step =>
    let (w, o, taken) := traceSteps (s.machine script table) max s.world step []
    (s.park w o, .ok (o, taken))

def resume (s : Session) (script : Script) (limits : RunLimits) (signal : Signal) :
    Session × Except SessionError Outcome :=
  match s.pending with
  | .suspended suspension =>
    let (s, o) := s.runStep script limits (.resume signal suspension.k)
    (s, .ok o)
  | _ => (s, .error .notSuspended)

/-- Runs a script from its start and leaves what is parked alone. -/
def runScript (s : Session) (script : Script) : Session × Outcome :=
  let (w, o) := script.run s.invoker.invoke s.world
  ({ s with world := w }, o)

/-- Writes out what is parked, and keeps the text. -/
def snapshot (s : Session) : Session × Except SessionError String :=
  match s.pending with
  | .suspended suspension =>
    let text := (Snapshot.capture s.heap suspension).text
    ({ s with saved := text }, .ok text)
  | _ => (s, .error .notSuspended)

/-- Parks the run of a text, or of the text kept last. -/
def restore (s : Session) (table : Table) (text : Option String) :
    Session × Except SessionError Suspension :=
  match Snapshot.ofText (text.getD s.saved) with
  | .error p => (s, .error (.encoding p))
  | .ok snapshot =>
    let (heap, restored) := snapshot.restore table s.heap
    let s := { s with world := ⟨heap, s.world.host⟩ }
    match restored with
    | .error e => (s, .error (.snapshot e))
    | .ok suspension => ({ s with pending := .suspended suspension }, .ok suspension)

def drop (s : Session) : Session := { s with pending := .nothing }

def setCancelled (s : Session) (b : Bool) : Session :=
  { s with world := { s.world with host := { s.world.host with isCancelled := b } } }

def addScript (s : Session) (made : Heap × Script) : Session :=
  { s with world := { s.world with heap := made.1 }, scripts := s.scripts ++ [made.2] }

def setField (s : Session) (script : Script) (name : String) (v : Value) : Session :=
  { s with world := { s.world with heap := script.setField name v s.world.heap } }

/-- How often each signature was recorded. -/
def callCounts (s : Session) : Entries Nat :=
  s.desk.log.foldr (fun signature counts => counts.increment signature) []

end Session
end FlowScript
