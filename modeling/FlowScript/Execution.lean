import FlowScript.Invoker
import FlowScript.Script
import FlowScript.Url

/-! Executions: what is recorded about a single run of a job. -/
namespace FlowScript

inductive RunAction where
  | libraries (names : List String)
  | note (text : String)
  deriving DecidableEq, Repr

def RunAction.isLibraries : RunAction → Bool
  | .libraries _ => true
  | .note _ => false

/-- A run has the directory `root` for itself; its libraries stand in `libs` there. -/
structure Execution where
  id : ExecutionId
  job : String
  root : Path
  classpath : List Url
  actions : List RunAction
  internalCalls : Entries Nat
  log : List String

namespace Execution

def create (id : ExecutionId) (job : String) (root : Path) : Execution := ⟨id, job, root, [], [], [], []⟩

/-- Runs of one job wait for one another when they miss the cache. -/
def lockKey (e : Execution) : String := e.job

def libraryRoot (e : Execution) : Path := e.root.joinName "libs"

def addClasspath (e : Execution) (url : Url) : Execution := { e with classpath := e.classpath ++ [url] }

def addAction (e : Execution) (action : RunAction) : Execution :=
  { e with actions := e.actions ++ [action] }

/-- Counts a call on an internal type under its signature. -/
def recordCall (signature : String) (e : Execution) : Execution :=
  { e with internalCalls := e.internalCalls.increment signature }

def println (e : Execution) (line : String) : Execution := { e with log := e.log ++ [line] }

/-- Whether a text stands in one of the lines. -/
def logContains (e : Execution) (text : String) : Bool :=
  e.log.any fun line => Invoker.contains text.toList line.toList

/-- The names of the first action on libraries. -/
def libraries? (e : Execution) : Option (List String) :=
  e.actions.findSome? fun
    | .libraries names => some names
    | .note _ => none

@[simp] theorem println_classpath (e : Execution) (line : String) :
    (e.println line).classpath = e.classpath := rfl

@[simp] theorem println_actions (e : Execution) (line : String) :
    (e.println line).actions = e.actions := rfl

@[simp] theorem println_root (e : Execution) (line : String) : (e.println line).root = e.root := rfl

end Execution
end FlowScript
