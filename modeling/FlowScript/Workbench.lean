import FlowScript.Loader

/-! A workbench: runs of jobs over one loader and one tree of files, one after the other. What compiling
a script does besides making it is given by a recipe. -/
namespace FlowScript

/-- What compiling leaves in the directory and in the record of a run, and what it makes: a program
with fields, for all runs or for this one only, or nothing but a refusal. -/
structure Recipe where
  files : List (String × FileNode)
  classpath : List Url
  actions : List RunAction
  program : String
  fields : Bindings
  binds : Bool
  refusal : Option String

inductive RecipeError where
  | refused (message : String)
  | uncompiled (error : CompileError)

def Recipe.produce (r : Recipe) (name : String) : Producer RecipeError := fun w =>
  match r.refusal with
  | some message => (w, .error (.refused message))
  | none =>
    let execution :=
      r.actions.foldl Execution.addAction (r.classpath.foldl Execution.addClasspath w.execution)
    let w := { w with files := w.files.plant w.execution.root r.files, execution }
    match Program.compile r.program with
    | .error e => (w, .error (.uncompiled e))
    | .ok program =>
      let bound := if r.binds then some execution.id else none
      let (heap, script) := Script.create name program [] r.fields bound w.heap
      ({ w with heap }, .ok script)

/-- A run of a job under a name of its own. Its files and notes are there before its script is loaded. -/
structure RunRequest where
  run : String
  job : String
  key : CacheKey
  binding : Bindings
  files : List (String × FileNode)
  notes : List RunAction
  recipe : Recipe

/-- Runs have their directories below `root`, and their scripts are kept. -/
structure Workbench where
  loader : ScriptLoader
  files : FileTree
  heap : Heap
  root : Path
  runs : Nat
  scripts : Entries Script

namespace Workbench

def create (loader : ScriptLoader) (files : FileTree) (root : Path) : Workbench :=
  ⟨loader, files, .empty, root, 0, []⟩

def runRoot (b : Workbench) (run : String) : Path := b.root.joinName run

/-- Loads the script of a run. -/
def acquire (b : Workbench) (r : RunRequest) :
    Workbench × Execution × Route × Except RecipeError Script :=
  let root := b.runRoot r.run
  let execution := r.notes.foldl Execution.addAction (Execution.create b.runs r.job root)
  let (loader, w, route, script) :=
    b.loader.load r.key r.binding ⟨b.files.plant root r.files, b.heap, execution⟩
      (r.recipe.produce r.key.source.name)
  ({ b with
      loader
      files := w.files
      heap := w.heap
      runs := b.runs + 1
      scripts := script.toOption.elim b.scripts (b.scripts.insert r.run) },
    w.execution, route, script)

/-- Runs a script with the built-in members only. -/
def runScript (b : Workbench) (script : Script) : Workbench × Outcome :=
  let (w, o) := script.run (Invoker.builtin []).invoke ⟨b.heap, ()⟩
  ({ b with heap := w.heap }, o)

def sweep (b : Workbench) : Workbench × Except CacheError SweepReport :=
  let (files, report) := b.loader.sweep b.files
  ({ b with files }, report)

end Workbench
end FlowScript
