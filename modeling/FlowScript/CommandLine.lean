import FlowScript.CommandLine.Arguments
import FlowScript.Definition
import FlowScript.Loader

/-! The command line: the program of a file is run some times, each time as a new run of one job, with
the scripts loaded as the settings say. -/
namespace FlowScript

/-- What a command depends on. New names of directories come from `ids`. -/
structure Surroundings where
  files : FileTree
  environment : Entries String
  ids : Nat → String

/-- What a command leaves behind: the lines that it prints, what it complains about, the status that it
ends with, and the files. -/
structure CommandResult where
  lines : List String
  complaint : Option String
  status : Nat
  files : FileTree

/-- Why a command ends before its work is done. -/
inductive CommandError where
  | config (e : ConfigError)
  | noFileName
  | definition (e : DefinitionError)
  | uncompiled (e : CompileError)
  | cache (e : CacheError)

def CommandError.message : CommandError → String
  | .config e => e.message
  | .noFileName => "program path has no file name"
  | .definition e => e.message
  | .uncompiled (.encoding _) => "Invalid program encoding"
  | .uncompiled e => e.message
  | .cache e => e.message

namespace CommandLine

def versionText : String := "cps-run 0.1.0"

def helpLines : List String := [
  "Run a workflow program, reusing compiled scripts across runs",
  "",
  "Usage: cps-run [OPTIONS] <FILE>",
  "",
  "Arguments:",
  "  <FILE>  JSON-encoded program arena",
  "",
  "Options:",
  "  -r, --runs <RUNS>        Number of runs of the same job [default: 1]",
  "      --job <JOB>          Job name; runs of one job share a cache lock [default: cli]",
  "  -c, --config <FILE>      TOML cache configuration",
  "      --enable-cache       Enable the script cache regardless of configuration",
  "      --sandbox            Run under a sandbox policy admitting only the `--allow` signatures",
  "      --allow <SIGNATURE>  Signature admitted by the sandbox policy, e.g. `Map.get` or `String.*`",
  "      --sweep              Run one janitor pass after the last run",
  "  -h, --help               Print help",
  "  -V, --version            Print version"]

/-- The directory for temporary files. -/
def temporary (environment : Entries String) : Path := ⟨(environment.find? "TMPDIR").getD "/tmp"⟩

/-- The settings: those of a file or the defaults, changed by variables and by the arguments. -/
def config (s : Surroundings) (a : RunArguments) : Except ConfigError CacheConfig := do
  let given ←
    match a.config with
    | some p => CacheConfig.load (temporary s.environment) s.files p
    | none => .ok (.default (temporary s.environment))
  let c ← given.withOverrides s.environment
  return { c with enabled := c.enabled || a.enableCache }

/-- The program file as a script in the checkout that its directory is. -/
def definition? (a : RunArguments) : Option FlowDefinition :=
  let checkout : Path :=
    match a.program.parent? with
    | some parent => if parent.text.isEmpty then ⟨"."⟩ else parent
    | none => ⟨"."⟩
  a.program.fileName?.map fun name => ⟨.file checkout ⟨name⟩, a.sandbox⟩

def sandboxPolicy (a : RunArguments) : Policy := (Policy.strict "cli-sandbox").allowAll a.allowed

/-- Built-in members only, with internal calls recorded, and in a sandbox what the policy permits. -/
def invoker (d : FlowDefinition) (policy : Policy) : Invoker Execution :=
  let recording := (Invoker.builtin []).logged Invoker.defaultInternalTypes Execution.recordCall
  if d.isSandboxed then recording.sandboxed policy else recording

/-- A series of runs as far as it has come. -/
structure Series where
  loader : ScriptLoader
  files : FileTree
  heap : Heap
  lines : List String
  failed : Bool

def print (s : Series) (line : String) : Series := { s with lines := s.lines ++ [line] }

/-- What is printed of an outcome. -/
def outcomeText : Outcome → String
  | .completed v => v.text
  | .failed f => "failed: " ++ f.text
  | .suspended s => "suspended on " ++ s.request.text
  | .cancelled => "cancelled"
  | .outOfBudget _ => "out of budget"

/-- Compiles a source for one run. -/
def compile (source : CodeSource) : Producer CompileError := fun w =>
  match Script.compile source.name source.text w.heap with
  | .error e => (w, .error e)
  | .ok (heap, script) => ({ w with heap }, .ok (script.bind w.execution.id))

/-- Loads and runs the program once, as the run of the given number. -/
def runOnce (a : RunArguments) (d : FlowDefinition) (number : Nat) (s : Series) :
    Series × Except CommandError Unit :=
  let policy := d.policy (sandboxPolicy a)
  let root := s.loader.config.runsRoot.joinName (toString number)
  match d.createExecution s.files number a.job root with
  | .error e => (s, .error (.definition e))
  | .ok (execution, source) =>
    let (loader, w, _, script) :=
      s.loader.load ⟨policy, source⟩ [] ⟨s.files, s.heap, execution⟩ (compile source)
    let s := { s with loader, files := w.files, heap := w.heap }
    match script with
    | .error e => (s, .error (.uncompiled e))
    | .ok script =>
      let (world, outcome) := script.run (invoker d policy).invoke ⟨s.heap, w.execution⟩
      let s := { s with heap := world.heap, failed := s.failed || outcome.failed?.isSome }
      let run := "run " ++ toString number ++ ": "
      let s := print s (run ++ outcomeText outcome)
      (world.host.internalCalls.foldl (fun s (signature, count) =>
        print s (run ++ "internal call " ++ signature ++ " x" ++ toString count)) s, .ok ())

/-- Makes the runs that are left, behind those already `made`. -/
def runAll (a : RunArguments) (d : FlowDefinition) (made : Nat) :
    Nat → Series → Series × Except CommandError Unit
  | 0, s => (s, .ok ())
  | left + 1, s =>
    match runOnce a d (made + 1) s with
    | (s, .ok ()) => runAll a d (made + 1) left s
    | (s, .error e) => (s, .error e)

def printStatistics (s : Series) : Series :=
  match s.loader.cache? with
  | some c => print s ("cache: " ++ c.statistics)
  | none => s

def sweep (s : Series) : Series × Except CommandError Unit :=
  match s.loader.sweep s.files with
  | (files, .error e) => ({ s with files }, .error (.cache e))
  | (files, .ok report) =>
    (print { s with files } ("sweep: kept " ++ toString report.kept.length ++ ", deleted " ++
      toString report.deleted.length ++ (if report.purged then ", store purged" else "")), .ok ())

/-- All runs, and what is done behind the last one. -/
def series (a : RunArguments) (d : FlowDefinition) (s : Series) : Series × Except CommandError Unit :=
  match runAll a d 0 a.runs s with
  | (s, .error e) => (s, .error e)
  | (s, .ok ()) => if a.sweep then sweep (printStatistics s) else (printStatistics s, .ok ())

def refuse (files : FileTree) (e : CommandError) : CommandResult := ⟨[], some e.message, 1, files⟩

def runProgram (s : Surroundings) (a : RunArguments) : CommandResult :=
  match config s a, definition? a with
  | .error e, _ => refuse s.files (.config e)
  | .ok _, none => refuse s.files .noFileName
  | .ok config, some d =>
    match series a d ⟨.create config s.ids, s.files, .empty, [], false⟩ with
    | (s, .error e) => ⟨s.lines, some e.message, 1, s.files⟩
    | (s, .ok ()) => ⟨s.lines, none, if s.failed then 1 else 0, s.files⟩

/-- Does what the arguments ask for. -/
def run (s : Surroundings) (arguments : List String) : CommandResult :=
  match Command.ofArguments arguments with
  | .help => ⟨helpLines, none, 0, s.files⟩
  | .version => ⟨[versionText], none, 0, s.files⟩
  | .misuse e => ⟨[], some e.message, 2, s.files⟩
  | .run a => runProgram s a

end CommandLine
end FlowScript
