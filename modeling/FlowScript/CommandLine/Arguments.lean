import FlowScript.Decimal.Natural
import FlowScript.Path

/-! Arguments of the command line. They are taken one after the other, and the first thing that ends the
reading counts: a request for help or for the version, or something wrong. -/
namespace FlowScript

/-- Options that are on when they are given. -/
inductive Switch where
  | enableCache
  | sandbox
  | sweep
  deriving DecidableEq, Repr

/-- Options that are given with a value. -/
inductive Setting where
  | runs
  | job
  | config
  | allow
  deriving DecidableEq, Repr

def Switch.name : Switch → String
  | .enableCache => "enable-cache"
  | .sandbox => "sandbox"
  | .sweep => "sweep"

def Switch.ofName? : String → Option Switch
  | "enable-cache" => some .enableCache
  | "sandbox" => some .sandbox
  | "sweep" => some .sweep
  | _ => none

def Setting.name : Setting → String
  | .runs => "runs"
  | .job => "job"
  | .config => "config"
  | .allow => "allow"

def Setting.ofName? : String → Option Setting
  | "runs" => some .runs
  | "job" => some .job
  | "config" => some .config
  | "allow" => some .allow
  | _ => none

def Setting.ofLetter? : Char → Option Setting
  | 'r' => some .runs
  | 'c' => some .config
  | _ => none

/-- What is wrong with arguments. -/
inductive UsageError where
  | unexpected (argument : String)
  | repeated (name : String)
  | missingValue (name : String)
  | invalidValue (name value : String)
  | missingFile
  deriving DecidableEq, Repr

def UsageError.message : UsageError → String
  | .unexpected argument => "unexpected argument '" ++ argument ++ "'"
  | .repeated name => "'--" ++ name ++ "' is given more than once"
  | .missingValue name => "'--" ++ name ++ "' needs a value"
  | .invalidValue name value => "'" ++ value ++ "' is no value for " ++ name
  | .missingFile => "no program file is given"

/-- A request to run the program of a file. -/
structure RunArguments where
  program : Path
  runs : Nat
  job : String
  config : Option Path
  enableCache : Bool
  sandbox : Bool
  sweep : Bool
  allowed : List String
  deriving DecidableEq, Repr

/-- What the arguments ask for. -/
inductive Command where
  | run (a : RunArguments)
  | help
  | version
  | misuse (e : UsageError)
  deriving DecidableEq, Repr

/-- The arguments taken so far. -/
structure Arguments where
  program : Option Path
  runs : Option Nat
  job : Option String
  config : Option Path
  switches : List Switch
  allowed : List String

namespace Arguments

def empty : Arguments := ⟨none, none, none, none, [], []⟩

def wrong (e : UsageError) : Except Command α := .error (.misuse e)

/-- Sets what may be given once. -/
def once (name : String) (current : Option α) (a : Except Command α) : Except Command (Option α) :=
  match current with
  | none => a.map some
  | some _ => wrong (.repeated name)

def readPath (name s : String) : Except Command Path :=
  if s.isEmpty then wrong (.invalidValue name s) else .ok ⟨s⟩

def readRuns (s : String) : Except Command Nat :=
  match Decimal.readNatural UInt64.size s with
  | .ok n => .ok n
  | .error _ => wrong (.invalidValue Setting.runs.name s)

def set (a : Arguments) (option : Setting) (v : String) : Except Command Arguments :=
  match option with
  | .runs => (once option.name a.runs (readRuns v)).map fun runs => { a with runs }
  | .job => (once option.name a.job (.ok v)).map fun job => { a with job }
  | .config => (once option.name a.config (readPath option.name v)).map fun config => { a with config }
  | .allow => .ok { a with allowed := a.allowed ++ [v] }

def switch (a : Arguments) (option : Switch) : Except Command Arguments :=
  if a.switches.contains option then wrong (.repeated option.name)
  else .ok { a with switches := option :: a.switches }

/-- Takes an argument that is no option. -/
def takeFile (a : Arguments) (s : String) : Except Command Arguments :=
  match a.program with
  | some _ => wrong (.unexpected s)
  | none => (readPath "the program file" s).map fun p => { a with program := some p }

/-- Takes an option by its name, with the value behind an equals sign if there is one; a setting
without it waits for the next argument. -/
def takeNamed (a : Arguments) (name : String) (v : Option String) :
    Except Command (Arguments × Option Setting) :=
  match Setting.ofName? name, Switch.ofName? name, v with
  | some option, _, some v => (a.set option v).map (·, none)
  | some option, _, none => .ok (a, some option)
  | none, some option, none => (a.switch option).map (·, none)
  | none, _, _ =>
    if name = "help" ∧ v = none then .error .help
    else if name = "version" ∧ v = none then .error .version
    else wrong (.unexpected ("--" ++ name))

/-- Takes an option by its letter; what follows the letter is the value of a setting. -/
def takeLetter (a : Arguments) (letter : Char) (v : List Char) :
    Except Command (Arguments × Option Setting) :=
  match Setting.ofLetter? letter, v with
  | some option, [] => .ok (a, some option)
  | some option, '=' :: v | some option, v => (a.set option (String.ofList v)).map (·, none)
  | none, _ =>
    if letter = 'h' then .error .help
    else if letter = 'V' then .error .version
    else wrong (.unexpected ("-" ++ String.singleton letter))

/-- An argument that begins with a hyphen is an option, but a lone hyphen is none. -/
def isOption (s : String) : Bool :=
  match s.toList with
  | '-' :: _ :: _ => true
  | _ => false

/-- Takes an argument, for the setting that waits if there is one. -/
def take (a : Arguments) (waiting : Option Setting) (s : String) :
    Except Command (Arguments × Option Setting) :=
  match waiting with
  | some option => if isOption s then wrong (.missingValue option.name) else (a.set option s).map (·, none)
  | none =>
    match s.toList with
    | '-' :: '-' :: cs =>
      let v :=
        match cs.dropWhile (· != '=') with
        | [] => none
        | _ :: v => some (String.ofList v)
      a.takeNamed (String.ofList (cs.takeWhile (· != '='))) v
    | '-' :: letter :: v => a.takeLetter letter v
    | _ => (a.takeFile s).map (·, none)

/-- Takes arguments; behind a double hyphen there are no options. -/
def takeAll (a : Arguments) (waiting : Option Setting) : List String → Except Command Arguments
  | [] =>
    match waiting with
    | some option => wrong (.missingValue option.name)
    | none => .ok a
  | s :: rest =>
    if s = "--" ∧ waiting = none then rest.foldlM takeFile a
    else
      match a.take waiting s with
      | .error c => .error c
      | .ok (a, waiting) => a.takeAll waiting rest

/-- The request, once all arguments are taken. -/
def finish (a : Arguments) : Command :=
  match a.program with
  | none => .misuse .missingFile
  | some program =>
    .run {
      program
      runs := a.runs.getD 1
      job := a.job.getD "cli"
      config := a.config
      enableCache := a.switches.contains .enableCache
      sandbox := a.switches.contains .sandbox
      sweep := a.switches.contains .sweep
      allowed := a.allowed }

end Arguments

def Command.ofArguments (arguments : List String) : Command :=
  match Arguments.empty.takeAll none arguments with
  | .error c => c
  | .ok a => a.finish

example : Command.ofArguments ["-r3", "p.json", "--job=", "--allow", "-"] =
    .run ⟨⟨"p.json"⟩, 3, "", none, false, false, false, ["-"]⟩ := by decide +kernel
example : Command.ofArguments ["--runs", "--help"] = .misuse (.missingValue "runs") := by decide +kernel
example : Command.ofArguments ["-", "-h"] = .help := by decide +kernel

end FlowScript
