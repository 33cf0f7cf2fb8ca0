import FlowScript.FileTree.Resolve
import FlowScript.Url

/-! What belongs to whom on the classpath of a run. All below the directory of the run is private to it
and has to lie in one of its libraries; all else is shared. -/
namespace FlowScript

/-- Why something could not be cached or taken from the cache. -/
inductive CacheError where
  | io (fault : IoFault)
  | notALibrary (path : Path)
  | corrupted (directory : Path)
  | invalidPath (path : Path)
  deriving DecidableEq, Repr

def CacheError.message : CacheError → String
  | .io fault => "I/O error at " ++ fault.path.text
  | .notALibrary path =>
    "Found classpath " ++ path.text ++ " can't be cached because it isn't a library"
  | .corrupted directory =>
    "Script cache is corrupted. Libraries cache dir isn't exist - " ++ directory.text
  | .invalidPath path => "Path " ++ path.text ++ " cannot be expressed as a classpath URL"

/-- A library is named as it was declared and has its directory at `path`. -/
inductive Placement where
  | external
  | library (name : String) (path : Path)
  deriving DecidableEq, Repr

namespace Placement

/-- The candidate with the longest path; of several the last one. -/
def longest : Option (String × Path) → List (String × Path) → Option (String × Path)
  | best, [] => best
  | none, candidate :: rest => longest (some candidate) rest
  | some best, candidate :: rest =>
    longest (some (if candidate.2.components.length < best.2.components.length then best else candidate))
      rest

/-- Where a location stands for a run in the directory `root` that has declared libraries. -/
def classify (url : Url) (root : Path) (libraries : List String) : Except CacheError Placement :=
  match url.filePath? with
  | none => .ok .external
  | some path =>
    if !path.startsWith root then .ok .external
    else
      let candidates := (libraries.map fun name => (name, (root.joinName "libs").joinName name)).filter
        fun candidate => path.startsWith candidate.2
      match longest none candidates with
      | some (name, directory) => .ok (.library name directory)
      | none => .error (.notALibrary path)

end Placement

/-- What a classpath consists of: the libraries that it lies in, each once, and the shared locations,
up to the first location that has no place. -/
structure Survey where
  libraries : List (String × Path)
  urls : List Url
  error : Option CacheError

def Survey.ofClasspath (root : Path) (libraries : List String) : List Url → Survey
  | [] => ⟨[], [], none⟩
  | url :: rest =>
    let survey := ofClasspath root libraries rest
    match Placement.classify url root libraries with
    | .error e => ⟨[], [], some e⟩
    | .ok .external => { survey with urls := url :: survey.urls }
    | .ok (.library name path) =>
      { survey with libraries := (name, path) :: survey.libraries.filter fun library => library.1 != name }

/-- The location of a directory for the classpath. -/
def directoryUrl (p : Path) : Except CacheError Url :=
  (Url.ofDirectory? p).elim (.error (.invalidPath p)) .ok

end FlowScript
