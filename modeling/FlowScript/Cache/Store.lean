import FlowScript.Cache.Classpath
import FlowScript.Execution
import FlowScript.FileTree.Change

/-! The store of library copies. Each copy is a directory of its own below the root of the store, and
its id is used once. A directory is leased while it is written, and written before anything refers to
it. -/
namespace FlowScript

/-- The libraries of a run as they are kept: the directory with the copies, if any were made, the
shared part of the classpath, and the names of the copied libraries in their order. -/
structure CachedLibraries where
  directory : Option String
  urls : List Url
  names : Entries Unit
  deriving DecidableEq

def CachedLibraries.empty : CachedLibraries := ⟨none, [], []⟩

/-- Directories are named by `ids`, of which the first `issued` ones are used up. -/
structure LibraryStore where
  root : Path
  ids : Nat → String
  issued : Nat
  leased : List String

/-- What a run works on: the files of the machine, the scopes of scripts and the run's own record. -/
structure Workspace where
  files : FileTree
  heap : Heap
  execution : Execution

def Workspace.println (w : Workspace) (line : String) : Workspace :=
  { w with execution := w.execution.println line }

namespace LibraryStore

def create (root : Path) (ids : Nat → String) : LibraryStore := ⟨root, ids, 0, []⟩

def directory (s : LibraryStore) (id : String) : Path := s.root.joinName id

/-- The id that comes next. -/
def nextId (s : LibraryStore) : String := s.ids s.issued

/-- Reserves the next id. -/
def lease (s : LibraryStore) : LibraryStore :=
  { s with issued := s.issued + 1, leased := s.leased ++ [s.nextId] }

def release (s : LibraryStore) (id : String) : LibraryStore :=
  { s with leased := s.leased.filter (· != id) }

def releaseAll (s : LibraryStore) : LibraryStore := { s with leased := [] }

/-! ### Keeping libraries -/

/-- Copies libraries to below the directory `target`, one after the other. -/
def copyLibraries (target : Path) : List (String × Path) → Workspace → Workspace × Except CacheError Unit
  | [], w => (w, .ok ())
  | (name, path) :: rest, w =>
    let copy := target.joinName name
    let w := w.println ("Cache library " ++ path.text ++ " to " ++ copy.text)
    match w.files.copyTree path copy with
    | (files, .error fault) => ({ w with files }, .error (.io fault))
    | (files, .ok _) => copyLibraries target rest { w with files }

/-- Keeps the declared libraries that the classpath of a run lies in. An id is taken, and leased, when
there is something to copy; it is given back when that fails. An id that was taken with nothing to copy would be
given back before anyone could see it, since nothing is written under it and it is not named in the answer. -/
def harvest (s : LibraryStore) (libraries : List String) (w : Workspace) :
    LibraryStore × Workspace × Except CacheError CachedLibraries :=
  let survey := Survey.ofClasspath w.execution.root libraries w.execution.classpath
  let id := s.nextId
  let leased := if survey.libraries.isEmpty then s else s.lease
  match copyLibraries (s.directory id) survey.libraries w, survey.error with
  | (w, .error e), _ | (w, .ok ()), some e => (leased.release id, w, .error e)
  | (w, .ok ()), none =>
    (leased, w, .ok {
      directory := if survey.libraries.isEmpty then none else some id
      urls := survey.urls
      names := .ofPairs (survey.libraries.map fun library => (library.1, ())) })

/-! ### Handing libraries out -/

/-- The parts of a library that go on the classpath where they are there. -/
def resourceRoots : List String := ["src", "vars"]

/-- The locations of those parts. -/
def resourceUrls (files : FileTree) (library : Path) : Except CacheError (List Url) :=
  ((resourceRoots.map library.joinName).filter files.isDirectory).mapM directoryUrl

/-- Copies libraries into the directory of a run, one after the other, behind the locations found so
far. -/
def extractFrom (source : Path) :
    List String → List Url → Workspace → Workspace × Except CacheError (List Url)
  | [], urls, w => (w, .ok urls)
  | name :: rest, urls, w =>
    let kept := source.joinName name
    let target := w.execution.libraryRoot.joinName name
    let w := w.println ("Extract cached library from " ++ kept.text ++ " to " ++ target.text)
    match w.files.copyTree kept target with
    | (files, .error fault) => ({ w with files }, .error (.io fault))
    | (files, .ok _) =>
      match resourceUrls files target with
      | .error e => ({ w with files }, .error e)
      | .ok found => extractFrom source rest (urls ++ found) { w with files }

/-- Copies the kept libraries into the directory of a run, and answers what to add to its classpath:
the shared locations and then the parts of each library. -/
def extract (s : LibraryStore) (kept : CachedLibraries) (w : Workspace) :
    Workspace × Except CacheError (List Url) :=
  match kept.directory with
  | none => (w, .ok kept.urls)
  | some id =>
    let source := s.directory id
    if w.files.isDirectory source then extractFrom source kept.names.names kept.urls w
    else
      let e := CacheError.corrupted source
      (w.println e.message, .error e)

/-! ### Housekeeping -/

/-- The names in the store; a store that is not there has none. -/
def children (s : LibraryStore) (files : FileTree) : Except CacheError (List String) :=
  match files.readDirectory s.root with
  | .ok names => .ok names
  | .error .notFound => .ok []
  | .error e => .error (.io ⟨s.root, e⟩)

/-- Deletes the whole store. -/
def purge (s : LibraryStore) (files : FileTree) : FileTree × Except CacheError Unit :=
  match files.removeTree s.root with
  | (files, .ok ()) => (files, .ok ())
  | (files, .error fault) => (files, .error (.io fault))

end LibraryStore
end FlowScript
