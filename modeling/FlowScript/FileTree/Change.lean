import FlowScript.FileTree.Resolve
import FlowScript.Text.Utf8

/-! Changes to trees of files. What a change did before it failed stays done, so changes of several
steps give the tree in any case. -/
namespace FlowScript.FileTree

/-- Makes a directory in one that is there. -/
def makeDirectory (t : FileTree) (p : Path) : Except FileError FileTree :=
  match t.resolve false p with
  | .ok (.free l) => .ok (t.put l .directory)
  | .ok (.taken _ _) => .error .alreadyExists
  | .error e => .error e

/-- Makes a directory unless it is there. -/
def ensureDirectory (t : FileTree) (p : Path) : FileTree × Except FileError Unit :=
  match t.makeDirectory p with
  | .ok t => (t, .ok ())
  | .error e => (t, if t.isDirectory p then .ok () else .error e)

/-- Makes a directory, and those above it for at most `depth` parts. -/
def makeDirectoriesWithin : Nat → FileTree → Path → FileTree × Except FileError Unit
  | 0, t, _ => (t, .error .notFound)
  | depth + 1, t, p =>
    if p.text.isEmpty then (t, .ok ())
    else
      match t.makeDirectory p, p.parent? with
      | .error .notFound, some parent =>
        match makeDirectoriesWithin depth t parent with
        | (t, .ok ()) => t.ensureDirectory p
        | failed => failed
      | _, _ => t.ensureDirectory p

/-- Makes a directory and those above it that are missing. -/
def makeDirectories (t : FileTree) (p : Path) : FileTree × Except FileError Unit :=
  makeDirectoriesWithin (p.parts.length + 1) t p

/-- Opens a file for writing: its content goes, or a new file is made. -/
def truncate (t : FileTree) (p : Path) : Except FileError (FileTree × Location) :=
  match t.resolve true p with
  | .ok (.taken l (.file _)) => .ok (t.put l (.file .empty), l)
  | .ok (.taken _ _) => .error .isADirectory
  | .ok (.free l) =>
    if p.text.toList.getLast? = some '/' then .error .isADirectory
    else .ok (t.put l (.file .empty), l)
  | .error e => .error e

def writeFile (t : FileTree) (p : Path) (content : ByteArray) : Except FileError FileTree :=
  (t.truncate p).map fun (t, l) => t.put l (.file content)

/-- Copies a file. The source is read after the target has been emptied, so a file copied onto itself
ends up empty. -/
def copyFile (t : FileTree) (source target : Path) : FileTree × Except FileError Unit :=
  match t.resolve true source with
  | .error e => (t, .error e)
  | .ok (.free _) => (t, .error .notFound)
  | .ok (.taken from' (.file _)) =>
    match t.truncate target with
    | .error e => (t, .error e)
    | .ok (t, place) =>
      match t.node? from' with
      | some (.file content) => (t.put place (.file content), .ok ())
      | _ => (t, .ok ())
  | .ok (.taken _ _) => (t, .error .invalidInput)

/-- Makes a link in a place where nothing is. -/
def makeLink (t : FileTree) (p target : Path) : Except FileError FileTree :=
  match t.resolve false p with
  | .ok (.free l) => .ok (t.put l (.link target))
  | .ok (.taken _ _) => .error .alreadyExists
  | .error e => .error e

/-- Makes a node, and the directories above it that are missing, where that can be done. -/
def plantNode (t : FileTree) (p : Path) (node : FileNode) : FileTree :=
  let made := (t.makeDirectories (p.parent?.getD p)).1
  match node with
  | .file content => (made.writeFile p content).toOption.getD made
  | .directory => (made.makeDirectories p).1
  | .link target => (made.makeLink p target).toOption.getD made

/-- Makes nodes below a directory, in their order. -/
def plant (t : FileTree) (base : Path) (nodes : List (String × FileNode)) : FileTree :=
  nodes.foldl (fun t (name, node) => t.plantNode (base.joinName name) node) (t.makeDirectories base).1

/-! ### Copies of directories -/

/-- Copies what stands at `relative` below `source` to below `target`, and counts the file. -/
def copyEntry (t : FileTree) (source target : Path) (relative : Location) (node : FileNode) :
    FileTree × Except IoFault Nat :=
  let name : Path := ⟨Text.join "/" relative⟩
  let source := source.join name
  let target := target.join name
  match node with
  | .directory =>
    match t.makeDirectories target with
    | (t, .ok ()) => (t, .ok 0)
    | (t, .error e) => (t, .error ⟨target, e⟩)
  | _ =>
    let parent := target.parent?.getD target
    match t.makeDirectories parent with
    | (t, .error e) => (t, .error ⟨parent, e⟩)
    | (t, .ok ()) =>
      match t.copyFile source target with
      | (t, .ok ()) => (t, .ok 1)
      | (t, .error e) => (t, .error ⟨source, e⟩)

def copyEntries (source target : Path) :
    List (Location × FileNode) → Nat → FileTree → FileTree × Except IoFault Nat
  | [], copied, t => (t, .ok copied)
  | (relative, node) :: rest, copied, t =>
    match t.copyEntry source target relative node with
    | (t, .ok n) => copyEntries source target rest (copied + n) t
    | (t, .error fault) => (t, .error fault)

/-- Copies all that a directory holds into another one, which is made if it is missing, and counts the
files. Links are copied as what they lead to. -/
def copyTree (t : FileTree) (source target : Path) : FileTree × Except IoFault Nat :=
  match t.makeDirectories target with
  | (t, .error e) => (t, .error ⟨target, e⟩)
  | (t, .ok ()) =>
    match t.locate source with
    | .error e => (t, .error ⟨source, e⟩)
    | .ok l => copyEntries source target (t.below l) 0 t

/-! ### Removal -/

/-- A directory cannot be removed by a path that ends in dots, only emptied. -/
def removalError? (p : Path) : Option FileError :=
  match p.parts.reverse.dropWhile String.isEmpty with
  | "." :: _ => some .invalidInput
  | ".." :: _ => some .directoryNotEmpty
  | _ => none

/-- Removes what is there and all below it, without following a link at the end; nothing needs to be
there. -/
def removeTree (t : FileTree) (p : Path) : FileTree × Except IoFault Unit :=
  match t.resolve false p with
  | .ok (.free _) | .error .notFound => (t, .ok ())
  | .error e => (t, .error ⟨p, e⟩)
  | .ok (.taken l .directory) =>
    match removalError? p with
    | some e => (t.clear l, .error ⟨p, e⟩)
    | none => (t.remove l, .ok ())
  | .ok (.taken l _) => (t.remove l, .ok ())

/-! ### Listings -/

/-- What a listing tells of a name: the text of a file, or that it is a directory. -/
inductive Listed where
  | file (text : String)
  | directory
  deriving DecidableEq, Repr

/-- The names below a directory, down to a depth, with links followed. -/
def listWithin (t : FileTree) : Nat → Path → List (String × Listed)
  | 0, _ => []
  | depth + 1, p =>
    ((t.readDirectory p).toOption.getD []).flatMap fun name =>
      let child := p.joinName name
      match t.readBytes child with
      | .ok content => [(name, .file (Text.decodeLossy content.toList))]
      | .error _ =>
        if t.isDirectory child then
          (name, .directory) :: (t.listWithin depth child).map fun (below, listed) =>
            (name ++ "/" ++ below, listed)
        else []

/-- All names below a directory. -/
def list (t : FileTree) (p : Path) : List (String × Listed) := t.listWithin (t.entries.length + 1) p

end FlowScript.FileTree
