import FlowScript.FileTree

/-! Where paths lead. A path is followed part by part from a directory; a link on the way is replaced
by its target, and one at the end where that is asked for. -/
namespace FlowScript

/-- Why something could not be done to a file. -/
inductive FileError where
  | notFound
  | notADirectory
  | isADirectory
  | alreadyExists
  | directoryNotEmpty
  | filesystemLoop
  | invalidInput
  | invalidData
  | invalidFilename
  deriving DecidableEq, Repr

/-- A failure with the path that was tried. -/
structure IoFault where
  path : Path
  error : FileError
  deriving DecidableEq, Repr

namespace FileTree

/-- What a path leads to: a node, or a place in a directory where nothing is. -/
inductive Place where
  | taken (l : Location) (node : FileNode)
  | free (l : Location)

/-- The longest name that a directory takes, in bytes. -/
def maxNameSize : Nat := 255

/-- So many links are followed for one path. -/
def maxLinks : Nat := 40

/-- Goes down from a directory; `onLink` goes on from a link with the parts behind it. -/
def descend (t : FileTree) (followLast : Bool)
    (onLink : Location → Path → List String → Except FileError Place) :
    Location → List String → Except FileError Place
  | dir, [] => .ok (.taken dir .directory)
  | dir, part :: rest =>
    if part = "" ∨ part = "." then t.descend followLast onLink dir rest
    else if part = ".." then t.descend followLast onLink dir.dropLast rest
    else if maxNameSize < part.utf8ByteSize then .error .invalidFilename
    else
      let l := dir ++ [part]
      match t.node? l with
      | none => if rest.all String.isEmpty then .ok (.free l) else .error .notFound
      | some .directory => t.descend followLast onLink l rest
      | some (.file content) =>
        if rest.isEmpty then .ok (.taken l (.file content)) else .error .notADirectory
      | some (.link target) =>
        if rest.isEmpty && !followLast then .ok (.taken l (.link target)) else onLink dir target rest

/-- Goes down with at most so many links. -/
def walk (t : FileTree) (followLast : Bool) : Nat → Location → List String → Except FileError Place
  | 0 => t.descend followLast fun _ _ _ => .error .filesystemLoop
  | links + 1 => t.descend followLast fun dir target rest =>
    t.walk followLast links (if target.isAbsolute then [] else dir) (target.parts ++ rest)

def resolve (t : FileTree) (followLast : Bool) (p : Path) : Except FileError Place :=
  if p.text.toList.contains '\x00' then .error .invalidInput
  else if p.text.isEmpty then .error .notFound
  else t.walk followLast maxLinks (if p.isAbsolute then [] else t.workingDirectory) p.parts

/-- The location of what is there, with no link on the way. -/
def locate (t : FileTree) (p : Path) : Except FileError Location :=
  match t.resolve true p with
  | .ok (.taken l _) => .ok l
  | .ok (.free _) => .error .notFound
  | .error e => .error e

def exists? (t : FileTree) (p : Path) : Bool := (t.locate p).isOk

/-- The directory that a path leads to. -/
def directory? (t : FileTree) (p : Path) : Option Location :=
  match t.resolve true p with
  | .ok (.taken l .directory) => some l
  | _ => none

def isDirectory (t : FileTree) (p : Path) : Bool := (t.directory? p).isSome

def readBytes (t : FileTree) (p : Path) : Except FileError ByteArray :=
  match t.resolve true p with
  | .ok (.taken _ (.file content)) => .ok content
  | .ok (.taken _ _) => .error .isADirectory
  | .ok (.free _) => .error .notFound
  | .error e => .error e

def readText (t : FileTree) (p : Path) : Except FileError String :=
  match t.readBytes p with
  | .ok content => (String.fromUTF8? content).elim (.error .invalidData) .ok
  | .error e => .error e

/-- The names in a directory, in order. -/
def readDirectory (t : FileTree) (p : Path) : Except FileError (List String) :=
  match t.resolve true p with
  | .ok (.taken l .directory) => .ok (t.names l)
  | .ok (.taken _ _) => .error .notADirectory
  | .ok (.free _) => .error .notFound
  | .error e => .error e

end FileTree
end FlowScript
