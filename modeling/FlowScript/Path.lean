import FlowScript.Text.Split

/-! Paths of files. A path keeps its text as written; what it says are its components, to which
repeated slashes, a slash at the end and a `.` behind another component add nothing. -/
namespace FlowScript

structure Path where
  text : String
  deriving DecidableEq, Repr, Inhabited

/-- A `.` counts only where it begins a path, and `..` stays as it is. -/
inductive Path.Component where
  | root
  | here
  | up
  | name (s : String)
  deriving DecidableEq, Repr

namespace Path

/-- The text between the slashes. -/
def parts (p : Path) : List String := Text.split '/' p.text

def isAbsolute (p : Path) : Bool := p.text.toList.head? == some '/'

/-- What a part says that does not begin its path. -/
def Component.ofPart? : String → Option Component
  | "" | "." => none
  | ".." => some .up
  | s => some (.name s)

def components (p : Path) : List Component :=
  match p.parts with
  | [] => []
  | first :: rest =>
    let start : List Component :=
      if p.isAbsolute then [.root]
      else if first = "." then [.here]
      else (Component.ofPart? first).toList
    start ++ rest.filterMap Component.ofPart?

/-- The path behind this one, or the other path alone where that is absolute. -/
def join (p other : Path) : Path :=
  if other.isAbsolute || p.text.isEmpty then other
  else if p.text.toList.getLast? == some '/' then ⟨p.text ++ other.text⟩
  else ⟨p.text ++ "/" ++ other.text⟩

def joinName (p : Path) (name : String) : Path := p.join ⟨name⟩

/-- Whether the first components are those of the other path. -/
def startsWith (p other : Path) : Bool := other.components.isPrefixOf p.components

/-- The last component, if that is a name. -/
def fileName? (p : Path) : Option String :=
  match p.components.getLast? with
  | some (.name s) => some s
  | _ => none

/-- The path of the parts, the last one first, without those at the end that say nothing. -/
def ofParts (first : String) (backwards : List String) : Path :=
  match backwards.dropWhile fun part => (Component.ofPart? part).isNone with
  | [] => ⟨if first.isEmpty then "/" else first⟩
  | parts => ⟨Text.join "/" (first :: parts.reverse)⟩

/-- The path without its last component; there is none of the root and of the empty path. -/
def parent? (p : Path) : Option Path :=
  match p.parts with
  | [] => none
  | first :: rest =>
    match rest.reverse.dropWhile fun part => (Component.ofPart? part).isNone with
    | _ :: before => some (ofParts first before)
    | [] => if first.isEmpty then none else some ⟨""⟩

example : (Path.mk "/a/./b//").components = [.root, .name "a", .name "b"] := by decide +kernel
example : (Path.mk "/a//b/./").parent? = some ⟨"/a"⟩ := by decide +kernel
example : (Path.mk "p.json").parent? = some ⟨""⟩ := by decide +kernel
example : (Path.mk "..").fileName? = none := by decide +kernel

end Path
end FlowScript
