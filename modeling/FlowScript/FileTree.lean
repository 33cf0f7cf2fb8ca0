import FlowScript.Lookup
import FlowScript.Path

/-! Trees of files. A tree says of each location whether a file, a directory or a link is there; the
root is always a directory. `node?` is the view of a tree, and each change is given with what it does
to the view. -/
namespace FlowScript

/-- The names on the way from the root. -/
abbrev Location := List String

/-- Locations in the order of their names, a directory before what it holds. -/
def Location.le : Location → Location → Bool
  | [], _ => true
  | _ :: _, [] => false
  | a :: l, b :: m => a < b || (a == b && Location.le l m)

inductive FileNode where
  | file (content : ByteArray)
  | directory
  | link (target : Path)

/-- The root has no entry. Relative paths begin in the working directory. -/
structure FileTree where
  entries : List (Location × FileNode)
  workingDirectory : Location

namespace FileTree

def empty : FileTree := ⟨[], []⟩

def node? (t : FileTree) (l : Location) : Option FileNode :=
  if l = [] then some .directory else t.entries.lookup l

/-- Puts a node in the place of what is there, and leaves all other locations alone. -/
def put (t : FileTree) (l : Location) (node : FileNode) : FileTree :=
  { t with entries := (l, node) :: t.entries.filter fun e => e.1 != l }

/-- Removes a location and all below it. -/
def remove (t : FileTree) (l : Location) : FileTree :=
  { t with entries := t.entries.filter fun e => !l.isPrefixOf e.1 }

/-- Removes what is below a location. -/
def clear (t : FileTree) (l : Location) : FileTree :=
  { t with entries := t.entries.filter fun e => !(l.isPrefixOf e.1 && e.1 != l) }

/-- The location of an absolute path as it is written. -/
def pathOf (l : Location) : Path := ⟨"/" ++ Text.join "/" l⟩

/-- The nodes below a location with the names that lead down to them, in the order of those; a
directory comes before what it holds. -/
def below (t : FileTree) (l : Location) : List (Location × FileNode) :=
  let found := t.entries.filterMap fun (place, node) =>
    if l.isPrefixOf place && place != l then some (place.drop l.length, node) else none
  found.mergeSort fun a b => Location.le a.1 b.1

/-- The names in a directory, in order. -/
def names (t : FileTree) (l : Location) : List String :=
  (t.below l).filterMap fun
    | ([name], _) => some name
    | _ => none

/-! ### The view -/

@[simp] theorem node?_root (t : FileTree) : t.node? [] = some .directory := by simp [node?]

theorem node?_put (t : FileTree) {l : Location} (h : l ≠ []) (node : FileNode) (other : Location) :
    (t.put l node).node? other = if other = l then some node else t.node? other := by
  by_cases ho : other = []
  · subst ho; simp [node?, Ne.symm h]
  · by_cases hl : other = l
    · subst hl; simp [node?, put, ho]
    · have hb : (other == l) = false := beq_false_of_ne hl
      simp only [node?, put, ho, hl, if_false, List.lookup_cons, hb]
      rw [lookup_filter_keys t.entries fun place => place != l]
      simp [hl]

theorem node?_remove (t : FileTree) {l : Location} (h : l ≠ []) (other : Location) :
    (t.remove l).node? other = if l <+: other then none else t.node? other := by
  by_cases ho : other = []
  · subst ho; simp [node?, h]
  · simp only [node?, ho, if_false, remove]
    rw [lookup_filter_keys t.entries (fun place => !l.isPrefixOf place)]
    have hp : l.isPrefixOf other = true ↔ l <+: other := List.isPrefixOf_iff_prefix
    by_cases h : l <+: other
    · simp [hp.2 h, h]
    · simp [mt hp.1 h, h]

theorem node?_clear (t : FileTree) (l : Location) (other : Location) :
    (t.clear l).node? other = if l <+: other ∧ other ≠ l then none else t.node? other := by
  by_cases ho : other = []
  · subst ho
    by_cases hl : l = []
    · simp [node?, hl]
    · simp [node?, hl]
  · simp only [node?, ho, if_false, clear]
    rw [lookup_filter_keys t.entries (fun place => !(l.isPrefixOf place && place != l))]
    have hp : l.isPrefixOf other = true ↔ l <+: other := List.isPrefixOf_iff_prefix
    by_cases h : l <+: other
    · simp [hp.2 h, h]
    · simp [mt hp.1 h, h]

end FileTree
end FlowScript
