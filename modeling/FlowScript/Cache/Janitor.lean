import FlowScript.Cache

/-! Sweeps of the library store. A sweep deletes what neither an entry refers to nor a lease protects. -/
namespace FlowScript

/-- What a sweep has done. Where caching is disabled the whole store is purged. -/
structure SweepReport where
  kept : List String
  deleted : List Path
  purged : Bool
  deriving DecidableEq, Repr

namespace ScriptCache

/-- Whether a child of the store is in use. -/
def uses (c : ScriptCache) (id : String) : Bool := c.referenced.contains id || c.store.leased.contains id

/-- Sweeps the children of the store that are left. -/
def sweepChildren (c : ScriptCache) :
    List String → SweepReport → FileTree → FileTree × Except CacheError SweepReport
  | [], report, files => (files, .ok report)
  | id :: rest, report, files =>
    if c.uses id then c.sweepChildren rest { report with kept := report.kept ++ [id] } files
    else
      let path := c.store.directory id
      match files.removeTree path with
      | (files, .error fault) => (files, .error (.io fault))
      | (files, .ok ()) => c.sweepChildren rest { report with deleted := report.deleted ++ [path] } files

def sweep (c : ScriptCache) (files : FileTree) : FileTree × Except CacheError SweepReport :=
  match c.store.children files with
  | .error e => (files, .error e)
  | .ok ids => c.sweepChildren ids ⟨[], [], false⟩ files

end ScriptCache
end FlowScript
