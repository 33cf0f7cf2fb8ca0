import FlowScript.Cache.Janitor
import FlowScript.Config

/-! Loading scripts as the settings say: through the cache, or straight from the producer. -/
namespace FlowScript

/-- Where caching is disabled the cache stays empty and is not asked. -/
structure ScriptLoader where
  config : CacheConfig
  cache : ScriptCache
  janitorRuns : Bool

namespace ScriptLoader

def create (config : CacheConfig) (ids : Nat → String) : ScriptLoader :=
  ⟨config, .create (.create config.libraryRoot ids), false⟩

def store (l : ScriptLoader) : LibraryStore := l.cache.store

def withStore (l : ScriptLoader) (store : LibraryStore) : ScriptLoader :=
  { l with cache := { l.cache with store } }

/-- The cache, if caching is enabled. -/
def cache? (l : ScriptLoader) : Option ScriptCache := if l.config.enabled then some l.cache else none

def load (l : ScriptLoader) (key : CacheKey) (binding : Bindings) (w : Workspace) (produce : Producer ε) :
    ScriptLoader × Workspace × Route × Except ε Script :=
  if l.config.enabled then
    let acquired := l.cache.acquire key binding w produce
    ({ l with cache := acquired.cache }, acquired.workspace, acquired.route, acquired.script)
  else
    let (w, script) := produce w
    (l, w, .uncached, script)

def sweep (l : ScriptLoader) (files : FileTree) : FileTree × Except CacheError SweepReport :=
  if l.config.enabled then l.cache.sweep files
  else
    match l.store.purge files with
    | (files, .ok ()) => (files, .ok ⟨[], [], true⟩)
    | (files, .error e) => (files, .error e)

/-- Starts the periodic sweeps. -/
def startJanitor (l : ScriptLoader) : ScriptLoader := { l with janitorRuns := true }

/-- Stops the periodic sweeps and forgets all entries. -/
def shutdown (l : ScriptLoader) : ScriptLoader :=
  { l with janitorRuns := false, cache := if l.config.enabled then l.cache.clear else l.cache }

/-- What periodic sweeps have done to the files after some time, in milliseconds. All sweeps behind the
first one find nothing left to do. Without a period they never begin. -/
def wait (l : ScriptLoader) (time : Nat) (files : FileTree) : FileTree :=
  if l.janitorRuns ∧ 0 < l.config.janitorPeriod ∧ l.config.janitorPeriod ≤ time then (l.sweep files).1
  else files

end ScriptLoader
end FlowScript
