import FlowScript.Cache.Store
import FlowScript.CodeSource
import FlowScript.Lookup

/-! The cache of compiled scripts. The first run that compiles a source leaves a template behind; later
runs get a copy of their own, with the libraries of the first run in their directory. What goes wrong
with the cache is never answered in place of what the producer answers. -/
namespace FlowScript

/-- What is kept of a script: all but the scopes that it runs in. The script that an entry keeps has scopes as
well, and a hit copies what they hold. That is what is told here; it stays the same unless someone takes that
script out of the entry and runs it. -/
structure Template where
  name : String
  program : Program
  fields : Bindings

namespace Template

/-- The template of a script as it stands, without what its caller has supplied. -/
def ofScript (s : Script) (h : Heap) : Template := ⟨s.name, s.program, h.locals s.fields⟩

/-- A script over fresh scopes. -/
def instantiate (t : Template) (binding : Bindings) (execution : ExecutionId) (h : Heap) : Heap × Script :=
  Script.create t.name t.program binding t.fields (some execution) h

end Template

structure CacheEntry where
  template : Template
  actions : List RunAction
  libraries : CachedLibraries

/-- A hit takes a script from the cache, a miss calls the producer for want of an entry. -/
structure CacheCounters where
  hits : Nat
  misses : Nat
  stores : Nat
  evictions : Nat
  populationFailures : Nat
  deriving DecidableEq, Repr

/-- A key has at most one entry. The jobs in `compiling` are in a miss right now. -/
structure ScriptCache where
  entries : List (CacheKey × CacheEntry)
  compiling : List String
  counters : CacheCounters
  store : LibraryStore

/-- How a run came by its script: from the cache, from the producer with an entry left behind, from the
producer without one, or from the producer because the entry was of no use. -/
inductive Route where
  | hit
  | founded
  | uncached
  | fallback
  deriving DecidableEq, Repr

/-- Makes a script, and may work on what the run works on. -/
abbrev Producer (ε : Type) := Workspace → Workspace × Except ε Script

structure Acquired (ε : Type) where
  cache : ScriptCache
  workspace : Workspace
  route : Route
  script : Except ε Script

namespace ScriptCache

def create (store : LibraryStore) : ScriptCache := ⟨[], [], ⟨0, 0, 0, 0, 0⟩, store⟩

def find? (c : ScriptCache) (key : CacheKey) : Option CacheEntry := c.entries.lookup key

def size (c : ScriptCache) : Nat := c.entries.length

/-- Removes the entry of a key. -/
def remove (c : ScriptCache) (key : CacheKey) : ScriptCache :=
  { c with
    entries := c.entries.filter fun e => e.1 != key
    counters :=
      if (c.find? key).isSome then { c.counters with evictions := c.counters.evictions + 1 }
      else c.counters }

/-- Removes the entry of a key, and tells whether there was one. -/
def evict (c : ScriptCache) (key : CacheKey) : ScriptCache × Bool := (c.remove key, (c.find? key).isSome)

/-- Forgets all entries; the counters stay. -/
def clear (c : ScriptCache) : ScriptCache := { c with entries := [], compiling := [] }

/-- The directories of the store that entries refer to. -/
def referenced (c : ScriptCache) : List String := c.entries.filterMap fun e => e.2.libraries.directory

/-- The template, the action and the libraries of a run that has compiled its script. Only a run that
has declared libraries has any to keep. -/
def record (store : LibraryStore) (script : Script) (w : Workspace) :
    LibraryStore × Workspace × Except CacheError CacheEntry :=
  let w := w.println "Create script cache entry"
  let template := Template.ofScript script w.heap
  match w.execution.libraries? with
  | none => (store, w, .ok ⟨template, [], .empty⟩)
  | some names =>
    match store.harvest names w with
    | (store, w, .error e) =>
      (store, w.println ("Error during caching libraries: " ++ e.message), .error e)
    | (store, w, .ok libraries) => (store, w, .ok ⟨template, [.libraries names], libraries⟩)

/-- Keeps an entry under a key that has none. What was leased for it is given back. -/
def install (c : ScriptCache) (key : CacheKey) (entry : CacheEntry) : ScriptCache :=
  { c with
    entries := c.entries ++ [(key, entry)]
    counters := { c.counters with stores := c.counters.stores + 1 }
    store := entry.libraries.directory.elim c.store c.store.release }

/-- Compiles a script that the cache does not hold, and leaves an entry for it if that can be made. The
run keeps the script that the producer has made. -/
def populate (c : ScriptCache) (key : CacheKey) (w : Workspace) (produce : Producer ε) : Acquired ε :=
  let c := { c with counters := { c.counters with misses := c.counters.misses + 1 } }
  match produce w with
  | (w, .error e) => ⟨c, w, .uncached, .error e⟩
  | (w, .ok script) =>
    match record c.store script w with
    | (store, w, .error _) =>
      ⟨{ c with
          store
          counters := { c.counters with populationFailures := c.counters.populationFailures + 1 } },
        w, .uncached, .ok script⟩
    | (store, w, .ok entry) =>
      ⟨{ c with store }.install key entry, w.println "Store script in cache", .founded, .ok script⟩

/-- Compiles with the job marked as compiling. -/
def miss (c : ScriptCache) (key : CacheKey) (w : Workspace) (produce : Producer ε) : Acquired ε :=
  let job := w.execution.lockKey
  let acquired := { c with compiling := job :: c.compiling }.populate key w produce
  { acquired with cache := { acquired.cache with compiling := acquired.cache.compiling.erase job } }

/-- Takes a script from an entry: its libraries are copied, and then the classpath and the actions are
added to the run. -/
def extract (store : LibraryStore) (entry : CacheEntry) (binding : Bindings) (w : Workspace) :
    Workspace × Except CacheError Script :=
  match store.extract entry.libraries w with
  | (w, .error e) => (w, .error e)
  | (w, .ok urls) =>
    let execution := entry.actions.foldl Execution.addAction (urls.foldl Execution.addClasspath w.execution)
    let (heap, script) := entry.template.instantiate binding execution.id w.heap
    ({ w with heap, execution }, .ok script)

/-- The script of a source under a policy. An entry that cannot be used is removed. -/
def acquire (c : ScriptCache) (key : CacheKey) (binding : Bindings) (w : Workspace) (produce : Producer ε) :
    Acquired ε :=
  match c.find? key with
  | none => c.miss key w produce
  | some entry =>
    match extract c.store entry binding (w.println "Extract script from cache") with
    | (w, .ok script) =>
      ⟨{ c with counters := { c.counters with hits := c.counters.hits + 1 } }, w, .hit, .ok script⟩
    | (w, .error _) =>
      let (w, script) := produce w
      ⟨c.remove key, w, .fallback, script⟩

/-! ### The view -/

@[simp] theorem find?_create (store : LibraryStore) (key : CacheKey) : (create store).find? key = none := rfl

@[simp] theorem find?_clear (c : ScriptCache) (key : CacheKey) : c.clear.find? key = none := rfl

theorem find?_remove (c : ScriptCache) (key other : CacheKey) :
    (c.remove key).find? other = if other = key then none else c.find? other := by
  simp only [find?, remove]
  rw [lookup_filter_keys c.entries fun k => k != key]
  by_cases h : other = key <;> simp [h]

theorem find?_install (c : ScriptCache) {key : CacheKey} (h : c.find? key = none) (entry : CacheEntry)
    (other : CacheKey) :
    (c.install key entry).find? other = if other = key then some entry else c.find? other := by
  simp only [find?, install, lookup_append_pair] at h ⊢
  by_cases ho : other = key
  · subst ho; simp [h]
  · simp [ho]

/-! ### Statistics -/

/-- The part of the calls that were hits; zero before the first one. -/
def hitRate (c : CacheCounters) : Float :=
  if c.hits + c.misses = 0 then 0 else Float.ofNat c.hits / Float.ofNat (c.hits + c.misses)

def statistics (c : ScriptCache) : String :=
  toString c.size ++ " entries, " ++ toString c.counters.hits ++ " hits, " ++
    toString c.counters.misses ++ " misses, " ++ toString c.counters.stores ++ " stores, " ++
    toString c.counters.evictions ++ " evictions, " ++ toString c.counters.populationFailures ++
    " population failures"

end ScriptCache
end FlowScript
