import FlowScript.Proofs.Depot
import Mathlib.Data.List.Nodup

/-! The books of a cache. Over every history the counters add up to what the calls and evictions have
answered, and a script is compiled for a key only while the key has no entry of use. -/
namespace FlowScript

/-! ### One call -/

/-- How a call of the cache is booked: one of five ways, each with its counters. -/
inductive Acquired.Booked (c : ScriptCache) (key : CacheKey) (a : Acquired ε) : Prop where
  | hit : a.route = .hit → a.cache.entries = c.entries →
      a.cache.counters = { c.counters with hits := c.counters.hits + 1 } → Booked c key a
  | founded : c.find? key = none → a.route = .founded → a.cache.entries = c.entries ++ [(key, entry)] →
      a.cache.counters =
        { c.counters with misses := c.counters.misses + 1, stores := c.counters.stores + 1 } →
      Booked c key a
  | unstored : a.route = .uncached → a.script = .ok s → a.cache.entries = c.entries →
      a.cache.counters =
        { c.counters with
          misses := c.counters.misses + 1, populationFailures := c.counters.populationFailures + 1 } →
      Booked c key a
  | failed : a.route = .uncached → a.script = .error e → a.cache.entries = c.entries →
      a.cache.counters = { c.counters with misses := c.counters.misses + 1 } → Booked c key a
  | fallback : (c.find? key).isSome = true → a.route = .fallback →
      a.cache.entries = (c.remove key).entries → a.cache.counters = (c.remove key).counters →
      Booked c key a

namespace ScriptCache
variable {c : ScriptCache} {key : CacheKey}

theorem booked_miss (absent : c.find? key = none) (w : Workspace) (produce : Producer ε) :
    (c.miss key w produce).Booked c key := by
  unfold miss populate
  rcases made : produce w with ⟨w₁, e | s⟩
  · exact .failed rfl rfl rfl rfl
  · simp only
    rcases recorded : record c.store s w₁ with ⟨store, w₂, e | entry⟩
    · exact .unstored rfl rfl rfl rfl
    · exact .founded absent rfl rfl rfl

theorem booked_acquire (c : ScriptCache) (key : CacheKey) (binding : Bindings) (w : Workspace)
    (produce : Producer ε) : (c.acquire key binding w produce).Booked c key := by
  unfold acquire
  cases found : c.find? key with
  | none => exact booked_miss found w produce
  | some entry =>
    rcases extracted : extract c.store entry binding (w.println "Extract script from cache") with
      ⟨w', e | s⟩
    · simp only [extracted]
      exact .fallback (by rw [found]; rfl) rfl rfl rfl
    · simp only [extracted]
      exact .hit rfl rfl rfl

/-- A hit has nothing to do with its producer. -/
theorem acquire_hit {produce : Producer ε} (hit : (c.acquire key binding w produce).route = .hit)
    (other : Producer ε) : c.acquire key binding w other = c.acquire key binding w produce := by
  unfold acquire at hit ⊢
  cases found : c.find? key with
  | none =>
    simp only [found] at hit
    have missed : Acquired.Of c key binding w produce (c.miss key w produce) := miss_of found produce
    cases missed with
    | founded _ _ _ route => exact nomatch hit.symm.trans route
    | uncached _ route => exact nomatch hit.symm.trans route
    | hit _ _ present => exact nomatch found.symm.trans present
    | fallback _ _ present => exact nomatch found.symm.trans present
  | some entry =>
    simp only [found] at hit
    rcases extracted : extract c.store entry binding (w.println "Extract script from cache") with
      ⟨w', e | s⟩
    · simp only [extracted] at hit
      exact nomatch hit
    · simp only [extracted]

theorem compiling_populate (c : ScriptCache) (key : CacheKey) (w : Workspace) (produce : Producer ε) :
    (c.populate key w produce).cache.compiling = c.compiling := by
  unfold populate
  rcases produce w with ⟨w₁, e | s⟩
  · rfl
  · simp only
    rcases record c.store s w₁ with ⟨store, w₂, e | entry⟩ <;> rfl

/-- A job counts as compiling only while its call lasts. -/
theorem compiling_acquire (c : ScriptCache) (key : CacheKey) (binding : Bindings) (w : Workspace)
    (produce : Producer ε) : (c.acquire key binding w produce).cache.compiling = c.compiling := by
  unfold acquire
  split
  · simp only [miss, compiling_populate, List.erase_cons_head]
  · split <;> rfl

theorem length_without {entries : List (CacheKey × CacheEntry)} (distinct : (entries.map Prod.fst).Nodup)
    (key : CacheKey) :
    (entries.filter fun e => e.1 != key).length + (entries.lookup key).isSome.toNat = entries.length := by
  induction entries with
  | nil => rfl
  | cons e entries ih =>
    obtain ⟨k, entry⟩ := e
    obtain ⟨absent, distinct⟩ := List.nodup_cons.1 distinct
    by_cases same : k = key
    · subst same
      have all : entries.filter (fun e => e.1 != k) = entries :=
        List.filter_eq_self.2 fun e member => bne_iff_ne.2 fun same =>
          absent (List.mem_map.2 ⟨e, member, same⟩)
      simp [all]
    · have other : (key == k) = false := beq_false_of_ne (Ne.symm same)
      have rest := ih distinct
      simp only [List.lookup_cons, other, List.filter_cons, bne_iff_ne, ne_eq, same, not_false_eq_true,
        if_true, List.length_cons]
      omega

/-- Where the keys are distinct, an entry is removed once and counted once. -/
theorem remove_books (distinct : (c.entries.map Prod.fst).Nodup) (key : CacheKey) :
    (c.remove key).size + (c.find? key).isSome.toNat = c.size ∧
      (c.remove key).counters =
        { c.counters with evictions := c.counters.evictions + (c.find? key).isSome.toNat } := by
  refine ⟨length_without distinct key, ?_⟩
  unfold remove
  cases (c.find? key).isSome <;> rfl

end ScriptCache

/-! ### Histories -/

/-- What an act answers. -/
inductive Answer (ε : Type) where
  | acquired (a : Acquired ε)
  | evicted (was : Bool)
  | nothing

namespace Answer
variable {ε : Type}

def isCall : Answer ε → Bool
  | .acquired _ => true
  | _ => false

/-- The producer has been called. -/
def produced : Answer ε → Bool
  | .acquired a => a.route != .hit
  | _ => false

/-- The entry could not be used. -/
def fellBack : Answer ε → Bool
  | .acquired a => a.route == .fallback
  | _ => false

/-- The producer has failed where there was no entry. -/
def failed : Answer ε → Bool
  | .acquired a => a.route == .uncached && a.script.toOption.isNone
  | _ => false

/-- An eviction has removed an entry. -/
def removed : Answer ε → Bool
  | .evicted was => was
  | _ => false

@[simp] theorem counts_acquired (a : Acquired ε) :
    (acquired a).isCall = true ∧ (acquired a).produced = (a.route != .hit) ∧
      (acquired a).fellBack = (a.route == .fallback) ∧
      (acquired a).failed = (a.route == .uncached && a.script.toOption.isNone) ∧
      (acquired a).removed = false := ⟨rfl, rfl, rfl, rfl, rfl⟩

@[simp] theorem counts_evicted (was : Bool) :
    (evicted was : Answer ε).isCall = false ∧ (evicted was : Answer ε).produced = false ∧
      (evicted was : Answer ε).fellBack = false ∧ (evicted was : Answer ε).failed = false ∧
      (evicted was : Answer ε).removed = was := ⟨rfl, rfl, rfl, rfl, rfl⟩

@[simp] theorem counts_nothing :
    (nothing : Answer ε).isCall = false ∧ (nothing : Answer ε).produced = false ∧
      (nothing : Answer ε).fellBack = false ∧ (nothing : Answer ε).failed = false ∧
      (nothing : Answer ε).removed = false := ⟨rfl, rfl, rfl, rfl, rfl⟩

end Answer

namespace Depot
variable {ε : Type} {d : Depot} {acts : List (DepotAct ε)}

def answer (d : Depot) : DepotAct ε → Answer ε
  | .acquire key binding h execution produce => .acquired (d.acquire key binding h execution produce)
  | .evict key => .evicted (d.cache.evict key).2
  | _ => .nothing

/-- What the acts answer, one after the other. -/
def answers (d : Depot) : List (DepotAct ε) → List (Answer ε)
  | [] => []
  | a :: acts => d.answer a :: answers (d.act a) acts

/-- The size and the counters of a cache add up to what has been answered. -/
structure Sums (size : Nat) (counters : CacheCounters) (answers : List (Answer ε)) : Prop where
  calls : answers.countP (·.isCall) = counters.hits + counters.misses + answers.countP (·.fellBack)
  misses : counters.misses =
    counters.stores + counters.populationFailures + answers.countP (·.failed)
  size : size + counters.evictions = counters.stores
  evictions : counters.evictions = answers.countP (·.fellBack) + answers.countP (·.removed)
  produced : answers.countP (·.produced) = counters.misses + answers.countP (·.fellBack)

/-- The books add up, every key has at most one entry, and no job is left compiling. -/
structure Balanced (d : Depot) (answers : List (Answer ε)) : Prop where
  keys : (d.cache.entries.map Prod.fst).Nodup
  sums : Sums d.cache.size d.cache.counters answers
  compiling : d.cache.compiling = []

theorem Sums.acquired {c : ScriptCache} {answers : List (Answer ε)} {a : Acquired ε}
    (sums : Sums c.size c.counters answers) (keys : (c.entries.map Prod.fst).Nodup)
    (booked : a.Booked c key) : Sums a.cache.size a.cache.counters (answers ++ [.acquired a]) := by
  obtain ⟨calls, misses, size, evictions, produced⟩ := sums
  cases booked with
  | hit route unchanged counted =>
    have size' : a.cache.size = c.size := congrArg List.length unchanged
    constructor <;> simp [route, size', counted] <;> omega
  | founded absent route more counted =>
    have size' : a.cache.size = c.size + 1 := by simp [ScriptCache.size, more]
    constructor <;> simp [route, size', counted] <;> omega
  | unstored route script unchanged counted =>
    have size' : a.cache.size = c.size := congrArg List.length unchanged
    constructor <;> simp [route, size', counted, script, Except.toOption] <;> omega
  | failed route script unchanged counted =>
    have size' : a.cache.size = c.size := congrArg List.length unchanged
    constructor <;> simp [route, size', counted, script, Except.toOption] <;> omega
  | fallback present route removed counted =>
    obtain ⟨fewer, evicted⟩ := ScriptCache.remove_books keys key
    rw [present] at fewer evicted
    have size' : a.cache.size + 1 = c.size := by
      rw [← fewer, ScriptCache.size, removed]
      rfl
    constructor <;> simp [route, counted, evicted] <;> omega

theorem Sums.evicted {c : ScriptCache} {answers : List (Answer ε)} (sums : Sums c.size c.counters answers)
    (keys : (c.entries.map Prod.fst).Nodup) (key : CacheKey) :
    Sums (c.evict key).1.size (c.evict key).1.counters (answers ++ [.evicted (c.evict key).2]) := by
  obtain ⟨calls, misses, size, evictions, produced⟩ := sums
  obtain ⟨fewer, evicted⟩ := ScriptCache.remove_books keys key
  simp only [ScriptCache.evict]
  cases present : (c.find? key).isSome <;>
    simp only [present, Bool.toNat_true, Bool.toNat_false] at fewer evicted
  · constructor <;> simp [evicted] <;> omega
  · constructor <;> simp [evicted] <;> omega

theorem Sums.nothing {n : Nat} {counters : CacheCounters} {answers : List (Answer ε)}
    (sums : Sums n counters answers) : Sums n counters (answers ++ [.nothing]) := by
  obtain ⟨calls, misses, size, evictions, produced⟩ := sums
  constructor <;> simpa

/-- Keys stay distinct: only a key without an entry gets one. -/
theorem keys_acquire {c : ScriptCache} {a : Acquired ε} (keys : (c.entries.map Prod.fst).Nodup)
    (booked : a.Booked c key) : (a.cache.entries.map Prod.fst).Nodup := by
  cases booked with
  | hit _ unchanged => exact unchanged ▸ keys
  | founded absent _ more =>
    rw [more, List.map_append]
    refine List.nodup_append.2 ⟨keys, List.nodup_singleton _, fun k member k' here same => ?_⟩
    obtain rfl : k' = key := List.mem_singleton.1 here
    obtain ⟨e, inside, rfl⟩ := List.mem_map.1 member
    have other := List.lookup_eq_none_iff.1 absent e inside
    simp [same] at other
  | unstored _ _ unchanged => exact unchanged ▸ keys
  | failed _ _ unchanged => exact unchanged ▸ keys
  | fallback _ _ removed => exact removed ▸ keys.sublist (List.filter_sublist.map _)

/-- The cache is cleared. -/
def clears : DepotAct ε → Bool
  | .clear => true
  | _ => false

theorem Balanced.act {answers : List (Answer ε)} (balanced : d.Balanced answers) (a : DepotAct ε)
    (kept : clears a = false) : (d.act a).Balanced (answers ++ [d.answer a]) := by
  obtain ⟨keys, sums, compiling⟩ := balanced
  cases a with
  | acquire key binding h execution produce =>
    have booked := d.cache.booked_acquire key binding ⟨d.files, h, execution⟩ produce
    have idle := d.cache.compiling_acquire key binding ⟨d.files, h, execution⟩ produce
    exact ⟨keys_acquire keys booked, sums.acquired keys booked, idle.trans compiling⟩
  | evict key => exact ⟨keys.sublist (List.filter_sublist.map _), sums.evicted keys key, compiling⟩
  | clear => exact nomatch kept
  | lease | release | change | sweep => exact ⟨keys, sums.nothing, compiling⟩

theorem Balanced.after {answers : List (Answer ε)} (balanced : d.Balanced answers)
    (kept : ∀ a ∈ acts, clears a = false) : (d.after acts).Balanced (answers ++ d.answers acts) := by
  induction acts generalizing d answers with
  | nil => simpa [Depot.answers, Depot.after] using balanced
  | cons a acts ih =>
    obtain ⟨first, others⟩ := List.forall_mem_cons.1 kept
    simpa [Depot.answers, Depot.after] using ih (balanced.act a first) others

/-! ### Where programs come from -/

/-- A call of the history has founded the entry of the key, with the program that its producer has made. The
entry has been there ever since, and all calls for the key since then are hits. -/
structure Serves (start : Depot) (acts : List (DepotAct ε)) (key : CacheKey) (entry : CacheEntry) : Prop where
  origin : ∃ before binding h execution produce later script,
    acts = before ++ .acquire key binding h execution produce :: later ∧
      let founding := (start.after before).acquire key binding h execution produce
      founding.route = .founded ∧ founding.script = .ok script ∧
        entry.template.program = script.program ∧
        ∀ between rest, later = between ++ rest →
          let d := start.after (before ++ .acquire key binding h execution produce :: between)
          d.cache.find? key = some entry ∧
            ∀ binding h execution (produce : Producer ε),
              rest.head? = some (.acquire key binding h execution produce) →
                (d.acquire key binding h execution produce).route = .hit

/-- An entry that is there after an act was there before it, and the act is not a call that could not use it;
or the act is the call that has founded it. -/
theorem find?_act (a : DepotAct ε) (found : (d.act a).cache.find? key = some entry) :
    (d.cache.find? key = some entry ∧ ∀ binding h execution produce,
        a = .acquire key binding h execution produce →
          (d.acquire key binding h execution produce).route = .hit) ∨
      ∃ binding h execution produce script, a = .acquire key binding h execution produce ∧
        (d.acquire key binding h execution produce).route = .founded ∧
        (d.acquire key binding h execution produce).script = .ok script ∧
        entry.template.program = script.program := by
  cases a with
  | acquire other binding h execution produce =>
    have spec := d.cache.acquire_of other binding ⟨d.files, h, execution⟩ produce
    simp only [act, Depot.acquire] at found ⊢
    cases spec with
    | hit _ s present route script _ _ unchanged =>
      refine .inl ⟨(unchanged key).symm.trans found, ?_⟩
      rintro _ _ _ _ ⟨⟩
      exact route
    | founded new s absent route ok script same template stored =>
      rw [stored] at found
      by_cases here : key = other
      · subst here
        rw [if_pos rfl] at found
        obtain rfl := Option.some.inj found
        exact .inr ⟨binding, h, execution, produce, s, rfl, route, script, by rw [template]; rfl⟩
      · rw [if_neg here] at found
        refine .inl ⟨found, ?_⟩
        rintro _ _ _ _ ⟨⟩
        exact absurd rfl here
    | uncached absent route script same unchanged =>
      have present := (unchanged key).symm.trans found
      refine .inl ⟨present, ?_⟩
      rintro _ _ _ _ ⟨⟩
      rw [absent] at present
      cases present
    | fallback _ _ _ _ _ _ _ removed =>
      rw [removed] at found
      obtain ⟨other, present⟩ := Option.ite_none_left_eq_some.1 found
      refine .inl ⟨present, ?_⟩
      rintro _ _ _ _ ⟨⟩
      exact absurd rfl other
  | evict other =>
    rw [act, ScriptCache.evict, ScriptCache.find?_remove] at found
    refine .inl ⟨(Option.ite_none_left_eq_some.1 found).2, ?_⟩
    rintro _ _ _ _ ⟨⟩
  | clear => cases found
  | lease | release | change | sweep =>
    refine .inl ⟨found, ?_⟩
    rintro _ _ _ _ ⟨⟩

/-- An entry that is there after one more act is served as before, if the act is not a call that could not
use it. -/
theorem Serves.snoc {a : DepotAct ε} (serves : d.Serves acts key entry)
    (found : ((d.after acts).act a).cache.find? key = some entry)
    (hits : ∀ binding h execution produce, a = .acquire key binding h execution produce →
      ((d.after acts).acquire key binding h execution produce).route = .hit) :
    d.Serves (acts ++ [a]) key entry := by
  obtain ⟨before, binding, h, execution, produce, later, script, rfl, route, ok, made, since⟩ := serves
  refine ⟨before, binding, h, execution, produce, later ++ [a], script, by simp, route, ok, made, ?_⟩
  intro between rest split
  rcases List.eq_nil_or_concat rest with rfl | ⟨rest, last, rfl⟩
  · obtain rfl := (List.append_nil between).symm.trans split.symm
    refine ⟨?_, by rintro _ _ _ _ ⟨⟩⟩
    rw [← List.cons_append, ← List.append_assoc, after_append]
    exact found
  · rw [List.concat_eq_append, ← List.append_assoc] at split
    obtain ⟨rfl, same⟩ := List.append_inj' split rfl
    obtain rfl := List.singleton_inj.1 same
    refine ⟨(since between rest rfl).1, fun binding h execution produce first => ?_⟩
    cases rest with
    | nil =>
      obtain rfl := Option.some.inj first
      simpa using hits binding h execution produce rfl
    | cons => exact (since between _ rfl).2 binding h execution produce first

/-- The call that has founded an entry serves it. -/
theorem Serves.of_founded {produce : Producer ε}
    (route : ((d.after acts).acquire key binding h execution produce).route = .founded)
    (ok : ((d.after acts).acquire key binding h execution produce).script = .ok script)
    (made : entry.template.program = script.program)
    (found : ((d.after acts).act (.acquire key binding h execution produce)).cache.find? key =
      some entry) :
    d.Serves (acts ++ [.acquire key binding h execution produce]) key entry := by
  refine ⟨acts, binding, h, execution, produce, [], script, rfl, route, ok, made, ?_⟩
  intro between rest split
  obtain ⟨rfl, rfl⟩ := List.nil_eq_append_iff.1 split
  refine ⟨by rwa [after_append], ?_⟩
  rintro _ _ _ _ ⟨⟩

theorem serves (none : d.cache.entries = []) (found : (d.after acts).cache.find? key = some entry) :
    d.Serves acts key entry := by
  -- The last act either has founded the entry, or has found it there.
  induction acts using List.reverseRecOn with
  | nil =>
    have missing : d.cache.find? key = .none := by rw [ScriptCache.find?, none]; rfl
    cases missing.symm.trans found
  | append_singleton acts a ih =>
    rw [after_append] at found
    rcases find?_act a found with
      ⟨present, hits⟩ | ⟨binding, h, execution, produce, script, rfl, route, ok, made⟩
    · exact (ih present).snoc found hits
    · exact .of_founded route ok made found

/-- What a call of a depot comes to. A hit does not ask its producer, whatever it is, and serves the program
of the entry. Any other call has its script from the producer, which has worked on the scopes of the run once,
and leaves no entry that was there before. -/
structure Call (d : Depot) (key : CacheKey) (binding : Bindings) (h : Heap) (execution : Execution)
    (produce : Producer ε) : Prop where
  hit : (d.acquire key binding h execution produce).route = .hit →
    (∀ other : Producer ε,
        d.acquire key binding h execution other = d.acquire key binding h execution produce) ∧
      ∃ entry s, d.cache.find? key = some entry ∧
        (d.acquire key binding h execution produce).script = .ok s ∧ s.program = entry.template.program
  produced : (d.acquire key binding h execution produce).route ≠ .hit →
    (∃ w : Workspace, w.heap = h ∧ (d.acquire key binding h execution produce).script = (produce w).2 ∧
      (d.acquire key binding h execution produce).workspace.heap = (produce w).1.heap) ∧
      ((d.cache.find? key).isSome = true →
        (d.acquire key binding h execution produce).cache.find? key = none)

theorem call (d : Depot) (key : CacheKey) (binding : Bindings) (h : Heap) (execution : Execution)
    (produce : Producer ε) : d.Call key binding h execution produce := by
  have spec := d.cache.acquire_of key binding ⟨d.files, h, execution⟩ produce
  refine ⟨fun route => ⟨fun other => ScriptCache.acquire_hit route other, ?_⟩, fun route => ?_⟩
  · cases spec with
    | hit entry s found _ script instantiated =>
      exact ⟨entry, s, found, script, congrArg (·.2.program) instantiated⟩
    | founded _ _ _ route' => exact nomatch route.symm.trans route'
    | uncached _ route' => exact nomatch route.symm.trans route'
    | fallback _ _ _ _ route' => exact nomatch route.symm.trans route'
  · cases spec with
    | hit _ _ _ route' => exact absurd route' route
    | founded _ s absent _ ok script same =>
      refine ⟨⟨⟨d.files, h, execution⟩, rfl, script.trans ok.symm, same.heap⟩, fun present => ?_⟩
      rw [absent] at present
      exact nomatch present
    | uncached absent _ script same =>
      refine ⟨⟨⟨d.files, h, execution⟩, rfl, script, same.heap⟩, fun present => ?_⟩
      rw [absent] at present
      exact nomatch present
    | fallback _ w' _ same _ script worked removed =>
      -- The entry has been removed before the producer is asked.
      exact ⟨⟨w', same.heap, script, congrArg (·.heap) worked⟩,
        fun _ => (removed key).trans (if_pos rfl)⟩

/-- The books of a cache balance, and at most one script is compiled for an entry. Over all histories of calls,
evictions, leases, sweeps and changes of the files, whatever the producers do, the counters add up to what has
been answered and no job is left compiling. An entry serves the program of the call that has founded it under
its own key, and no call asks its producer while the entry is there. -/
theorem books_balance (root : Path) (ids : Nat → String) (files : FileTree) (acts : List (DepotAct ε))
    (kept : ∀ a ∈ acts, clears a = false) :
    let start := opening root ids files
    let d := start.after acts
    d.Balanced (start.answers acts) ∧
      (∀ key entry, d.cache.find? key = some entry → start.Serves acts key entry) ∧
      ∀ key binding h execution (produce : Producer ε), d.Call key binding h execution produce := by
  intro start d
  have opened : start.Balanced ([] : List (Answer ε)) :=
    ⟨List.nodup_nil, ⟨rfl, rfl, rfl, rfl, rfl⟩, rfl⟩
  have balanced := opened.after kept
  rw [List.nil_append] at balanced
  exact ⟨balanced, fun key entry found => serves rfl found, d.call⟩

/-- A copy in the store is lost between two hits. The second one falls back to its producer and removes the
entry, so that an eviction finds nothing, and the next call compiles once more. -/
theorem books_of_lost_copy :
    let ids n := String.ofList (List.replicate (n + 1) 'd')
    let files :=
      (((((FileTree.empty.put ["s"] .directory).put ["q"] .directory).put ["r"] .directory).put
        ["r", "libs"] .directory).put ["r", "libs", "a"] .directory).put ["r", "libs", "a", "f"]
          (.file .empty)
    let key : CacheKey := ⟨.unrestricted, .ofText "one"⟩
    let made : Maker Unit := .ofTemplate ⟨"One", ⟨#[.constant (.int 1)], 0⟩, []⟩ []
    let founding :=
      ((Execution.create 0 "job" ⟨"/r"⟩).addClasspath (.ofSegments ["r", "libs", "a", ""])).addAction
      (.libraries ["a"])
    let call (execution : Execution) : DepotAct Unit := .acquire key [] .empty execution made.produce
    let start := opening ⟨"/s"⟩ ids files
    let acts := [call founding, call (.create 1 "job" ⟨"/q"⟩), .change fun _ => files,
      call (.create 2 "job" ⟨"/q"⟩), .evict key, call founding, .evict key]
    let d := start.after acts
    (∀ a ∈ acts, clears a = false) ∧ d.cache.counters = ⟨1, 2, 2, 2, 0⟩ ∧
      (start.answers acts).countP (·.produced) = 3 ∧ d.Balanced (start.answers acts) := by
  intro ids files key made founding call start acts d
  have kept : ∀ a ∈ acts, clears a = false := by
    simp [acts, call, clears]
  obtain ⟨balanced, -⟩ := books_balance ⟨"/s"⟩ ids files acts kept
  exact ⟨kept, by decide +kernel, by decide +kernel, balanced⟩

end Depot
end FlowScript
