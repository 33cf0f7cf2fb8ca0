import FlowScript.Proofs.Accounting
import FlowScript.Proofs.Depot

/-! What a call of the cache leaves behind where something goes wrong in it: the producer, the copies that are
made for a new entry, or those that an entry is to hand out. -/
namespace FlowScript

namespace LibraryStore
open FileTree

variable {s s' : LibraryStore} {w w' : Workspace} {names : List String} {id : String}
  {e : CacheError}

/-- Where copies of the libraries of these names can write to. A name may lead out of the directory. -/
def CanReach (t : FileTree) (directory : Path) (names : List String) (l : Location) : Prop :=
  ∃ name ∈ names, t.WithinWay (directory.joinName name) l

theorem copyLibraries_reach (sound : w.files.Sound) {target : Path} (begins : w.files.Begins target)
    (libraries : List (String × Path)) :
    FileTree.Grows (fun l _ => CanReach w.files target (libraries.map Prod.fst) l) w.files
      (copyLibraries target libraries w).1.files := by
  induction libraries generalizing w with
  | nil => exact .refl _ _
  | cons library libraries ih =>
    obtain ⟨name, path⟩ := library
    have grows : FileTree.Grows
        (fun l _ => CanReach w.files target (((name, path) :: libraries).map Prod.fst) l) w.files
        (w.files.copyTree path (target.joinName name)).1 :=
      (copyTree_grows sound path (begins_join begins _)).imp fun l _ within =>
        ⟨name, List.mem_cons_self, within⟩
    simp only [copyLibraries_cons, Workspace.println]
    generalize w.execution.println _ = execution
    split
    · next failed => rwa [failed] at grows
    · next files k copied =>
      rw [copied] at grows
      have later := @ih ⟨files, w.heap, execution⟩ (grows.sound sound) (grows.begins begins)
      refine grows.trans (later.imp fun l _ => ?_)
      rintro ⟨other, member, within⟩
      exact ⟨other, List.mem_cons_of_mem _ member, grows.within_iff.1 within⟩

/-- A harvest that fails gives its lease back and uses up an id at most. What has been copied stays. -/
theorem harvest_error (failed : s.harvest names w = (s', w', .error e)) :
    (∃ issued, (issued = s.issued ∨ issued = s.issued + 1) ∧
      s' = { s with issued, leased := s.leased.filter (· != s.nextId) }) ∧
      w' = (copyLibraries (s.directory s.nextId)
        (Survey.ofClasspath w.execution.root names w.execution.classpath).libraries w).1 := by
  simp only [harvest] at failed
  generalize Survey.ofClasspath w.execution.root names w.execution.classpath = survey at failed ⊢
  have released : ∃ issued, (issued = s.issued ∨ issued = s.issued + 1) ∧
      (if survey.libraries.isEmpty then s else s.lease).release s.nextId =
        { s with issued, leased := s.leased.filter (· != s.nextId) } := by
    split
    · exact ⟨s.issued, .inl rfl, rfl⟩
    · exact ⟨s.issued + 1, .inr rfl, by simp [release, lease]⟩
  generalize copyLibraries (s.directory s.nextId) survey.libraries w = result at failed ⊢
  obtain ⟨w₁, e₁ | _⟩ := result
  · obtain ⟨rfl, same⟩ := Prod.mk.inj failed
    exact ⟨released, (Prod.mk.inj same).1.symm⟩
  · cases found : survey.error with
    | some e₁ =>
      rw [found] at failed
      obtain ⟨rfl, same⟩ := Prod.mk.inj failed
      exact ⟨released, (Prod.mk.inj same).1.symm⟩
    | none =>
      rw [found] at failed
      cases (Prod.mk.inj (Prod.mk.inj failed).2).2

/-! ### Ids in use -/

/-- The id is used up. -/
def GivenOut (s : LibraryStore) (id : String) : Prop := ∃ n < s.issued, id = s.ids n

/-- At most the next id is given out. -/
structure Draws (s s' : LibraryStore) : Prop where
  ids : s'.ids = s.ids
  issued : s.issued ≤ s'.issued
  leased : ∀ id ∈ s'.leased, id ∈ s.leased ∨ s'.GivenOut id

theorem Draws.refl (s : LibraryStore) : s.Draws s := ⟨rfl, Nat.le_refl _, fun _ => .inl⟩

theorem Draws.givenOut (draws : s.Draws s') (before : s.GivenOut id) : s'.GivenOut id := by
  obtain ⟨n, lt, rfl⟩ := before
  exact ⟨n, Nat.lt_of_lt_of_le lt draws.issued, by rw [draws.ids]⟩

theorem givenOut_lease (s : LibraryStore) : s.lease.GivenOut s.nextId := ⟨s.issued, Nat.lt_succ_self _, rfl⟩

theorem draws_lease (s : LibraryStore) : s.Draws s.lease := by
  refine ⟨rfl, Nat.le_succ _, fun id member => ?_⟩
  rcases List.mem_append.1 member with before | next
  · exact .inl before
  · exact .inr (List.mem_singleton.1 next ▸ s.givenOut_lease)

theorem Draws.release (draws : s.Draws s') (id : String) : s.Draws (s'.release id) :=
  ⟨draws.ids, draws.issued, fun other member => draws.leased other (List.mem_filter.1 member).1⟩

/-- A new entry names no directory, or one that has just been given out. -/
theorem harvest_draws (s : LibraryStore) (names : List String) (w : Workspace) :
    s.Draws (s.harvest names w).1 ∧ ∀ kept, (s.harvest names w).2.2 = .ok kept →
      ∀ id, kept.directory = some id → (s.harvest names w).1.GivenOut id := by
  simp only [harvest]
  generalize Survey.ofClasspath w.execution.root names w.execution.classpath = survey
  have drawn : s.Draws (if survey.libraries.isEmpty then s else s.lease) := by
    split
    · exact .refl s
    · exact s.draws_lease
  generalize copyLibraries (s.directory s.nextId) survey.libraries w = result
  obtain ⟨w₁, e₁ | _⟩ := result
  · exact ⟨drawn.release _, by rintro _ ⟨⟩⟩
  · cases survey.error with
    | some e₁ => exact ⟨drawn.release _, by rintro _ ⟨⟩⟩
    | none =>
      refine ⟨drawn, ?_⟩
      rintro _ ⟨⟩ id named
      cases none : survey.libraries.isEmpty with
      | true => simp [none] at named
      | false =>
        obtain rfl : s.nextId = id := by simpa [none] using named
        exact s.givenOut_lease

end LibraryStore

namespace ScriptCache
open FileTree LibraryStore

variable {c : ScriptCache} {key : CacheKey} {binding : Bindings} {w w' : Workspace} {e : CacheError}
  {script : Script} {store' : LibraryStore} {id : String}

theorem uses_iff : c.uses id = true ↔ id ∈ c.referenced ∨ id ∈ c.store.leased := by
  simp [uses]

/-- Whatever is in use has been given out. -/
def UsedUp (c : ScriptCache) : Prop := ∀ id, c.uses id = true → c.store.GivenOut id

/-- What comes into use has been given out. -/
structure Follows (c c' : ScriptCache) : Prop where
  draws : c.store.Draws c'.store
  entries : ∀ e ∈ c'.entries, e ∈ c.entries ∨
    ∀ id, e.2.libraries.directory = some id → c'.store.GivenOut id

theorem UsedUp.free (usedUp : c.UsedUp) (injective : Function.Injective c.store.ids) :
    c.uses c.store.nextId = false := by
  refine Bool.eq_false_iff.2 fun used => ?_
  obtain ⟨n, before, same⟩ := usedUp _ used
  exact absurd (injective same) (Nat.ne_of_gt before)

theorem UsedUp.later {c' : ScriptCache} (usedUp : c.UsedUp) (follows : c.Follows c') : c'.UsedUp := by
  intro id used
  rcases uses_iff.1 used with referenced | leased
  · obtain ⟨e, member, named⟩ := List.mem_filterMap.1 referenced
    rcases follows.entries e member with before | new
    · exact follows.draws.givenOut (usedUp id (uses_iff.2 (.inl (List.mem_filterMap.2 ⟨e, before, named⟩))))
    · exact new id named
  · rcases follows.draws.leased id leased with before | new
    · exact follows.draws.givenOut (usedUp id (uses_iff.2 (.inr before)))
    · exact new

theorem record_draws (store : LibraryStore) (script : Script) (w : Workspace) :
    store.Draws (record store script w).1 ∧ ∀ entry, (record store script w).2.2 = .ok entry →
      ∀ id, entry.libraries.directory = some id → (record store script w).1.GivenOut id := by
  simp only [record]
  generalize w.println _ = w₁
  cases w₁.execution.libraries? with
  | none =>
    refine ⟨.refl store, ?_⟩
    rintro _ ⟨⟩ _ ⟨⟩
  | some names =>
    have draws := store.harvest_draws names w₁
    simp only
    generalize store.harvest names w₁ = result at draws
    obtain ⟨store', w₂, e | libraries⟩ := result
    · exact ⟨draws.1, by rintro _ ⟨⟩⟩
    · refine ⟨draws.1, ?_⟩
      rintro _ ⟨⟩
      exact draws.2 libraries rfl

theorem follows_miss (c : ScriptCache) (key : CacheKey) (w : Workspace) (produce : Producer ε) :
    c.Follows (c.miss key w produce).cache := by
  simp only [miss, populate]
  rcases produce w with ⟨w₁, e | script⟩
  · exact ⟨.refl _, fun _ => .inl⟩
  · obtain ⟨draws, named⟩ := record_draws c.store script w₁
    simp only
    generalize record c.store script w₁ = result at draws named
    obtain ⟨store, w₂, e | entry⟩ := result
    · exact ⟨draws, fun _ => .inl⟩
    · refine ⟨?_, fun e member => ?_⟩
      · cases stored : entry.libraries.directory with
        | none => simpa [install, stored] using draws
        | some id => simpa [install, stored] using draws.release id
      · rcases List.mem_append.1 member with before | new
        · exact .inl before
        · obtain rfl := List.mem_singleton.1 new
          refine .inr fun id (here : entry.libraries.directory = some id) => ?_
          simp only [install, here, Option.elim_some]
          exact named entry rfl id here

theorem follows_acquire (c : ScriptCache) (key : CacheKey) (binding : Bindings) (w : Workspace)
    (produce : Producer ε) : c.Follows (c.acquire key binding w produce).cache := by
  unfold acquire
  cases c.find? key with
  | none => exact c.follows_miss key w produce
  | some entry =>
    simp only
    split
    · exact ⟨.refl _, fun _ => .inl⟩
    · exact ⟨.refl _, fun e member => .inl (List.mem_filter.1 member).1⟩

end ScriptCache

namespace Depot

theorem follows_act (d : Depot) (a : DepotAct ε) : d.cache.Follows (d.act a).cache := by
  cases a with
  | acquire key binding h execution produce => exact d.cache.follows_acquire key binding _ produce
  | evict key => exact ⟨.refl _, fun e member => .inl (List.mem_filter.1 member).1⟩
  | clear => exact ⟨.refl _, nofun⟩
  | lease => exact ⟨d.cache.store.draws_lease, fun _ => .inl⟩
  | release id => exact ⟨(LibraryStore.Draws.refl _).release id, fun _ => .inl⟩
  | change | sweep => exact ⟨.refl _, fun _ => .inl⟩

/-- Whatever a depot has gone through, the id that comes next is in no use. -/
theorem next_unused (root : Path) {ids : Nat → String} (injective : Function.Injective ids)
    (files : FileTree) (acts : List (DepotAct ε)) :
    let c := ((opening root ids files).after acts).cache
    c.uses c.store.nextId = false := by
  have used : ∀ (acts : List (DepotAct ε)) (d : Depot), d.cache.store.ids = ids → d.cache.UsedUp →
      (d.after acts).cache.store.ids = ids ∧ (d.after acts).cache.UsedUp := by
    intro acts
    induction acts with
    | nil => exact fun d numbered usedUp => ⟨numbered, usedUp⟩
    | cons a acts ih =>
      intro d numbered usedUp
      have follows := d.follows_act a
      exact ih (d.act a) (follows.draws.ids.trans numbered) (usedUp.later follows)
  obtain ⟨numbered, usedUp⟩ := used acts (opening root ids files) rfl fun id used => nomatch used
  exact usedUp.free (by rwa [numbered])

end Depot

/-! ### Calls in which something fails -/

/-- A call that could not keep the script that its producer has made. Its copies are in a directory that
nothing refers to, unless the name of a library leads out of it. -/
structure ScriptCache.Unkept (c : ScriptCache) (made : Workspace) (script : Script) (a : Acquired ε) :
    Prop where
  answer : a.script = .ok script
  route : a.route = .uncached
  cache : ∃ issued, (issued = c.store.issued ∨ issued = c.store.issued + 1) ∧ a.cache = { c with
    store := { c.store with issued }
    counters := { c.counters with
      misses := c.counters.misses + 1
      populationFailures := c.counters.populationFailures + 1 } }
  prints : made.Prints a.workspace
  unused : a.cache.uses c.store.nextId = false
  reach : made.files.Sound → made.files.Begins c.store.root →
    ∃ names, made.execution.libraries? = some names ∧
      FileTree.Grows
        (fun l _ => LibraryStore.CanReach made.files (c.store.directory c.store.nextId) names l)
        made.files a.workspace.files
  inside : ∀ S, c.Ready made.files S →
    (∀ names, made.execution.libraries? = some names → ∀ name ∈ names, FileTree.PlainName name) →
    FileTree.Grows (fun l _ => made.files.WithinChild c.store.root S c.store.nextId l) made.files
        a.workspace.files ∧
      ∀ id ∈ a.cache.referenced, ∀ m, a.workspace.files.node? (S ++ id :: m) = made.files.node? (S ++ id :: m)

/-- A call that could not use the entry of its key, and has called the producer behind what was left of the
run. -/
structure ScriptCache.FellBack (c : ScriptCache) (key : CacheKey) (w w' : Workspace) (produce : Producer ε)
    (a : Acquired ε) : Prop where
  prints : w.Prints w'
  classpath : w'.execution.classpath = w.execution.classpath
  actions : w'.execution.actions = w.execution.actions
  answer : a = ⟨c.remove key, (produce w').1, .fallback, (produce w').2⟩
  find? : ∀ other, a.cache.find? other = if other = key then none else c.find? other

namespace ScriptCache
open FileTree LibraryStore

variable {c : ScriptCache} {key : CacheKey} {binding : Bindings} {w w' : Workspace} {e : CacheError}
  {script : Script} {store' : LibraryStore} {id : String}

/-- A script of which no entry can be made has declared libraries, and keeping them has failed. -/
theorem record_error {store : LibraryStore} (failed : record store script w = (store', w', .error e)) :
    ∃ names w₁ w₂, w.execution.libraries? = some names ∧ w.Prints w₁ ∧ w₁.files = w.files ∧
      store.harvest names w₁ = (store', w₂, .error e) ∧ w₂.Prints w' ∧ w'.files = w₂.files := by
  have printed := Workspace.Prints.println w "Create script cache entry"
  have files : (w.println "Create script cache entry").files = w.files := rfl
  have declared : (w.println "Create script cache entry").execution.libraries? = w.execution.libraries? := rfl
  simp only [record] at failed
  generalize w.println "Create script cache entry" = w₁ at failed printed files declared
  rw [declared] at failed
  cases found : w.execution.libraries? with
  | none =>
    rw [found] at failed
    cases (Prod.mk.inj (Prod.mk.inj failed).2).2
  | some names =>
    rw [found] at failed
    simp only at failed
    rcases harvested : store.harvest names w₁ with ⟨store₁, w₂, e₁ | libraries⟩
    · rw [harvested] at failed
      obtain ⟨rfl, rest⟩ := Prod.mk.inj failed
      obtain ⟨rfl, same⟩ := Prod.mk.inj rest
      obtain rfl := Except.error.inj same
      exact ⟨names, w₁, w₂, rfl, printed, files, harvested, .println w₂ _, rfl⟩
    · rw [harvested] at failed
      cases (Prod.mk.inj (Prod.mk.inj failed).2).2

/-- What is left of a run of which no entry could be made: copies that its libraries' names can reach. -/
theorem record_error_reach {store : LibraryStore}
    (failed : record store script w = (store', w', .error e)) :
    (∃ issued, (issued = store.issued ∨ issued = store.issued + 1) ∧
      store' = { store with issued, leased := store.leased.filter (· != store.nextId) }) ∧
    w.Prints w' ∧ ∃ names libraries w₁, w.execution.libraries? = some names ∧ w₁.files = w.files ∧
      (∀ library ∈ libraries, library.1 ∈ names) ∧
      w'.files = (copyLibraries (store.directory store.nextId) libraries w₁).1.files := by
  obtain ⟨names, w₁, w₂, declared, before, same, harvested, after, files⟩ := record_error failed
  obtain ⟨given, copied⟩ := harvest_error harvested
  have between := store.harvest_prints names w₁
  rw [harvested] at between
  exact ⟨given, (before.trans between).trans after, names, _, w₁, declared, same,
    fun library member => (Survey.mem_libraries member).1, by rw [files, copied]⟩

theorem unkept {produce : Producer ε} {made : Workspace} (free : c.uses c.store.nextId = false)
    (absent : c.find? key = none) (produced : produce w = (made, .ok script))
    (failed : record c.store script made = (store', w', .error e)) :
    c.Unkept made script (c.acquire key binding w produce) := by
  obtain ⟨⟨issued, next, rfl⟩, prints, names, libraries, w₁, declared, same, named, files⟩ :=
    record_error_reach failed
  have unleased : c.store.leased.filter (· != c.store.nextId) = c.store.leased := by
    refine List.filter_eq_self.2 fun id member => bne_iff_ne.2 ?_
    rintro rfl
    exact Bool.false_ne_true (free.symm.trans (uses_iff.2 (.inr member)))
  have call : c.acquire key binding w produce = ⟨{ c with
      store := { c.store with issued }
      counters := { c.counters with
        misses := c.counters.misses + 1
        populationFailures := c.counters.populationFailures + 1 } }, w', .uncached, .ok script⟩ := by
    simp only [acquire, absent, miss, populate, produced, failed, unleased, List.erase_cons_head]
  rw [call]
  refine ⟨rfl, rfl, ⟨issued, next, rfl⟩, prints, free, fun sound begins => ?_, fun S ready plain => ?_⟩
  · refine ⟨names, declared, ?_⟩
    rw [files, ← same]
    refine (copyLibraries_reach (same ▸ sound) (begins_join (same ▸ begins) _) libraries).imp ?_
    rintro l _ ⟨name, member, within⟩
    obtain ⟨library, inside, rfl⟩ := List.mem_map.1 member
    exact ⟨_, named library inside, within⟩
  · have grows : FileTree.Grows (fun l _ => made.files.WithinChild c.store.root S c.store.nextId l) made.files
        w'.files := by
      rw [files, ← same]
      refine copyLibraries_grows (same ▸ ready.sound) (same ▸ ready.placed) ?_ ready.word
        fun library member => plain names declared _ (named library member)
      intro m target there
      rw [same, List.append_assoc] at there
      cases there.symm.trans (ready.fresh m)
    refine ⟨grows, fun id referenced m => ?_⟩
    rcases grows.node (S ++ id :: m) with same | ⟨node, -, within, -⟩
    · exact same
    · refine absurd within (ready.placed.not_within_child ?_)
      rintro rfl
      exact Bool.false_ne_true (free.symm.trans (uses_iff.2 (.inl referenced)))

/-- An entry that cannot be used has added nothing to the classpath and the actions of the run. -/
theorem extract_error {store : LibraryStore} {entry : CacheEntry}
    (failed : extract store entry binding w = (w', .error e)) : w.Prints w' := by
  have prints := store.extract_prints entry.libraries w
  unfold extract at failed
  generalize store.extract entry.libraries w = result at failed prints
  obtain ⟨w₁, e₁ | urls⟩ := result
  · obtain ⟨rfl, -⟩ := Prod.mk.inj failed
    exact prints
  · exact nomatch (Prod.mk.inj failed).2

theorem fellBack {entry : CacheEntry} (found : c.find? key = some entry)
    (failed : extract c.store entry binding (w.println "Extract script from cache") = (w', .error e))
    (produce : Producer ε) : c.FellBack key w w' produce (c.acquire key binding w produce) := by
  have prints : w.Prints w' := (Workspace.Prints.println w _).trans (extract_error failed)
  have call : c.acquire key binding w produce =
      ⟨c.remove key, (produce w').1, .fallback, (produce w').2⟩ := by
    simp only [acquire, found, failed]
  refine ⟨prints, prints.classpath, prints.actions, call, fun other => ?_⟩
  rw [call]
  exact c.find?_remove key other

/-- A call answers with what the producer makes, unless it is a hit with a script. -/
theorem acquire_answer (c : ScriptCache) (key : CacheKey) (binding : Bindings) (w : Workspace)
    (produce : Producer ε) :
    let a := c.acquire key binding w produce
    (a.route = .hit ∧ ∃ script, a.script = .ok script) ∨
      a.route ≠ .hit ∧ ∃ w', w.Prints w' ∧ a.script = (produce w').2 := by
  unfold acquire
  cases found : c.find? key with
  | none =>
    have missed : Acquired.Of c key binding w produce (c.miss key w produce) := miss_of found produce
    cases missed with
    | founded entry script _ route produced answer =>
      exact .inr ⟨(fun hit => nomatch hit.symm.trans route), w, .refl w, answer.trans produced.symm⟩
    | uncached _ route answer =>
      exact .inr ⟨(fun hit => nomatch hit.symm.trans route), w, .refl w, answer⟩
    | hit _ _ present => exact nomatch found.symm.trans present
    | fallback _ _ present => exact nomatch found.symm.trans present
  | some entry =>
    rcases extracted : extract c.store entry binding (w.println "Extract script from cache") with
      ⟨w', e | script⟩
    · simp only [extracted]
      exact .inr ⟨nofun, w', (fellBack found extracted produce).prints, rfl⟩
    · simp only [extracted]
      exact .inl ⟨trivial, script, rfl⟩

end ScriptCache

/-- Where something goes wrong in a call, the cache is as it was, but for the entry that could not be used,
and the run has what its producer has made. No depot comes to use an id before it is given out, as
`Depot.next_unused` says. -/
theorem failures_spare_cache (c : ScriptCache) (key : CacheKey) (binding : Bindings) (w : Workspace)
    (produce : Producer ε) (free : c.uses c.store.nextId = false) :
    let a := c.acquire key binding w produce
    (∀ e, c.find? key = none → (produce w).2 = .error e →
      a = ⟨{ c with counters := { c.counters with misses := c.counters.misses + 1 } }, (produce w).1,
        .uncached, .error e⟩) ∧
    (∀ script e, c.find? key = none → (produce w).2 = .ok script →
      (ScriptCache.record c.store script (produce w).1).2.2 = .error e → c.Unkept (produce w).1 script a) ∧
    (∀ entry w' e, c.find? key = some entry →
      ScriptCache.extract c.store entry binding (w.println "Extract script from cache") = (w', .error e) →
        c.FellBack key w w' produce a) ∧
    ((a.route = .hit ∧ ∃ script, a.script = .ok script) ∨
      a.route ≠ .hit ∧ ∃ w', w.Prints w' ∧ a.script = (produce w').2) := by
  refine ⟨?produced, ?recorded, ?extracted, c.acquire_answer key binding w produce⟩
  case produced =>
    intro e absent failed
    rcases made : produce w with ⟨w₁, answer⟩
    obtain rfl : answer = .error e := by simpa [made] using failed
    simp only [ScriptCache.acquire, absent, ScriptCache.miss, ScriptCache.populate, made,
      List.erase_cons_head]
  case recorded =>
    intro script e absent produced failed
    rcases made : produce w with ⟨w₁, answer⟩
    obtain rfl : answer = .ok script := by simpa [made] using produced
    rw [made] at failed
    rcases recorded : ScriptCache.record c.store script w₁ with ⟨store', w', answer⟩
    obtain rfl : answer = .error e := by simpa [recorded] using failed
    exact ScriptCache.unkept free absent made recorded
  case extracted => exact fun entry w' e found failed => ScriptCache.fellBack found failed produce

/-- The second library of a run is missing. The copy of the first one stays where nothing refers to it. -/
theorem copy_without_its_fellow_is_not_kept :
    let ids n := String.ofList (List.replicate (n + 1) 'd')
    let files := ((((FileTree.empty.put ["s"] .directory).put ["s", "x"] .directory).put ["r"] .directory).put
      ["r", "libs"] .directory).put ["r", "libs", "a"] .directory
    let entry : CacheEntry :=
      ⟨⟨"One", ⟨#[.constant (.int 1)], 0⟩, []⟩, [.libraries ["a"]], ⟨some "x", [], [("a", ())]⟩⟩
    let c : ScriptCache :=
      ⟨[(⟨.unrestricted, .ofText "one"⟩, entry)], [], ⟨0, 1, 1, 0, 0⟩, .create ⟨"/s"⟩ ids⟩
    let key : CacheKey := ⟨.unrestricted, .ofText "two"⟩
    let made : Maker Unit := .ofTemplate ⟨"Two", ⟨#[.constant (.int 2)], 0⟩, []⟩ []
    let run := ((Execution.create 0 "job" ⟨"/r"⟩).addClasspath
      (.ofSegments ["r", "libs", "a", ""])).addClasspath (.ofSegments ["r", "libs", "gone", ""])
    let w : Workspace := ⟨files, .empty, run.addAction (.libraries ["a", "gone"])⟩
    let a := c.acquire key [] w made.produce
    c.uses c.store.nextId = false ∧
      (∃ script, (made.produce w).2 = .ok script ∧ c.Unkept (made.produce w).1 script a) ∧
      c.Ready files ["s"] ∧ a.cache.referenced = ["x"] ∧
      a.workspace.files.node? ["s", "x"] = some .directory ∧
      (a.workspace.files.node? ["s", "d", "a"]).isSome = true := by
  intro ids files entry c key made run w a
  have regular : files.Regular := by decide +kernel
  have ready : c.Ready files ["s"] := {
    sound := regular.sound
    placed := FileTree.Written.placed ⟨by decide +kernel, by decide, by decide⟩ fun m target =>
      regular.unlinked _ target
    word := Depot.freshIds_tally.word 0
    fresh := fun m => by
      have next : c.store.nextId = "d" := by decide +kernel
      simp only [next, files, FileTree.node?_put _ (List.cons_ne_nil _ _)]
      simp [FileTree.node?, FileTree.empty] }
  have free : c.uses c.store.nextId = false := by decide +kernel
  obtain ⟨-, recorded, -, -⟩ := failures_spare_cache c key [] w made.produce free
  let script := (Template.make ⟨"Two", ⟨#[.constant (.int 2)], 0⟩, []⟩ [] Heap.empty).2
  have produced : (made.produce w).2 = .ok script := rfl
  have failed : (ScriptCache.record c.store script (made.produce w).1).2.2.toOption.isSome = false := by
    decide +kernel
  rcases answer : (ScriptCache.record c.store script (made.produce w).1).2.2 with e | new
  · have unkept := recorded script e rfl produced answer
    have referenced : a.cache.referenced = ["x"] := by decide +kernel
    refine ⟨free, ⟨script, produced, unkept⟩, ready, referenced, ?_, by decide +kernel⟩
    have kept : "x" ∈ a.cache.referenced := referenced ▸ List.mem_singleton_self "x"
    refine ((unkept.inside ["s"] ready ?_).2 "x" kept []).trans rfl
    intro names declared name member
    obtain rfl : ["a", "gone"] = names := Option.some.inj declared
    have isName : ∀ name ∈ ["a", "gone"], IsName name ∧ IsClean name := by decide +kernel
    obtain ⟨isName, clean⟩ := isName name member
    intro part here
    rw [Text.split_of_not_mem clean.noSlash, List.mem_singleton] at here
    exact here ▸ isName.toIsPlain
  · rw [answer] at failed
    cases failed

/-- A library may be called `../d/a`, and `libs` may be a link to a child of the store. The copy of the
library is then made onto itself, which empties a file that a live entry refers to, before the copying fails
for want of another library. -/
theorem failed_copy_can_empty_an_entry :
    let ids n := String.ofList (List.replicate (n + 1) 'd')
    let files :=
      ((((FileTree.empty.put ["s"] .directory).put ["r"] .directory).put ["r", "libs"] .directory).put
        ["r", "libs", "a"] .directory).put ["r", "libs", "a", "f"] (.file ⟨#[1]⟩)
    let made : Maker Unit := .ofTemplate ⟨"One", ⟨#[.constant (.int 1)], 0⟩, []⟩ []
    let run := (Execution.create 0 "job" ⟨"/r"⟩).addClasspath (.ofSegments ["r", "libs", "a", ""])
    let founded := (ScriptCache.create (.create ⟨"/s"⟩ ids)).acquire ⟨.unrestricted, .ofText "one"⟩ []
      ⟨files, .empty, run.addAction (.libraries ["a"])⟩ made.produce
    let files' := ((founded.workspace.files.put ["s", "x"] .directory).put ["q"] .directory).put
      ["q", "libs"] (.link ⟨"/s/x"⟩)
    let run' := ((Execution.create 1 "job" ⟨"/q"⟩).addClasspath
      (.ofSegments ["q", "libs", "..", "d", "a", ""])).addClasspath (.ofSegments ["q", "libs", "gone", ""])
    let a := founded.cache.acquire ⟨.unrestricted, .ofText "two"⟩ []
      ⟨files', .empty, run'.addAction (.libraries ["../d/a", "gone"])⟩ made.produce
    a.route = .uncached ∧ a.cache.counters.populationFailures = 1 ∧ a.cache.referenced = ["d"] ∧
      (files'.readBytes ⟨"/s/d/a/f"⟩).toOption = some ⟨#[1]⟩ ∧
      (a.workspace.files.readBytes ⟨"/s/d/a/f"⟩).toOption = some .empty := by
  decide +kernel

end FlowScript
