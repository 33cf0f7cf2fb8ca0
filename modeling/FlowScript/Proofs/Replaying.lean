import FlowScript.Proofs.EqualKeys
import FlowScript.Proofs.Surveying

/-! What a hit adds to the record of its run. The run that has founded the entry has left the shared part
of its classpath, its libraries and one action behind, and these are what later runs get. -/
namespace FlowScript

namespace Entries

theorem mem_insert {entries : Entries Unit} {name other : String} :
    other ∈ (entries.insert name ()).names ↔ other = name ∨ other ∈ entries.names := by
  induction entries with
  | nil => simp [insert, names]
  | cons entry rest ih =>
    obtain ⟨key, ⟨⟩⟩ := entry
    simp only [names] at ih
    simp only [insert, names]
    split
    · next same => simp [same]
    · split
      · simp
      · simp only [List.map_cons, List.mem_cons, ih]
        exact or_left_comm

theorem mem_names_ofPairs {pairs : List (String × Unit)} {name : String} :
    name ∈ (ofPairs pairs).names ↔ name ∈ pairs.map Prod.fst := by
  suffices held : ∀ start : Entries Unit,
      name ∈ (pairs.foldl (fun entries pair => insert entries pair.1 pair.2) start).names ↔
        name ∈ start.names ∨ name ∈ pairs.map Prod.fst by
    exact (held []).trans (or_iff_right List.not_mem_nil)
  induction pairs with
  | nil => simp
  | cons pair rest ih =>
    obtain ⟨key, ⟨⟩⟩ := pair
    intro start
    rw [List.foldl_cons, ih, mem_insert, List.map_cons, List.mem_cons]
    exact ⟨fun h => by rcases h with (h | h) | h <;> simp [h],
      fun h => by rcases h with h | h | h <;> simp [h]⟩

end Entries

namespace LibraryStore

/-- What is kept of the classpath of a run that has declared libraries. -/
structure Keeps (e : Execution) (names : List String) (next : String) (kept : CachedLibraries) : Prop where
  housed : e.Housed names
  urls : kept.urls = e.classpath.filter (e.shares names)
  sorted : kept.names.names.Pairwise (· < ·)
  libraries : ∀ name, name ∈ kept.names.names ↔ e.PointsInto names name
  directory : kept.names.names ≠ [] → kept.directory = some next

theorem harvest_keeps {s s' : LibraryStore} {names : List String} {w w' : Workspace}
    (harvested : s.harvest names w = (s', w', .ok kept)) : Keeps w.execution names s.nextId kept := by
  unfold harvest at harvested
  have spec := Survey.ofClasspath_ok w.execution names w.execution.classpath
  generalize Survey.ofClasspath w.execution.root names w.execution.classpath = survey at harvested spec
  simp only at harvested
  split at harvested
  · exact nomatch harvested
  · exact nomatch harvested
  · next none =>
    obtain ⟨-, answer⟩ := Prod.mk.inj harvested
    obtain ⟨-, answer⟩ := Prod.mk.inj answer
    obtain rfl := Except.ok.inj answer
    obtain ⟨housed, urls, libraries⟩ := spec none
    refine ⟨housed, urls, ?_, fun name => ?_, fun more => ?_⟩
    · exact List.pairwise_map.2 (Entries.sorted_ofPairs _)
    · rw [Entries.mem_names_ofPairs, List.map_map]
      exact libraries name
    · refine if_neg fun nothing => more ?_
      rw [List.isEmpty_iff.1 nothing]
      rfl

/-- Libraries are copied from one directory to another, one after the other. Of each the parts for the
classpath are located that are there once it is copied. -/
inductive Unpacks (source target : Path) : FileTree → List String → List Url → FileTree → Prop where
  | nil : Unpacks source target files [] [] files
  | cons : files.copyTree (source.joinName name) (target.joinName name) = (files', .ok n) →
      ((resourceRoots.map (target.joinName name).joinName).filter files'.isDirectory).map Url.ofDirectory? =
        found.map some →
      Unpacks source target files' names urls files'' →
        Unpacks source target files (name :: names) (found ++ urls) files''

theorem mapM_directoryUrl {paths : List Path} (located : paths.mapM directoryUrl = .ok urls) :
    paths.map Url.ofDirectory? = urls.map some := by
  induction paths generalizing urls with
  | nil =>
    obtain rfl := Except.ok.inj located
    rfl
  | cons path paths ih =>
    rw [List.mapM_cons] at located
    rcases first : Url.ofDirectory? path with _ | url
    · rw [directoryUrl, first] at located
      exact nomatch located
    · rcases rest : paths.mapM directoryUrl with e | more
      · rw [directoryUrl, first, rest] at located
        exact nomatch located
      · rw [directoryUrl, first, rest] at located
        obtain rfl := Except.ok.inj located
        rw [List.map_cons, first, ih rest, List.map_cons]

theorem extractFrom_unpacks {source : Path} {names : List String} {urls all : List Url} {w w' : Workspace}
    (extracted : extractFrom source names urls w = (w', .ok all)) :
    ∃ found, all = urls ++ found ∧ Unpacks source w.execution.libraryRoot w.files names found w'.files := by
  induction names generalizing urls w with
  | nil =>
    obtain ⟨rfl, same⟩ := Prod.mk.inj extracted
    obtain rfl := Except.ok.inj same
    exact ⟨[], (List.append_nil _).symm, .nil⟩
  | cons name names ih =>
    simp only [extractFrom_cons] at extracted
    split at extracted
    · exact nomatch (Prod.mk.inj extracted).2
    · next files n copied =>
      split at extracted
      · exact nomatch (Prod.mk.inj extracted).2
      · next found located =>
        obtain ⟨more, rfl, unpacks⟩ := ih extracted
        exact ⟨found ++ more, List.append_assoc _ _ _, .cons copied (mapM_directoryUrl located) unpacks⟩

/-- What is handed out is what was kept, and the libraries are unpacked where there are any. -/
theorem extract_unpacks {s : LibraryStore} {kept : CachedLibraries} {e : Execution}
    {names : List String} {next : String}
    {w w' : Workspace} (keeps : Keeps e names next kept) (extracted : s.extract kept w = (w', .ok urls)) :
    ∃ found, urls = kept.urls ++ found ∧
      Unpacks (s.directory next) w.execution.libraryRoot w.files kept.names.names found w'.files := by
  unfold extract at extracted
  cases named : kept.directory with
  | none =>
    have none : kept.names.names = [] := by
      by_contra some
      exact nomatch named.symm.trans (keeps.directory some)
    rw [named] at extracted
    obtain ⟨rfl, same⟩ := Prod.mk.inj extracted
    obtain rfl := Except.ok.inj same
    exact ⟨[], (List.append_nil _).symm, none ▸ .nil⟩
  | some id =>
    simp only [named] at extracted
    split at extracted
    · by_cases none : kept.names.names = []
      · rw [none] at extracted ⊢
        obtain ⟨rfl, same⟩ := Prod.mk.inj extracted
        obtain rfl := Except.ok.inj same
        exact ⟨[], (List.append_nil _).symm, .nil⟩
      · obtain rfl := Option.some.inj (named.symm.trans (keeps.directory none))
        exact extractFrom_unpacks extracted
    · exact nomatch (Prod.mk.inj extracted).2

end LibraryStore

/-! ### What is replayed -/

namespace Execution

theorem addClasspaths (urls : List Url) (e : Execution) :
    urls.foldl addClasspath e = { e with classpath := e.classpath ++ urls } := by
  induction urls generalizing e with
  | nil => simp
  | cons url urls ih => simp [ih, addClasspath]

theorem addActions (actions : List RunAction) (e : Execution) :
    actions.foldl addAction e = { e with actions := e.actions ++ actions } := by
  induction actions generalizing e with
  | nil => simp
  | cons action actions ih => simp [ih, addAction]

end Execution

/-- The second workspace has the record of the first one, and behind it the shared part of a classpath, the
parts of the libraries in which that classpath lies, unpacked from a directory, and these actions. -/
structure Replays (e : Execution) (names : List String) (actions : List RunAction) (source : Path)
    (w w' : Workspace) :
    Prop where
  housed : e.Housed names
  classpath : ∃ libraries found, libraries.Pairwise (· < ·) ∧
    (∀ name, name ∈ libraries ↔ e.PointsInto names name) ∧
    LibraryStore.Unpacks source w.execution.libraryRoot w.files libraries found w'.files ∧
      w'.execution.classpath = w.execution.classpath ++ e.classpath.filter (e.shares names) ++ found
  actions : w'.execution.actions = w.execution.actions ++ actions

namespace ScriptCache
variable {c : ScriptCache} {key : CacheKey} {binding : Bindings} {w w' : Workspace} {produce : Producer ε}
  {entry : CacheEntry} {store store' : LibraryStore} {script : Script}

/-- What an entry keeps of the record of a run. -/
def Recorded (e : Execution) (next : String) (entry : CacheEntry) : Prop :=
  match e.libraries? with
  | none => entry.actions = [] ∧ entry.libraries = .empty
  | some names => entry.actions = [.libraries names] ∧ LibraryStore.Keeps e names next entry.libraries

theorem record_recorded (recorded : record store script w = (store', w', .ok entry)) :
    Recorded w.execution store.nextId entry := by
  have same : (w.println "Create script cache entry").execution.libraries? = w.execution.libraries? := rfl
  cases declared : w.execution.libraries? with
  | none =>
    simp only [record, same, declared] at recorded
    obtain ⟨-, answer⟩ := Prod.mk.inj recorded
    obtain ⟨-, answer⟩ := Prod.mk.inj answer
    obtain rfl := Except.ok.inj answer
    simp [Recorded, declared]
  | some names =>
    simp only [record, same, declared] at recorded
    rcases harvested :
      store.harvest names (w.println "Create script cache entry") with ⟨store₁, w₁, e | libraries⟩
    · rw [harvested] at recorded
      cases (Prod.mk.inj (Prod.mk.inj recorded).2).2
    · rw [harvested] at recorded
      obtain ⟨-, answer⟩ := Prod.mk.inj recorded
      obtain ⟨-, answer⟩ := Prod.mk.inj answer
      obtain rfl := Except.ok.inj answer
      obtain ⟨housed, urls, sorted, libraries, directory⟩ := LibraryStore.harvest_keeps harvested
      rw [Recorded, declared]
      exact ⟨rfl, housed, urls, sorted, libraries, directory⟩

/-- A call that founds an entry leaves the record of its run in it. -/
theorem acquire_recorded (founded : (c.acquire key binding w produce).route = .founded) :
    ∃ entry, (c.acquire key binding w produce).cache.find? key = some entry ∧
      Recorded (produce w).1.execution c.store.nextId entry := by
  unfold acquire at founded ⊢
  cases found : c.find? key with
  | some entry =>
    simp only [found] at founded
    split at founded <;> cases founded
  | none =>
    simp only [found, miss, populate] at founded ⊢
    rcases made : produce w with ⟨w₁, e | script⟩
    · simp only [made] at founded
      cases founded
    · simp only [made] at founded ⊢
      rcases recorded : record c.store script w₁ with ⟨store, w₂, e | entry⟩
      · simp only [recorded] at founded
        cases founded
      · exact ⟨entry, (find?_install _ found entry key).trans (if_pos rfl), record_recorded recorded⟩

/-- A hit replays what is in the entry. -/
theorem acquire_extracted (hit : (c.acquire key binding w produce).route = .hit) :
    let w' := (c.acquire key binding w produce).workspace
    ∃ entry urls w₁, c.find? key = some entry ∧
      c.store.extract entry.libraries (w.println "Extract script from cache") = (w₁, .ok urls) ∧
      w'.files = w₁.files ∧ w'.execution.classpath = w.execution.classpath ++ urls ∧
      w'.execution.actions = w.execution.actions ++ entry.actions := by
  unfold acquire at hit ⊢
  cases found : c.find? key with
  | none =>
    simp only [found, miss, populate] at hit
    split at hit
    · cases hit
    · split at hit <;> cases hit
  | some entry =>
    simp only [found, extract] at hit ⊢
    have prints := c.store.extract_prints entry.libraries (w.println "Extract script from cache")
    rcases extracted :
      c.store.extract entry.libraries (w.println "Extract script from cache") with ⟨w₁, e | urls⟩
    · simp only [extracted] at hit
      cases hit
    · rw [extracted] at prints
      simp only [Execution.addClasspaths, Execution.addActions]
      refine ⟨entry, urls, w₁, rfl, extracted, rfl, ?_, ?_⟩
      · rw [prints.classpath]
        rfl
      · rw [prints.actions]
        rfl

end ScriptCache

/-! ### Actions on libraries -/

/-- The names of an action on libraries. -/
def RunAction.names : RunAction → List String
  | .libraries names => names
  | .note _ => []

namespace Execution
variable {e : Execution} {names : List String}

/-- The names of all actions on libraries. -/
def declared (e : Execution) : List String := e.actions.flatMap RunAction.names

/-- The actions on libraries. -/
def declarations (e : Execution) : List RunAction := e.actions.filter RunAction.isLibraries

theorem declared_eq (e : Execution) : e.declared = e.declarations.flatMap RunAction.names := by
  unfold declared declarations
  induction e.actions with
  | nil => rfl
  | cons action actions ih =>
    cases action <;> simp [RunAction.names, List.filter_cons, RunAction.isLibraries, ih]

/-- The first action on libraries is the one that counts. -/
theorem libraries?_eq (e : Execution) : e.libraries? = e.declarations.head?.map RunAction.names := by
  unfold libraries? declarations
  induction e.actions with
  | nil => rfl
  | cons action actions ih =>
    cases action <;> simp [RunAction.names, List.filter_cons, RunAction.isLibraries, ih]

theorem libraries?_eq_none : e.libraries? = none ↔ e.declarations = [] := by
  rw [libraries?_eq, Option.map_eq_none_iff, List.head?_eq_none_iff]

theorem libraries?_eq_some (declared : e.libraries? = some names) :
    ∃ rest, e.declarations = .libraries names :: rest := by
  rw [libraries?_eq, Option.map_eq_some_iff] at declared
  obtain ⟨action, first, rfl⟩ := declared
  obtain ⟨rest, whole⟩ := List.head?_eq_some_iff.1 first
  have isLibraries : action.isLibraries = true :=
    List.of_mem_filter (whole ▸ List.mem_cons_self : action ∈ e.declarations)
  cases action with
  | libraries names => exact ⟨rest, whole⟩
  | note => exact nomatch isLibraries

/-- Where no libraries are declared, all that is housed is shared. -/
theorem Housed.shared_of_nil (housed : e.Housed []) : e.classpath.filter (e.shares []) = e.classpath := by
  refine List.filter_eq_self.2 fun url member => ?_
  obtain ⟨_ | ⟨name, path⟩, placed⟩ := housed url member
  · rw [shares, placed]
  · cases (Placement.classify_library placed).1

end Execution

/-- What a hit adds to its run comes from the first declaration of the founding run; the classpath of a run
that has declared nothing is not looked at. All that is on record is replayed exactly if the founding run has
declared libraries once, or has neither declared any nor put anything on its classpath. -/
theorem hit_replays_founding {ε ε' : Type} (c c' : ScriptCache) (key : CacheKey)
    (binding binding' : Bindings) (w w' : Workspace) (produce : Producer ε) (produce' : Producer ε') :
    let founded := c.acquire key binding w produce
    let hit := c'.acquire key binding' w' produce'
    let e := (produce w).1.execution
    let source := c.store.directory c.store.nextId
    founded.route = .founded → c'.find? key = founded.cache.find? key →
    c'.store.root = c.store.root → hit.route = .hit →
    (∀ names, e.libraries? = some names → Replays e names [.libraries names] source w' hit.workspace) ∧
    (e.libraries? = none → hit.workspace.files = w'.files ∧
      hit.workspace.execution.classpath = w'.execution.classpath ∧
        hit.workspace.execution.actions = w'.execution.actions) ∧
    (Replays e e.declared e.declarations source w' hit.workspace ↔
      e.declarations.length = 1 ∨ e.declarations = [] ∧ e.classpath = []) := by
  intro founded hit e source route same root again
  obtain ⟨entry, kept, recorded⟩ := ScriptCache.acquire_recorded route
  obtain ⟨entry', urls, w₁, found, extracted, files, classpath, actions⟩ :=
    ScriptCache.acquire_extracted again
  obtain rfl := Option.some.inj ((found.symm.trans same).trans kept)
  unfold ScriptCache.Recorded at recorded
  cases declared : e.libraries? with
  | none =>
    simp only [e, declared] at recorded
    obtain ⟨noActions, noLibraries⟩ := recorded
    rw [noLibraries] at extracted
    obtain ⟨rfl, nothing⟩ := Prod.mk.inj extracted
    obtain rfl := Except.ok.inj nothing
    have declarations := Execution.libraries?_eq_none.1 declared
    have unchanged : hit.workspace.files = w'.files ∧
        hit.workspace.execution.classpath = w'.execution.classpath ∧
        hit.workspace.execution.actions = w'.execution.actions :=
      ⟨files, classpath.trans (List.append_nil _), actions.trans (by rw [noActions, List.append_nil])⟩
    refine ⟨nofun, fun _ => unchanged, ?_⟩
    rw [Execution.declared_eq, declarations, List.flatMap_nil]
    constructor
    · intro replays
      obtain ⟨libraries, found, -, -, -, more⟩ := replays.classpath
      rw [replays.housed.shared_of_nil, unchanged.2.1, List.append_assoc, List.self_eq_append_right] at more
      exact .inr ⟨rfl, (List.append_eq_nil_iff.1 more).1⟩
    · intro few
      have none : e.classpath = [] := (few.resolve_left (by simp)).2
      refine ⟨by simp [Execution.Housed, none], ⟨[], [], .nil, ?_, ?_, ?_⟩, ?_⟩
      · simp [Execution.PointsInto, none]
      · rw [unchanged.1]
        exact .nil
      · simp [unchanged.2.1, none]
      · simp [unchanged.2.2]
  | some names =>
    simp only [e, declared] at recorded
    obtain ⟨action, keeps⟩ := recorded
    obtain ⟨located, rfl, unpacks⟩ := LibraryStore.extract_unpacks keeps extracted
    have source_eq : c'.store.directory c.store.nextId = source := by
      rw [LibraryStore.directory, root]
      rfl
    have replays : Replays e names [.libraries names] source w' hit.workspace := by
      refine ⟨keeps.housed, ⟨_, located, keeps.sorted, keeps.libraries, ?_, ?_⟩, ?_⟩
      · rw [← source_eq, files]
        exact unpacks
      · rw [classpath, keeps.urls, List.append_assoc]
      · rw [actions, action]
    refine ⟨fun _ same => Option.some.inj same ▸ replays, nofun, ?_⟩
    obtain ⟨rest, declarations⟩ := Execution.libraries?_eq_some declared
    constructor
    · intro all
      have same := List.append_cancel_left (all.actions.symm.trans replays.actions)
      exact .inl (by rw [same]; rfl)
    · intro few
      obtain rfl : rest = [] := by simpa [declarations] using few
      rw [Execution.declared_eq, declarations]
      simpa [RunAction.names] using replays

/-- A run has a shared location and one of its libraries on its classpath; the next one gets the shared one
and the part of its own copy. -/
theorem next_run_gets_copy :
    let jar : Url :=
      ⟨"https", some ⟨"", some (.name "repo.example"), none⟩, .segments ["lib.jar"], none, none⟩
    let files :=
      ((((FileTree.empty.put ["q"] .directory).put ["r"] .directory).put ["r", "libs"] .directory).put
      ["r", "libs", "a"] .directory).put ["r", "libs", "a", "vars"] .directory
    let empty := ScriptCache.create (.create ⟨"/s"⟩ toString)
    let key : CacheKey := ⟨.unrestricted, .ofText "one"⟩
    let made : Maker Unit := .ofTemplate ⟨"One", ⟨#[.constant (.int 1)], 0⟩, []⟩ []
    let e := ((Execution.create 0 "job" ⟨"/r"⟩).addClasspath
      (.ofSegments ["r", "libs", "a", "vars", ""])).addClasspath jar
    let e := (e.addAction (.note "start")).addAction (.libraries ["a"])
    let founded := empty.acquire key [] ⟨files, .empty, e⟩ made.produce
    let w : Workspace := ⟨founded.workspace.files, .empty, .create 1 "job" ⟨"/q"⟩⟩
    let hit := founded.cache.acquire key [] w made.produce
    Replays e ["a"] [.libraries ["a"]] ⟨"/s/0"⟩ w hit.workspace ∧
      hit.workspace.execution.classpath = [jar, .ofSegments ["q", "libs", "a", "vars", ""]] := by
  intro jar files empty key made e₀ e founded w hit
  have replays :=
    hit_replays_founding empty founded.cache key [] [] ⟨files, .empty, e⟩ w made.produce made.produce
    (by decide +kernel) rfl (by decide +kernel) (by decide +kernel)
  have source : empty.store.directory empty.store.nextId = ⟨"/s/0"⟩ := by decide +kernel
  exact ⟨source ▸ replays.1 ["a"] rfl, by decide +kernel⟩

/-- A run that declares nothing leaves nothing behind, be it shared or its own; of a run that declares
libraries twice, the second action is not kept. -/
theorem hit_can_miss_what_was_there :
    let jar : Url :=
      ⟨"https", some ⟨"", some (.name "repo.example"), none⟩, .segments ["lib.jar"], none, none⟩
    let empty := ScriptCache.create (.create ⟨"/s"⟩ toString)
    let key : CacheKey := ⟨.unrestricted, .ofText "one"⟩
    let made : Maker Unit := .ofTemplate ⟨"One", ⟨#[.constant (.int 1)], 0⟩, []⟩ []
    let run : Execution := .create 0 "job" ⟨"/r"⟩
    let founded (e : Execution) := empty.acquire key [] ⟨.empty, .empty, e⟩ made.produce
    let hit (e : Execution) :=
      (founded e).cache.acquire key [] ⟨.empty, .empty, .create 1 "job" ⟨"/q"⟩⟩ made.produce
    let sharing := run.addClasspath jar
    let keeping := run.addClasspath (.ofSegments ["r", "lib.jar"])
    let declaring := (run.addAction (.libraries ["a"])).addAction (.libraries ["b"])
    (hit sharing).route = .hit ∧ (hit sharing).workspace.execution.classpath = [] ∧
      (founded keeping).route = .founded ∧ (hit declaring).route = .hit ∧
      (hit declaring).workspace.execution.actions = [.libraries ["a"]] := by
  decide +kernel

end FlowScript
