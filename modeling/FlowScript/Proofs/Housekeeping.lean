import FlowScript.Loader
import FlowScript.Proofs.StorePlace
import FlowScript.Proofs.Sweeping

/-! What housekeeping deletes. A sweep, and the purge that takes its place where caching is disabled, delete
nothing but what the path of the store leads to. Which places that can be is decided by the settings. -/
namespace FlowScript

namespace FileTree

variable {t t' t'' : FileTree} {gone gone' : Location → Prop} {d e l place R : Location} {left parts : List String}
  {followLast : Bool} {p q : Path} {node : FileNode}

/-! ### What a change clears -/

/-- Some of these locations have been cleared, and all else is as it was. -/
structure Clears (gone : Location → Prop) (t t' : FileTree) : Prop where
  working : t'.workingDirectory = t.workingDirectory
  node : ∀ l, t'.node? l = t.node? l ∨ gone l ∧ t'.node? l = none

theorem Clears.refl (gone : Location → Prop) (t : FileTree) : Clears gone t t := ⟨rfl, fun _ => .inl rfl⟩

theorem Clears.imp (clears : Clears gone t t') (more : ∀ l, gone l → gone' l) : Clears gone' t t' :=
  ⟨clears.working, fun l => (clears.node l).imp_right fun cleared => ⟨more l cleared.1, cleared.2⟩⟩

theorem Clears.trans (first : Clears gone t t') (second : Clears gone t' t'') : Clears gone t t'' where
  working := second.working.trans first.working
  node l := by
    rcases second.node l with same | cleared
    · rw [same]
      exact first.node l
    · exact .inr cleared

theorem clears_remove (t : FileTree) (place : Location) : Clears (place <+: ·) t (t.remove place) where
  working := rfl
  node l := by
    by_cases root : place = []
    · subst root
      by_cases top : l = []
      · subst top
        exact .inl (by simp)
      · exact .inr ⟨List.nil_prefix, by simp [node?, remove, top]⟩
    · rw [node?_remove t root]
      split
      · next inside => exact .inr ⟨inside, rfl⟩
      · exact .inl rfl

theorem clears_clear (t : FileTree) (place : Location) : Clears (place <+: ·) t (t.clear place) where
  working := rfl
  node l := by
    rw [node?_clear]
    split
    · next inside => exact .inr ⟨inside.1, rfl⟩
    · exact .inl rfl

/-- The path is found to lead to a place where something is. A link at its end is followed or not. -/
def Finds (t : FileTree) (p : Path) (place : Location) : Prop :=
  ∃ followLast node, t.resolve followLast p = .ok (.taken place node)

/-- What is found where something has been cleared was found there before. -/
theorem Clears.resolve (clears : Clears gone t t') (found : t'.resolve followLast p = .ok (.taken place node)) :
    ∃ node', t.resolve followLast p = .ok (.taken place node') := by
  obtain ⟨clean, some, walked⟩ := resolve_eq_ok.1 found
  have stays : ∀ l, t'.Passes (t'.start p) p.parts l → Stays (t'.node? l) (t.node? l) := by
    intro l _
    rcases clears.node l with same | ⟨-, none⟩
    · rw [same]
      exact .refl _
    · rw [none]
      trivial
  obtain ⟨node', walked', -⟩ := walk_stays stays walked
  have start : t'.start p = t.start p := by simp only [FileTree.start, clears.working]
  exact ⟨node', resolve_eq_ok.2 ⟨clean, some, start ▸ walked'⟩⟩

/-- A removal clears what is found, with all below it. -/
theorem removeTree_clears (t : FileTree) (p : Path) :
    Clears (fun l => ∃ place node, t.resolve false p = .ok (.taken place node) ∧ place <+: l) t
      (t.removeTree p).1 := by
  unfold removeTree
  split
  · exact .refl _ t
  · exact .refl _ t
  · exact .refl _ t
  · next place found =>
    split
    · exact (clears_clear t place).imp fun l inside => ⟨place, _, found, inside⟩
    · exact (clears_remove t place).imp fun l inside => ⟨place, _, found, inside⟩
  · next place node _ found =>
    exact (clears_remove t place).imp fun l inside => ⟨place, node, found, inside⟩

/-! ### Where paths behind a directory lead -/

/-- There are no links on the way. -/
def Straight (t : FileTree) (d : Location) (parts : List String) : Prop :=
  ∀ l, t.Passes d parts l → ∀ target, t.node? l ≠ some (.link target)

theorem Straight.comes (straight : t.Straight d parts) (comes : t.Comes (d, parts) (e, left)) :
    ∃ ahead, parts = ahead ++ left ∧ e = Path.lands d ahead := by
  generalize reached : (e, left) = x at comes
  induction comes generalizing e left with
  | refl =>
    obtain ⟨rfl, rfl⟩ := Prod.mk.inj reached
    exact ⟨[], rfl, rfl⟩
  | @tail y _ comes moves ih =>
    subst reached
    obtain ⟨e₁, left₁⟩ := y
    obtain ⟨ahead, rfl, rfl⟩ := ih rfl
    cases moves with
    | @skip part _ _ blank =>
      exact ⟨ahead ++ [part], by simp, by rw [Path.lands_append, Path.lands_blank blank, Path.lands_nil]⟩
    | up => exact ⟨ahead ++ [".."], by simp, by rw [Path.lands_append, Path.lands_up, Path.lands_nil]⟩
    | @down part _ _ isName =>
      exact ⟨ahead ++ [part], by simp,
        by rw [Path.lands_append, Path.lands_plain isName.toIsPlain, Path.lands_nil]⟩
    | @link part _ target _ isName there =>
      exact absurd there (straight _ ⟨_, _, comes, .inr ⟨part, _, rfl, isName, rfl⟩⟩ target)

/-- What is found behind a path is found from where that path leads to. -/
theorem Finds.behind (relative : q.isAbsolute = false) (found : t.Finds (p.join q) place) :
    ∃ R, t.Leads (t.start p) p.parts R ∧ (t.Straight R q.parts → place = Path.lands R q.parts) := by
  obtain ⟨followLast, node, found⟩ := found
  obtain ⟨-, -, walked⟩ := resolve_eq_ok.1 found
  rw [start, Path.isAbsolute_join relative, Path.parts_join relative] at walked
  obtain ⟨e, left, gets, arrives⟩ := walk_finds walked
  obtain ⟨R, leads, comes⟩ : ∃ R, t.Leads (t.start p) p.trunk R ∧ t.Comes (R, q.parts) (e, left) := by
    rcases gets.comes.of_append with ⟨ahead, rfl, comes⟩ | behind
    · -- Something is found with the last part only, and that is one of those behind.
      obtain rfl : ahead = [] := by
        have some : q.parts ≠ [] := Text.split_ne_nil _ _
        generalize q.parts = parts at some arrives
        cases ahead with
        | nil => rfl
        | cons part ahead =>
          generalize here : (part :: ahead) ++ parts = left at arrives
          cases arrives <;> simp_all
      exact ⟨e, comes, .refl⟩
    · exact behind
  refine ⟨R, leads_trunk.1 leads, fun straight => ?_⟩
  obtain ⟨ahead, parts, rfl⟩ := straight.comes comes
  rw [parts]
  cases arrives with
  | directory => rw [List.append_nil]
  | file isName | link _ isName =>
    rw [Path.lands_append, Path.lands_plain isName.toIsPlain, Path.lands_nil]

end FileTree

/-! ### Sweeps and purges -/

section
open FileTree

variable {files t : FileTree} {gone : Location → Prop}

/-- Sweeping children clears what their paths led to before. -/
theorem ScriptCache.sweepChildren_clears (c : ScriptCache) {ids : List String}
    (children : ∀ id ∈ ids, ∀ place node,
      files.resolve false (c.store.directory id) = .ok (.taken place node) → ∀ l, place <+: l → gone l)
    (clears : Clears gone files t) (report : SweepReport) :
    Clears gone files (c.sweepChildren ids report t).1 := by
  induction ids generalizing t report with
  | nil => exact clears
  | cons id ids ih =>
    obtain ⟨first, others⟩ := List.forall_mem_cons.1 children
    have removed : Clears gone files (t.removeTree (c.store.directory id)).1 := by
      refine clears.trans ((removeTree_clears t _).imp fun l => ?_)
      rintro ⟨place, node, found, inside⟩
      obtain ⟨node', found⟩ := clears.resolve found
      exact first place node' found l inside
    cases used : c.uses id with
    | true =>
      rw [sweepChildren_kept used]
      exact ih others clears _
    | false =>
      rcases attempt : t.removeTree (c.store.directory id) with ⟨files', fault | done⟩
      · rw [sweepChildren_stopped used attempt]
        rwa [attempt] at removed
      · rw [sweepChildren_deleted used attempt]
        rw [attempt] at removed
        exact ih others removed _

theorem LibraryStore.purge_files (s : LibraryStore) (files : FileTree) :
    (s.purge files).1 = (files.removeTree s.root).1 := by
  unfold purge
  split <;> simp [*]

/-- Housekeeping clears nothing but what the path of the store leads to. -/
theorem ScriptLoader.sweep_clears (l : ScriptLoader) (sound : files.Sound) :
    Clears (fun m => ∃ place, files.Finds l.store.root place ∧ place <+: m) files (l.sweep files).1 := by
  unfold sweep
  split
  · unfold ScriptCache.sweep
    split
    · exact .refl _ files
    · next ids listed =>
      refine l.cache.sweepChildren_clears (fun id member place node found m inside => ?_) (.refl _ files) _
      -- There are children only in a directory that is found, and each is removed from there.
      rcases LibraryStore.children_spec listed with ⟨S, there, rfl⟩ | ⟨-, rfl⟩
      · obtain ⟨node', child⟩ := mem_names.1 member
        have isName := sound.isName child id (by simp)
        rw [LibraryStore.directory, (reaches_of_directory? there).resolve_child isName.1 isName.2, child] at found
        obtain ⟨rfl, -⟩ := Place.taken.inj (Except.ok.inj found)
        exact ⟨S, ⟨true, .directory, directory?_eq_some.1 there⟩, (List.prefix_append S [id]).trans inside⟩
      · cases member
  · have purged : Clears _ files (l.store.purge files).1 :=
      l.store.purge_files files ▸ removeTree_clears files l.store.root
    have cleared : Clears (fun m => ∃ place, files.Finds l.store.root place ∧ place <+: m) files
        (l.store.purge files).1 := by
      refine purged.imp fun m => ?_
      rintro ⟨place, node, found, inside⟩
      exact ⟨place, ⟨false, node, found⟩, inside⟩
    split
    · next done => rwa [done] at cleared
    · next failed => rwa [failed] at cleared

end

/-! ### Loaders in use -/

namespace LibraryStore

theorem harvest_root (s : LibraryStore) (names : List String) (w : Workspace) :
    (s.harvest names w).1.root = s.root := by
  have leased : (if (Survey.ofClasspath w.execution.root names w.execution.classpath).libraries.isEmpty then s
      else s.lease).root = s.root := by
    split <;> rfl
  simp only [harvest]
  split
  all_goals exact leased

end LibraryStore

namespace ScriptCache

theorem record_root (store : LibraryStore) (script : Script) (w : Workspace) :
    (record store script w).1.root = store.root := by
  simp only [record]
  split
  · rfl
  · next names _ =>
    have same := store.harvest_root names (w.println "Create script cache entry")
    split
    · next made => rwa [made] at same
    · next made => rwa [made] at same

theorem install_root (c : ScriptCache) (key : CacheKey) (entry : CacheEntry) :
    (c.install key entry).store.root = c.store.root := by
  unfold install
  cases entry.libraries.directory <;> rfl

theorem acquire_root (c : ScriptCache) (key : CacheKey) (binding : Bindings) (w : Workspace)
    (produce : Producer ε) : (c.acquire key binding w produce).cache.store.root = c.store.root := by
  unfold acquire
  split
  · simp only [miss, populate]
    split
    · rfl
    · next w₁ script _ =>
      have same := record_root c.store script w₁
      split
      · next made => rwa [made] at same
      · next made =>
        rw [made] at same
        rw [install_root]
        exact same
  · split <;> rfl

end ScriptCache

/-- What is asked of a loader. Sweeps leave the loader as it is. -/
inductive LoaderAct (ε : Type) where
  | load (key : CacheKey) (binding : Bindings) (workspace : Workspace) (produce : Producer ε)
  | evict (key : CacheKey)
  | startJanitor
  | shutdown

namespace ScriptLoader

def act (l : ScriptLoader) : LoaderAct ε → ScriptLoader
  | .load key binding w produce => (l.load key binding w produce).1
  | .evict key => { l with cache := (l.cache.evict key).1 }
  | .startJanitor => l.startJanitor
  | .shutdown => l.shutdown

def after (l : ScriptLoader) (acts : List (LoaderAct ε)) : ScriptLoader := acts.foldl act l

theorem act_root (l : ScriptLoader) (a : LoaderAct ε) : (l.act a).store.root = l.store.root := by
  cases a with
  | load key binding w produce =>
    simp only [act, load]
    split
    · exact l.cache.acquire_root key binding w produce
    · rfl
  | evict | startJanitor => rfl
  | shutdown =>
    simp only [act, shutdown, store]
    split <;> rfl

theorem after_root (l : ScriptLoader) (acts : List (LoaderAct ε)) :
    (l.after acts).store.root = l.store.root := by
  induction acts generalizing l with
  | nil => rfl
  | cons a acts ih => exact (ih (l.act a)).trans (l.act_root a)

/-- Periodic sweeps do what one sweep does, or nothing. -/
theorem wait_cases (l : ScriptLoader) (time : Nat) (files : FileTree) :
    l.wait time files = (l.sweep files).1 ∨ l.wait time files = files := by
  unfold wait
  split
  · exact .inl rfl
  · exact .inr rfl

end ScriptLoader

/-! ### What the settings allow -/

namespace CacheConfig
open FileTree

variable {temporary : Path} {c given : CacheConfig} {environment : Entries String} {document : Option String}
  {files : FileTree} {l R place : Location}

/-- The root directory is at the location, if it is there. -/
def RootAt (c : CacheConfig) (files : FileTree) (R : Location) : Prop :=
  files.Leads (files.start c.rootDirectory) c.rootDirectory.parts R

/-- Not below the root directory, that directory itself, or what the runs have in it. -/
def OffLimits (c : CacheConfig) (files : FileTree) (l : Location) : Prop :=
  ∀ R, c.RootAt files R → ¬R <+: l ∨ l = R ∨ R ++ ["executions"] <+: l

/-- What sweeps, purges and periodic sweeps do to the files is to clear some of these locations. It does not
matter what has been asked of the loader before. -/
def HousekeepingClears (c : CacheConfig) (files : FileTree) (gone : Location → Prop) : Prop :=
  ∀ (ε : Type) (ids : Nat → String) (acts : List (LoaderAct ε)),
    let loader := (ScriptLoader.create c ids).after acts
    Clears gone files (loader.sweep files).1 ∧ ∀ time, Clears gone files (loader.wait time files)

theorem housekeeping_clears (c : CacheConfig) (sound : files.Sound) :
    c.HousekeepingClears files fun l => ∃ place, files.Finds c.libraryRoot place ∧ place <+: l := by
  intro ε ids acts loader
  have root : loader.store.root = c.libraryRoot := (ScriptLoader.create c ids).after_root acts
  have swept := loader.sweep_clears sound
  rw [root] at swept
  refine ⟨swept, fun time => ?_⟩
  rcases loader.wait_cases time files with same | same
  · rw [same]
    exact swept
  · rw [same]
    exact .refl _ files

/-- The store of a name that fits is where its names lead from the root directory. -/
theorem Fits.found (fits : Fits c.storeName) (found : files.Finds c.libraryRoot place) :
    ∃ R, c.RootAt files R ∧
      (files.Straight R (Path.mk c.storeName).parts → place = R ++ innerNames c.storeName) := by
  obtain ⟨R, leads, behind⟩ := found.behind fits.inward.1
  exact ⟨R, leads, fun straight => (behind straight).trans (Path.lands_below fits.inward.2 R)⟩

/-- What is below the names that lead to the store is not off limits. -/
theorem Fits.allowed (fits : Fits name) (apart : (innerNames name).head? ≠ some "executions")
    (at_root : c.RootAt files R) (inside : R ++ innerNames name <+: l) : ¬c.OffLimits files l := by
  intro off
  obtain ⟨first, rest, names⟩ := List.exists_cons_of_ne_nil fits.nonempty
  rw [names] at apart inside
  rcases off R at_root with outside | rfl | runs
  · exact outside ((List.prefix_append R _).trans inside)
  · have longer := inside.length_le
    simp at longer
  · obtain ⟨more, rfl⟩ := inside
    rw [List.append_assoc, List.prefix_append_right_inj] at runs
    exact apart (congrArg some (List.cons_prefix_cons.1 runs).1.symm)

/-- Housekeeping changes nothing that is off limits, as long as no link is on the way from the root directory to
the store. -/
def Harmless (c : CacheConfig) : Prop :=
  ∀ files : FileTree, files.Sound → (∀ R, c.RootAt files R → files.Straight R (Path.mk c.storeName).parts) →
    c.HousekeepingClears files fun l => ¬c.OffLimits files l

theorem Fits.harmless (fits : Fits c.storeName) (apart : (innerNames c.storeName).head? ≠ some "executions") :
    c.Harmless := by
  intro files sound straight
  have allowed : ∀ l, (∃ place, files.Finds c.libraryRoot place ∧ place <+: l) → ¬c.OffLimits files l := by
    rintro l ⟨place, found, inside⟩
    obtain ⟨R, at_root, behind⟩ := fits.found found
    exact fits.allowed apart at_root (behind (straight R at_root) ▸ inside)
  intro ε ids acts loader
  obtain ⟨swept, waited⟩ := c.housekeeping_clears sound ε ids acts
  exact ⟨swept.imp allowed, fun time => (waited time).imp allowed⟩

/-- Documents are taken as they are, so it is up to them whether housekeeping is safe. The period is positive
unless the document says that it is zero and no variable sets another one; a variable is refused where it says
zero. Under all variables the store is strictly below the root directory, and neither in the place of the runs
nor above it, if the name that the document gives fits, and for no other name. Whatever the name is, sweeps,
purges and periodic sweeps delete only what the path of the store leads to, with all below it. With a name that
fits and does not lead through the directory of the runs, they leave the root directory, all that runs have in
it, and all that is outside as they are, over any files and after any use of the loader. -/
theorem documents_decide_what_housekeeping_deletes (accepted : ofSource temporary document = .ok given) :
    (∀ environment c, given.withOverrides environment = .ok c →
      (0 < c.janitorPeriod ↔
        environment.find? periodVariable ≠ none ∨ stated document "janitor_period_secs" ≠ some (.int 0)) ∧
      ∀ files : FileTree, files.Sound →
        c.HousekeepingClears files fun l => ∃ place, files.Finds c.libraryRoot place ∧ place <+: l) ∧
    ((∀ environment c, given.withOverrides environment = .ok c → ∀ d, c.Nests d) ↔
      Fits (statedName document)) ∧
    (Fits (statedName document) → (innerNames (statedName document)).head? ≠ some "executions" →
      ∀ environment c, given.withOverrides environment = .ok c → c.Harmless) := by
  have named := ofSource_storeName accepted
  refine ⟨?period, ?nests, ?harmless⟩
  case period =>
    intro environment c overridden
    refine ⟨?_, fun files sound => c.housekeeping_clears sound⟩
    rw [(withOverrides_ok overridden).period, ofSource_period accepted]
  case nests =>
    rw [← named]
    refine ⟨fun nests => fits_of_nests fun root => nests _ _ (withOverrides_root given root), ?_⟩
    intro fits environment c overridden
    rw [← (withOverrides_ok overridden).storeName] at fits
    exact fits.nests
  case harmless =>
    intro fits apart environment c overridden
    rw [← named, ← (withOverrides_ok overridden).storeName] at fits apart
    exact fits.harmless apart

/-- A store that a document names by a detour is purged, and the runs beside it are left. -/
theorem detoured_store_is_purged :
    let document := "janitor_period_secs = 30\nnamespace = \"a/../lib\""
    let given : CacheConfig := ⟨false, 50, 30000, ⟨"/tmp/cps"⟩, "a/../lib"⟩
    let environment : Entries String := [("CPS_PARSE_CACHE_ROOT", "/r")]
    let c : CacheConfig := ⟨false, 50, 30000, ⟨"/r"⟩, "a/../lib"⟩
    let files : FileTree := ⟨[(["r"], .directory), (["r", "a"], .directory), (["r", "lib"], .directory),
      (["r", "executions"], .directory), (["r", "executions", "1"], .directory), (["o"], .file .empty)], []⟩
    let swept := ((ScriptLoader.create c toString).sweep files).1
    ofSource ⟨"/tmp"⟩ (some document) = .ok given ∧ given.withOverrides environment = .ok c ∧
      0 < c.janitorPeriod ∧ (∀ d, c.Nests d) ∧ (swept.node? ["r", "lib"]).isNone = true ∧
      ∀ l, c.OffLimits files l → swept.node? l = files.node? l := by
  intro document given environment c files swept
  have accepted : ofSource ⟨"/tmp"⟩ (some document) = .ok given := by decide +kernel
  have overridden : given.withOverrides environment = .ok c := by decide +kernel
  have name : statedName (some document) = "a/../lib" := (ofSource_storeName accepted).symm
  have inner : innerNames "a/../lib" = ["lib"] := by decide +kernel
  have fits : Fits (statedName (some document)) := by
    rw [name]
    exact ⟨by decide +kernel, by simp [inner], by simp [inner]⟩
  have apart : (innerNames (statedName (some document))).head? ≠ some "executions" := by
    rw [name, inner]
    decide
  have regular : files.Regular := by decide +kernel
  obtain ⟨period, nests, harmless⟩ := documents_decide_what_housekeeping_deletes accepted
  have positive : 0 < c.janitorPeriod :=
    (period environment c overridden).1.2 (.inr ((ofSource_period accepted).1 (by decide)))
  obtain ⟨cleared, -⟩ := harmless fits apart environment c overridden files regular.sound
    (fun R _ l _ => regular.unlinked l) Unit toString []
  refine ⟨accepted, overridden, positive, nests.2 fits environment c overridden, by decide +kernel, ?_⟩
  exact fun l off => (cleared.node l).resolve_right fun gone => gone.1 off

/-- Settings that are accepted can have no period, a store above the root directory, whose purge takes the root
directory, the runs and what is outside with it, and a store in the directory of a run. -/
theorem accepted_settings_can_do_harm :
    let files : FileTree := ⟨[(["tmp"], .directory), (["tmp", "o"], .file .empty), (["tmp", "cps"], .directory),
      (["tmp", "cps", "executions"], .directory), (["tmp", "cps", "executions", "1"], .directory)], []⟩
    let still : CacheConfig := ⟨false, 50, 0, ⟨"/tmp/cps"⟩, "parse-cache-libraries"⟩
    let above : CacheConfig := ⟨false, 50, 600000, ⟨"/tmp/cps"⟩, ".."⟩
    let among : CacheConfig := ⟨false, 50, 600000, ⟨"/tmp/cps"⟩, "executions/1"⟩
    let swept (c : CacheConfig) := ((ScriptLoader.create c toString).sweep files).1
    (ofSource ⟨"/tmp"⟩ (some "janitor_period_secs = 0") = .ok still ∧ still.withOverrides [] = .ok still) ∧
    (ofSource ⟨"/tmp"⟩ (some "namespace = \"..\"") = .ok above ∧ above.withOverrides [] = .ok above ∧
      ¬above.Nests [] ∧ ∀ l ∈ [["tmp", "cps"], ["tmp", "cps", "executions", "1"], ["tmp", "o"]],
        (files.node? l).isSome = true ∧ ((swept above).node? l).isNone = true) ∧
    (ofSource ⟨"/tmp"⟩ (some "namespace = \"executions/1\"") = .ok among ∧ among.withOverrides [] = .ok among ∧
      (∀ d, among.Nests d) ∧ ((swept among).node? ["tmp", "cps", "executions", "1"]).isNone = true) := by
  intro files still above among swept
  refine ⟨by decide +kernel, ⟨by decide +kernel, by decide +kernel, fun nests => ?_, by decide +kernel⟩,
    by decide +kernel, by decide +kernel, ?_, by decide +kernel⟩
  · have place : Path.landing [] above.libraryRoot = ["tmp"] := by decide +kernel
    have root : Path.landing [] above.rootDirectory = ["tmp", "cps"] := by decide +kernel
    have below := nests.below
    rw [place, root] at below
    exact absurd below (by decide)
  · have inner : innerNames "executions/1" = ["executions", "1"] := by decide +kernel
    have fits : Fits among.storeName := ⟨by decide +kernel, by simp [among, inner], by simp [among, inner]⟩
    exact fits.nests

end CacheConfig
end FlowScript
