import Mathlib.Data.List.Pairwise
import FlowScript.Proofs.EqualKeys
import FlowScript.Proofs.Stocking

/-! A cache and the sweeps of its store, over a whole history. Nothing that a live entry refers to is
written or removed, whatever the order in which calls, evictions, leases and sweeps come. -/
namespace FlowScript

/-- A cache with the files that its store is among. -/
structure Depot where
  cache : ScriptCache
  files : FileTree

/-- What happens to a depot. A change of the files comes from outside of it. -/
inductive DepotAct (ε : Type) where
  | acquire (key : CacheKey) (binding : Bindings) (h : Heap) (execution : Execution) (produce : Producer ε)
  | evict (key : CacheKey)
  | clear
  | lease
  | release (id : String)
  | change (f : FileTree → FileTree)
  | sweep

namespace Depot
open FileTree

variable {ε : Type}

/-- An empty cache. -/
def opening (root : Path) (ids : Nat → String) (files : FileTree) : Depot :=
    ⟨.create (.create root ids), files⟩

def acquire (d : Depot) (key : CacheKey) (binding : Bindings) (h : Heap) (execution : Execution)
    (produce : Producer ε) : Acquired ε := d.cache.acquire key binding ⟨d.files, h, execution⟩ produce

def withStore (d : Depot) (store : LibraryStore) : Depot := { d with cache := { d.cache with store } }

def act (d : Depot) : DepotAct ε → Depot
  | .acquire key binding h execution produce =>
    let acquired := d.acquire key binding h execution produce
    ⟨acquired.cache, acquired.workspace.files⟩
  | .evict key => { d with cache := (d.cache.evict key).1 }
  | .clear => { d with cache := d.cache.clear }
  | .lease => d.withStore d.cache.store.lease
  | .release id => d.withStore (d.cache.store.release id)
  | .change f => { d with files := f d.files }
  | .sweep => { d with files := (d.cache.sweep d.files).1 }

def after (d : Depot) (acts : List (DepotAct ε)) : Depot := acts.foldl act d

/-- Runs and producers have nothing to do with the store. From outside, children of the store may come,
change and go that no entry refers to and that are not still to be written. -/
def Permits (d : Depot) (S : Location) : DepotAct ε → Prop
  | .acquire _ _ h execution produce =>
    Workspace.Tidy ⟨d.files, h, execution⟩ S ∧ produce.LeavesStore d.cache.store.root S
  | .change f =>
    Spares d.cache.store.root S
      (fun id => id ∈ d.cache.referenced ∨ ∃ n, d.cache.store.issued ≤ n ∧ id = d.cache.store.ids n)
        d.files (f d.files)
  | _ => True

/-- Each act is permitted when it comes. -/
def Orderly (S : Location) : Depot → List (DepotAct ε) → Prop
  | _, [] => True
  | d, a :: acts => d.Permits S a ∧ Orderly S (d.act a) acts

variable {d d' : Depot} {root : Path} {ids : Nat → String} {S : Location}
  {acts acts' : List (DepotAct ε)} {id : String}

theorem after_append (d : Depot) (acts acts' : List (DepotAct ε)) :
    d.after (acts ++ acts') = (d.after acts).after acts' := List.foldl_append

theorem orderly_append :
    Orderly S d (acts ++ acts') ↔ Orderly S d acts ∧ Orderly S (d.after acts) acts' := by
  induction acts generalizing d with
  | nil => simp [Orderly, after]
  | cons a acts ih => simp only [List.cons_append, Orderly, ih, after, List.foldl_cons, and_assoc]

/-! ### What holds of every depot -/

/-- Ids that are never given out twice and can stand as names in the store. -/
structure FreshIds (ids : Nat → String) : Prop where
  injective : Function.Injective ids
  word : ∀ n, IsPlain (ids n) ∧ IsClean (ids n)

/-- All entries have their libraries in the store, each in a child of its own, and the children with ids
that are not yet given out are missing. -/
structure Sane (d : Depot) (root : Path) (ids : Nat → String) (S : Location) : Prop where
  rooted : d.cache.store.root = root
  numbered : d.cache.store.ids = ids
  sound : d.files.Sound
  placed : d.files.Placed root S
  missing : ∀ n, d.cache.store.issued ≤ n → ∀ m, d.files.node? (S ++ ids n :: m) = none
  issued : ∀ e ∈ d.cache.entries, ∀ id, e.2.libraries.directory = some id →
    ∃ n, n < d.cache.store.issued ∧ id = ids n
  stocked : ∀ e ∈ d.cache.entries, ∀ id, e.2.libraries.directory = some id →
    LibraryStore.Stocked d.files root S e.2.libraries id
  distinct : d.cache.entries.Pairwise fun e e' =>
    ∀ id, e.2.libraries.directory = some id → e'.2.libraries.directory ≠ some id

/-- What an act does to a depot: the children of live entries and those still to be written are spared, but
for the next one, which may have been filled for a new entry. -/
structure Turns (d d' : Depot) (root : Path) (ids : Nat → String) (S : Location) : Prop where
  rooted : d'.cache.store.root = d.cache.store.root
  numbered : d'.cache.store.ids = d.cache.store.ids
  issued : d.cache.store.issued ≤ d'.cache.store.issued
  spares : Spares root S (fun id => id ∈ d.cache.referenced ∨ ∃ n, d'.cache.store.issued ≤ n ∧ id = ids n)
    d.files d'.files
  entries : d'.cache.entries.Sublist d.cache.entries ∨ ∃ key entry,
    d'.cache.entries = d.cache.entries ++ [(key, entry)] ∧ ∀ id, entry.libraries.directory = some id →
      id = ids d.cache.store.issued ∧ d'.cache.store.issued = d.cache.store.issued + 1 ∧
        LibraryStore.Stocked d'.files root S entry.libraries id

theorem mem_of_find? {c : ScriptCache} (found : c.find? key = some entry) : (key, entry) ∈ c.entries := by
  obtain ⟨before, later, whole, -⟩ := List.lookup_eq_some_iff.1 found
  rw [whole]
  simp

theorem mem_referenced : id ∈ d.cache.referenced ↔
    ∃ e ∈ d.cache.entries, e.2.libraries.directory = some id := by
  simp only [ScriptCache.referenced, List.mem_filterMap]

theorem stocked_spared {files files' : FileTree} {keep : String → Prop} {kept : CachedLibraries}
    (stocked : LibraryStore.Stocked files root S kept id) (sound : files.Sound)
    (placed : files.Placed root S)
    (spares : Spares root S keep files files') (keeps : keep id) :
    LibraryStore.Stocked files' root S kept id where
  reaches := spares.reaches sound placed.begins stocked.reaches
  unlinked m target there := by
    rw [List.append_assoc] at there
    refine stocked.unlinked m target ?_
    rw [List.append_assoc]
    exact (spares.kept id keeps m).symm.trans there
  directory := (spares.kept id keeps []).trans stocked.directory
  libraries name member := (stocked.libraries name member).imp_right (spares.kept id keeps _).trans

theorem Sane.turn (sane : d.Sane root ids S) (fresh : FreshIds ids) (turns : d.Turns d' root ids S) :
    d'.Sane root ids S := by
  have keeps : ∀ e ∈ d.cache.entries, ∀ id, e.2.libraries.directory = some id →
      (∃ n, n < d'.cache.store.issued ∧ id = ids n) ∧
        LibraryStore.Stocked d'.files root S e.2.libraries id := by
    intro e member id named
    obtain ⟨n, before, same⟩ := sane.issued e member id named
    refine ⟨⟨n, Nat.lt_of_lt_of_le before turns.issued, same⟩, ?_⟩
    exact stocked_spared (sane.stocked e member id named) sane.sound sane.placed turns.spares
      (.inl (mem_referenced.2 ⟨e, member, named⟩))
  have missing : ∀ n, d'.cache.store.issued ≤ n → ∀ m, d'.files.node? (S ++ ids n :: m) = none :=
    fun n later m =>
    (turns.spares.kept _ (.inr ⟨n, later, rfl⟩) m).trans
      (sane.missing n (Nat.le_trans turns.issued later) m)
  have sound := turns.spares.sound sane.sound
  have placed := turns.spares.placed sane.placed
  rcases turns.entries with fewer | ⟨key, entry, more, founded⟩
  · exact ⟨turns.rooted.trans sane.rooted, turns.numbered.trans sane.numbered, sound, placed, missing,
      fun e member id named => (keeps e (fewer.subset member) id named).1,
      fun e member id named => (keeps e (fewer.subset member) id named).2, sane.distinct.sublist fewer⟩
  · have all : ∀ e ∈ d'.cache.entries, ∀ id, e.2.libraries.directory = some id →
        (∃ n, n < d'.cache.store.issued ∧ id = ids n) ∧
          LibraryStore.Stocked d'.files root S e.2.libraries id := by
      intro e member id named
      rw [more] at member
      rcases List.mem_append.1 member with before | new
      · exact keeps e before id named
      · obtain rfl := List.mem_singleton.1 new
        obtain ⟨same, issued, stocked⟩ := founded id named
        exact ⟨⟨_, by rw [issued]; exact Nat.lt_succ_self _, same⟩, stocked⟩
    refine ⟨turns.rooted.trans sane.rooted, turns.numbered.trans sane.numbered, sound, placed, missing,
      fun e member id named => (all e member id named).1,
      fun e member id named => (all e member id named).2, ?_⟩
    rw [more]
    refine List.pairwise_append.2
      ⟨sane.distinct, List.pairwise_singleton _ _, fun e member e' new id named named' => ?_⟩
    obtain rfl := List.mem_singleton.1 new
    obtain ⟨n, before, same⟩ := sane.issued e member id named
    obtain ⟨same', -⟩ := founded id named'
    exact absurd (fresh.injective (same.symm.trans same')) (Nat.ne_of_lt before)

/-- Acts that leave the files alone. -/
theorem Turns.of_cache {c : ScriptCache} (root_eq : c.store.root = d.cache.store.root)
    (ids_eq : c.store.ids = d.cache.store.ids) (issued : d.cache.store.issued ≤ c.store.issued)
    (fewer : c.entries.Sublist d.cache.entries) : d.Turns { d with cache := c } root ids S :=
  ⟨root_eq, ids_eq, issued, .refl _ _ _ _, .inl fewer⟩

theorem acquire_spec (sane : d.Sane root ids S) (fresh : FreshIds ids) {produce : Producer ε} {h : Heap}
    {execution : Execution} (tidy : Workspace.Tidy ⟨d.files, h, execution⟩ S)
    (leaves : produce.LeavesStore d.cache.store.root S) (key : CacheKey) (binding : Bindings) :
    let a := d.acquire key binding h execution produce
    d.cache.store.Advances a.cache.store S d.files a.workspace.files ∧ d.cache.Keeps key S a := by
  have next : d.cache.store.nextId = ids d.cache.store.issued := by rw [LibraryStore.nextId, sane.numbered]
  have ready : d.cache.Ready d.files S := {
    sound := sane.sound
    placed := sane.rooted ▸ sane.placed
    word := next ▸ fresh.word _
    fresh := next ▸ sane.missing _ (Nat.le_refl _) }
  exact ScriptCache.acquire_keeps ready tidy leaves (fun entry found id named name member =>
    ((sane.stocked (key, entry) (mem_of_find? found) id named).libraries name member).1) binding

theorem turns_acquire (sane : d.Sane root ids S) (fresh : FreshIds ids) {produce : Producer ε} {h : Heap}
    {execution : Execution} (tidy : Workspace.Tidy ⟨d.files, h, execution⟩ S)
    (leaves : produce.LeavesStore d.cache.store.root S) (key : CacheKey) (binding : Bindings) :
    d.Turns (d.act (.acquire key binding h execution produce)) root ids S := by
  obtain ⟨advances, keeps⟩ := acquire_spec sane fresh tidy leaves key binding
  have next : d.cache.store.nextId = ids d.cache.store.issued := by rw [LibraryStore.nextId, sane.numbered]
  have spared := advances.issued
  rw [next, sane.rooted] at spared
  refine ⟨advances.root, advances.ids, ?_, ?_, ?_⟩
  · rcases spared with ⟨same, -⟩ | ⟨more, -⟩
    · exact Nat.le_of_eq same.symm
    · exact Nat.le_of_lt (Nat.lt_of_lt_of_eq (Nat.lt_succ_self _) more.symm)
  · rcases spared with ⟨-, spares⟩ | ⟨more, spares⟩
    · exact spares.imp fun _ _ => trivial
    · -- The id of the new child is none of those of live entries, nor one that is still to come.
      refine spares.imp fun id keep same => ?_
      rcases keep with referenced | ⟨n, later, other⟩
      · obtain ⟨e, member, named⟩ := mem_referenced.1 referenced
        obtain ⟨n, before, other⟩ := sane.issued e member id named
        exact absurd (fresh.injective (other.symm.trans same)) (Nat.ne_of_lt before)
      · have later : d.cache.store.issued < n :=
          Nat.lt_of_succ_le (Nat.le_trans (Nat.le_of_eq more.symm) later)
        exact absurd (fresh.injective (same.symm.trans other)) (Nat.ne_of_lt later)
  · cases keeps with
    | fewer fewer => exact .inl fewer
    | founded entry _ _ more founded =>
      refine .inr ⟨key, entry, more, fun id named => ?_⟩
      obtain ⟨is, issued, stocked, -⟩ := founded id named
      exact ⟨is.trans next, issued, sane.rooted ▸ stocked⟩

theorem turns_sweep (sane : d.Sane root ids S) : d.Turns (d.act (.sweep : DepotAct ε)) root ids S := by
  have placed : d.files.Placed d.cache.store.root S := sane.rooted ▸ sane.placed
  rcases d.cache.sweep_cases sane.sound placed with ⟨e, failed⟩ | ⟨files', report, children, swept, spec⟩
  · have same : d.act (.sweep : DepotAct ε) = d := by rw [act, failed]
    rw [same]
    exact .of_cache rfl rfl (Nat.le_refl _) (List.Sublist.refl _)
  · have same : d.act (.sweep : DepotAct ε) = { d with files := files' } := by rw [act, swept]
    rw [same]
    refine ⟨rfl, rfl, Nat.le_refl _, ?_, .inl (List.Sublist.refl _)⟩
    refine (spec.sheds.spares sane.placed).imp fun id keep ⟨member, unused⟩ => ?_
    rcases keep with referenced | ⟨n, later, rfl⟩
    · have used : d.cache.uses id = true := by simp [ScriptCache.uses, referenced]
      exact nomatch used.symm.trans unused
    · obtain ⟨node, there⟩ := spec.there _ member
      exact nomatch there.symm.trans (sane.missing n later [])

theorem turns_act (sane : d.Sane root ids S) (fresh : FreshIds ids) (a : DepotAct ε)
    (permitted : d.Permits S a) : d.Turns (d.act a) root ids S := by
  cases a with
  | acquire key binding h execution produce =>
    exact turns_acquire sane fresh permitted.1 permitted.2 key binding
  | evict key => exact .of_cache rfl rfl (Nat.le_refl _) List.filter_sublist
  | clear => exact .of_cache rfl rfl (Nat.le_refl _) (List.nil_sublist _)
  | lease => exact .of_cache rfl rfl (Nat.le_succ _) (List.Sublist.refl _)
  | release id => exact .of_cache rfl rfl (Nat.le_refl _) (List.Sublist.refl _)
  | change f =>
    refine ⟨rfl, rfl, Nat.le_refl _, ?_, .inl (List.Sublist.refl _)⟩
    rw [Permits, sane.rooted, sane.numbered] at permitted
    exact permitted
  | sweep => exact turns_sweep sane

theorem Sane.after (sane : d.Sane root ids S) (fresh : FreshIds ids) (orderly : Orderly S d acts) :
    (d.after acts).Sane root ids S := by
  induction acts generalizing d with
  | nil => exact sane
  | cons a acts ih => exact ih (sane.turn fresh (turns_act sane fresh a orderly.1)) orderly.2

theorem sane_opening {files : FileTree} (sound : files.Sound) (placed : files.Placed root S)
    (empty : ∀ l, S <+: l → l ≠ S → files.node? l = none) (ids : Nat → String) :
    (opening root ids files).Sane root ids S where
  rooted := rfl
  numbered := rfl
  sound := sound
  placed := placed
  missing n _ m := empty _ (List.prefix_append S _) (by simp)
  issued := nofun
  stocked := nofun
  distinct := .nil

/-! ### Where the libraries of an entry come from -/

/-- The directory of a live entry stands in the store as the call has left it that founded the entry, with
full copies of libraries of the run. -/
structure Endures (start : Depot) (acts : List (DepotAct ε)) (root : Path) (S : Location) (key : CacheKey)
    (entry : CacheEntry) (id : String) : Prop where
  present : (start.after acts).files.directory? (root.joinName id) = some (S ++ [id])
  origin : ∃ before binding h execution produce later,
    acts = before ++ .acquire key binding h execution produce :: later ∧
      let a := (start.after before).acquire key binding h execution produce
      a.route = .founded ∧ a.cache.find? key = some entry ∧
        FullCopy a.workspace.files a.workspace.execution.libraryRoot (S ++ [id])
          entry.libraries.names.names ∧
          ∀ m, (start.after acts).files.node? (S ++ id :: m) = a.workspace.files.node? (S ++ id :: m)

theorem find?_of_appended {c c' : ScriptCache} (absent : c.find? key = none)
    (appended : c'.entries = c.entries ++ [(key, entry)]) : c'.find? key = some entry := by
  rw [ScriptCache.find?] at absent ⊢
  rw [appended, lookup_append_pair, absent]
  simp

/-- An entry that is there after an act was there before it, or the act is the call that has founded it. -/
theorem entries_act (sane : d.Sane root ids S) (fresh : FreshIds ids) (a : DepotAct ε)
    (permitted : d.Permits S a) (member : (key, entry) ∈ (d.act a).cache.entries) :
    (key, entry) ∈ d.cache.entries ∨ ∃ binding h execution produce,
      a = .acquire key binding h execution produce ∧
        let acquired := d.acquire key binding h execution produce
        acquired.route = .founded ∧ acquired.cache.find? key = some entry ∧
          ∀ id, entry.libraries.directory = some id →
            d.cache.store.Founded acquired.cache.store S acquired.workspace entry.libraries id := by
  cases a with
  | acquire other binding h execution produce =>
    obtain ⟨-, keeps⟩ := acquire_spec sane fresh permitted.1 permitted.2 other binding
    cases keeps with
    | fewer fewer => exact .inl (fewer.subset member)
    | founded new route absent more founded =>
      rw [act, more] at member
      rcases List.mem_append.1 member with before | here
      · exact .inl before
      · obtain ⟨rfl, rfl⟩ := Prod.mk.inj (List.mem_singleton.1 here)
        exact .inr ⟨binding, h, execution, produce, rfl, route, find?_of_appended absent more, founded⟩
  | evict other => exact .inl (List.filter_sublist.subset member)
  | clear => exact nomatch member
  | lease | release | change | sweep => exact .inl member

theorem endures (sane : d.Sane root ids S) (fresh : FreshIds ids) (none : d.cache.entries = [])
    (orderly : Orderly S d acts) (member : (key, entry) ∈ (d.after acts).cache.entries)
    (named : entry.libraries.directory = some id) : Endures d acts root S key entry id := by
  have present : ∀ acts : List (DepotAct ε), Orderly S d acts →
      (key, entry) ∈ (d.after acts).cache.entries →
      (d.after acts).files.directory? (root.joinName id) = some (S ++ [id]) := fun acts orderly member =>
    ((sane.after fresh orderly).stocked _ member id named).directory? (sane.after fresh orderly).sound
  refine ⟨present acts orderly member, ?_⟩
  -- The last act either has founded the entry, or has spared its directory.
  induction acts using List.reverseRecOn with
  | nil =>
    rw [show d.after [] = d from rfl, none] at member
    exact nomatch member
  | append_singleton acts a ih =>
    obtain ⟨orderly, permitted, -⟩ := orderly_append.1 orderly
    have sane' := sane.after fresh orderly
    rw [after_append] at member ⊢
    rcases entries_act sane' fresh a permitted member with
      before | ⟨binding, h, execution, produce, rfl, founded⟩
    · obtain ⟨front, binding, h, execution, produce, later, rfl, route, found, copy, same⟩ :=
        ih orderly before
      refine ⟨front, binding, h, execution, produce, later ++ [a], by simp, route, found, copy, fun m => ?_⟩
      have spares := (turns_act sane' fresh a permitted).spares
      exact (spares.kept id (.inl (mem_referenced.2 ⟨_, before, named⟩)) m).trans (same m)
    · obtain ⟨route, found, founded⟩ := founded
      obtain ⟨rfl, -, -, copy⟩ := founded id named
      exact ⟨acts, binding, h, execution, produce, [], rfl, route, found, copy, fun m => rfl⟩

/-! ### What a sweep does to a depot -/

/-- A successful sweep removes the children of the store that nothing uses and leaves all else as it is, so
that live entries are hits for runs that have room for their libraries, and a sweep right behind it removes
nothing. -/
structure Swept (d : Depot) (S : Location) (files : FileTree) (report : SweepReport) : Prop where
  partition : ∃ children,
    d.cache.store.children d.files = .ok children ∧ children.Pairwise (· < ·) ∧
      (d.files.isDirectory d.cache.store.root = true →
        ∀ id, id ∈ children ↔ ∃ node, d.files.node? (S ++ [id]) = some node) ∧
      report = ⟨children.filter d.cache.uses,
        (children.filter fun id => !d.cache.uses id).map d.cache.store.directory, false⟩ ∧
      Sheds S (fun id => id ∈ children ∧ d.cache.uses id = false) d.files files
  extractable : ∀ key entry, d.cache.find? key = some entry → ∀ w : Workspace, w.files = files →
    (∀ id, entry.libraries.directory = some id → LibraryStore.HasRoom files S id w.execution.root) →
      ∀ (ε : Type) binding (produce : Producer ε),
      (d.cache.acquire key binding w produce).route = .hit
  again : d.cache.sweep files = (files, .ok ⟨report.kept, [], false⟩)

theorem swept {files : FileTree} {report : SweepReport} (sane : d.Sane root ids S) (fresh : FreshIds ids)
    (ok : d.cache.sweep d.files = (files, .ok report)) : d.Swept S files report := by
  have placed : d.files.Placed d.cache.store.root S := sane.rooted ▸ sane.placed
  rcases d.cache.sweep_cases sane.sound placed with ⟨e, failed⟩ | ⟨files', report', children, done, spec⟩
  · exact nomatch (Prod.mk.inj (ok.symm.trans failed)).2
  · obtain ⟨rfl, answer⟩ := Prod.mk.inj (ok.symm.trans done)
    obtain rfl := Except.ok.inj answer
    have after : d.act (.sweep : DepotAct Unit) = { d with files } := by rw [act, ok]
    have sane' := sane.turn fresh (after ▸ turns_sweep (ε := Unit) sane)
    refine ⟨⟨children, spec.listed, spec.sorted, ?_, spec.reported, spec.sheds⟩, ?_, spec.again⟩
    · exact fun directory id => ⟨spec.there id, fun ⟨node, there⟩ => spec.all directory id node there⟩
    · rintro key entry found w rfl room ε binding produce
      refine ScriptCache.acquire_hits found sane'.sound (fun id named => ?_) room binding produce
      rw [sane.rooted]
      exact sane'.stocked _ (mem_of_find? found) id named

/-- Over all histories of calls, evictions, leases, sweeps and changes from outside, a live entry has its own
directory in the store as it was founded, no act writes to it, and a sweep removes exactly what nothing
uses. -/
theorem live_libraries_endure (root : Path) (ids : Nat → String) (files : FileTree) (S : Location)
    (fresh : FreshIds ids) (sound : files.Sound) (placed : files.Placed root S)
    (empty : ∀ l, S <+: l → l ≠ S → files.node? l = none) (acts : List (DepotAct ε))
    (orderly : Orderly S (opening root ids files) acts) :
    let start := opening root ids files
    let d := start.after acts
    (∀ key entry id, d.cache.find? key = some entry → entry.libraries.directory = some id →
      Endures start acts root S key entry id) ∧
    (∀ key key' entry entry' id, d.cache.find? key = some entry → d.cache.find? key' = some entry' →
      entry.libraries.directory = some id → entry'.libraries.directory = some id → key = key') ∧
    (∀ a : DepotAct ε, d.Permits S a → ∀ id ∈ d.cache.referenced, ∀ m,
      (d.act a).files.node? (S ++ id :: m) = d.files.node? (S ++ id :: m)) ∧
    ∀ files' report, d.cache.sweep d.files = (files', .ok report) → d.Swept S files' report := by
  have opened := sane_opening sound placed empty ids
  have sane := opened.after fresh orderly
  refine ⟨?endure, ?distinct, ?unmodified, ?swept⟩
  case endure =>
    exact fun key entry id found named => endures opened fresh rfl orderly (mem_of_find? found) named
  case distinct =>
    intro key key' entry entry' id found found' named named'
    by_contra other
    have symm : Std.Symm fun e e' : CacheKey × CacheEntry =>
        ∀ id, e.2.libraries.directory = some id → e'.2.libraries.directory ≠ some id :=
      ⟨fun _ _ apart id named named' => apart id named' named⟩
    refine sane.distinct.forall (mem_of_find? found) (mem_of_find? found') ?_ id named named'
    exact fun same => other (Prod.mk.inj same).1
  case unmodified =>
    exact fun a permitted id referenced m =>
      (turns_act sane fresh a permitted).spares.kept id (.inl referenced) m
  case swept => exact fun files' report ok => swept sane fresh ok

theorem freshIds_tally : FreshIds fun n => String.ofList (List.replicate (n + 1) 'd') where
  injective m n same := by simpa using congrArg (fun s => s.toList.length) same
  word n := by
    have none : ∀ c, c ≠ 'd' → c ∉ (String.ofList (List.replicate (n + 1) 'd')).toList := by
      simp +contextual
    refine ⟨⟨?_, ?_, ?_⟩, none _ (by decide), none _ (by decide)⟩
    all_goals exact fun same => by simpa [List.replicate_succ] using congrArg String.toList same

/-- A run has founded an entry with a copy of its library when something else appears in the store. What a sweep
leaves is handed out to a run whose directory has not been made yet. -/
theorem copy_outlasts_stray :
    let ids n := String.ofList (List.replicate (n + 1) 'd')
    let files : FileTree := ⟨[(["s"], .directory), (["r"], .directory), (["r", "libs"], .directory),
      (["r", "libs", "a"], .directory), (["r", "libs", "a", "f"], .file .empty)], []⟩
    let key : CacheKey := ⟨.unrestricted, .ofText "one"⟩
    let made : Maker Unit := .ofTemplate ⟨"One", ⟨#[.constant (.int 1)], 0⟩, []⟩ []
    let execution :=
      ((Execution.create 0 "job" ⟨"/r"⟩).addClasspath (.ofSegments ["r", "libs", "a", ""])).addAction
      (.libraries ["a"])
    let start := opening ⟨"/s"⟩ ids files
    let acts := [.acquire key [] .empty execution made.produce, .change (·.put ["s", "x"] (.file .empty))]
    let d := start.after acts
    Orderly ["s"] start acts ∧
      (∃ entry, d.cache.find? key = some entry ∧ Endures start acts ⟨"/s"⟩ ["s"] key entry "d") ∧
      ∃ swept, d.cache.sweep d.files = (swept, .ok ⟨["d"], [⟨"/s/x"⟩], false⟩) ∧
        d.Swept ["s"] swept ⟨["d"], [⟨"/s/x"⟩], false⟩ ∧ swept.directory? ⟨"/q"⟩ = none ∧
          (d.cache.acquire key [] ⟨swept, .empty, .create 1 "job" ⟨"/q"⟩⟩ made.produce).route = .hit := by
  intro ids files key made execution start acts d
  have fresh : FreshIds ids := freshIds_tally
  have regular : files.Regular := by decide +kernel
  have unlinked : files.Unlinked [] := fun m target => regular.unlinked _ target
  have placed : files.Placed ⟨"/s"⟩ ["s"] :=
    Written.placed ⟨by decide +kernel, by decide, by decide⟩ unlinked
  have apart : files.Apart ["s"] execution.libraryRoot :=
    Written.apart (d := ["r", "libs"]) ⟨by decide +kernel, by decide, by decide⟩ unlinked (by decide) (by decide)
  have empty : ∀ l, ["s"] <+: l → l ≠ ["s"] → files.node? l = none := by
    rintro _ ⟨m, rfl⟩ more
    cases m with
    | nil => exact absurd rfl more
    | cons name m => rfl
  have tidy : Workspace.Tidy ⟨files, .empty, execution⟩ ["s"] := by
    refine ⟨begins_of_isAbsolute (by decide +kernel) _, apart, fun names declared name member => ?_⟩
    obtain rfl : ["a"] = names := Option.some.inj declared
    obtain rfl := List.mem_singleton.1 member
    intro part here
    rw [Text.split_of_not_mem (by decide), List.mem_singleton] at here
    exact here ▸ ⟨by decide, by decide, by decide⟩
  have leaves : made.produce.LeavesStore ⟨"/s"⟩ ["s"] := fun w _ _ tidy =>
    ⟨.refl _ _ _ _, tidy.begins, tidy.apart, tidy.plain⟩
  have orderly : Orderly ["s"] start acts := by
    have opened := sane_opening regular.sound placed empty ids
    have sane := opened.turn fresh (turns_acquire opened fresh tidy leaves key [])
    let founded := start.act (.acquire key [] .empty execution made.produce)
    have copied : (founded.files.node? ["s", "d"]).isSome = true := by decide +kernel
    have absent : (founded.files.node? ["s", "x"]).isNone = true := by decide +kernel
    have referenced : founded.cache.referenced = ["d"] := by decide +kernel
    obtain ⟨node, copied⟩ := Option.isSome_iff_exists.1 copied
    refine ⟨⟨tidy, leaves⟩, ?_, trivial⟩
    refine (spares_stray _ (sane.sound.housed (l := ["s"]) copied) (Option.isNone_iff_eq_none.1 absent)
      (by decide) .empty).imp fun id keep stray => ?_
    subst stray
    rcases keep with member | ⟨n, -, same⟩
    · rw [show (start.act _).cache.referenced = ["d"] from referenced] at member
      simp at member
    · have same : "x" = String.ofList (List.replicate (n + 1) 'd') := same.trans (congrFun sane.numbered n)
      simpa [List.replicate_succ] using congrArg String.toList same
  obtain ⟨endure, -, -, swept⟩ :=
    live_libraries_endure ⟨"/s"⟩ ids files ["s"] fresh regular.sound placed empty acts orderly
  have swept : ∀ left report, d.cache.sweep d.files = (left, .ok report) → d.Swept ["s"] left report := swept
  have found : (d.cache.find? key).bind (·.libraries.directory) = some "d" := by decide +kernel
  obtain ⟨entry, found, named⟩ := Option.bind_eq_some_iff.1 found
  have endures : Endures start acts ⟨"/s"⟩ ["s"] key entry "d" := endure key entry "d" found named
  have children : d.cache.store.children d.files = .ok ["d", "x"] := by
    have keys : d.files.entries.map Prod.fst =
        [["s", "x"], ["s", "d", "a", "f"], ["s", "d", "a"], ["s", "d"], ["s"], ["r"], ["r", "libs"],
          ["r", "libs", "a"], ["r", "libs", "a", "f"]] := by decide +kernel
    have names : d.files.names ["s"] = ["d", "x"] :=
      names_eq (by rw [keys]; decide) (by decide) fun name => by rw [keys]; simp [or_comm]
    rw [LibraryStore.children_of_directory? (S := ["s"]) (by decide +kernel), names]
  have sweeps : d.cache.sweep d.files = d.cache.sweepChildren ["d", "x"] ⟨[], [], false⟩ d.files := by
    simp only [ScriptCache.sweep, children]
  have answer : (d.cache.sweep d.files).2.toOption = some ⟨["d"], [⟨"/s/x"⟩], false⟩ := by
    rw [sweeps]
    decide +kernel
  have regular : (d.cache.sweep d.files).1.Regular ∧ (d.cache.sweep d.files).1.directory? ⟨"/q"⟩ = none ∧
      (d.cache.sweep d.files).1.directory? ⟨"/"⟩ = some [] ∧
        ((d.cache.sweep d.files).1.node? ["q"]).isNone = true := by
    rw [sweeps]
    decide +kernel
  clear_value d
  rcases done : d.cache.sweep d.files with ⟨left, e | report⟩
  · rw [done] at answer
    cases answer
  · rw [done] at answer regular
    obtain rfl := Option.some.inj answer
    obtain ⟨regular, missing, home, free⟩ := regular
    have swept := swept _ _ done
    have written : (Path.mk "/q").joinName "libs" = (Path.mk "/").join (pathOfNames ["q", "libs"]) := by
      decide +kernel
    have place : Extends ((Path.mk "/q").joinName "libs") ⟨"/"⟩ ["q", "libs"] := by
      rw [written]
      exact extends_join (by decide) (by decide) _
    have apart : left.Apart ["s"] ((Path.mk "/q").joinName "libs") :=
      Written.apart (d := ["q", "libs"]) ⟨by decide +kernel, by decide, by decide⟩
        (fun m target => regular.unlinked _ target) (by decide) (by decide)
    have room : LibraryStore.HasRoom left ["s"] "d" ⟨"/q"⟩ :=
      .of_none regular.sound (by decide +kernel) apart home place (by decide) (Option.isNone_iff_eq_none.1 free)
    refine ⟨orderly, ⟨entry, found, endures⟩, left, rfl, swept, missing, ?_⟩
    refine swept.extractable key entry found _ rfl (fun id other => ?_) Unit [] made.produce
    obtain rfl := Option.some.inj (named.symm.trans other)
    exact room

/-- The path of a store may lead through one of its children, which is made on the way. No entry refers to
that child; where a sweep removes it, the libraries that it keeps cannot be reached any more. And the `libs` of
a run may be a link to where the libraries of an entry are kept. A hit then copies each file onto itself, which
empties it. -/
theorem kept_libraries_can_be_lost :
    let ids n := String.ofList (List.replicate (n + 1) 'd')
    let files : FileTree := ⟨[(["s"], .directory), (["r"], .directory), (["r", "libs"], .directory),
      (["r", "libs", "a"], .directory), (["r", "libs", "a", "f"], .file ⟨#[1]⟩), (["q"], .directory),
      (["q", "libs"], .link ⟨"/s/d"⟩)], []⟩
    let key : CacheKey := ⟨.unrestricted, .ofText "one"⟩
    let made : Maker Unit := .ofTemplate ⟨"One", ⟨#[.constant (.int 1)], 0⟩, []⟩ []
    let execution :=
      ((Execution.create 0 "job" ⟨"/r"⟩).addClasspath (.ofSegments ["r", "libs", "a", ""])).addAction
      (.libraries ["a"])
    let founded root := (opening root ids files).act (.acquire key [] .empty execution made.produce)
    let winding := founded ⟨"/s/x/.."⟩
    let swept := winding.cache.sweep winding.files
    let plain := founded ⟨"/s"⟩
    let later := plain.acquire key [] .empty (.create 1 "job" ⟨"/q"⟩) made.produce
    FreshIds ids ∧
      (winding.cache.referenced = ["d"] ∧ swept.2.toOption = some ⟨["d"], [⟨"/s/x/../x"⟩], false⟩ ∧
        (winding.cache.acquire key [] ⟨swept.1, .empty, .create 1 "job" ⟨"/p"⟩⟩ made.produce).route =
          .fallback) ∧
      later.route = .hit ∧ later.cache.referenced = ["d"] ∧
        (plain.files.readBytes ⟨"/s/d/a/f"⟩).toOption = some ⟨#[1]⟩ ∧
        (later.workspace.files.readBytes ⟨"/s/d/a/f"⟩).toOption = some .empty := by
  intro ids files key made execution founded winding swept plain later
  have children : winding.cache.store.children winding.files = .ok ["d", "x"] := by
    have keys : winding.files.entries.map Prod.fst =
        [["s", "d", "a", "f"], ["s", "d", "a"], ["s", "d"], ["s", "x"], ["s"], ["r"], ["r", "libs"],
          ["r", "libs", "a"], ["r", "libs", "a", "f"], ["q"], ["q", "libs"]] := by decide +kernel
    have names : winding.files.names ["s"] = ["d", "x"] :=
      names_eq (by rw [keys]; decide) (by decide) fun name => by rw [keys]; simp
    rw [LibraryStore.children_of_directory? (S := ["s"]) (by decide +kernel), names]
  have sweeps : swept = winding.cache.sweepChildren ["d", "x"] ⟨[], [], false⟩ winding.files := by
    simp only [swept, ScriptCache.sweep, children]
  refine ⟨freshIds_tally, ⟨by decide +kernel, ?_, ?_⟩, by decide +kernel⟩
  · rw [sweeps]
    decide +kernel
  · rw [sweeps]
    decide +kernel

end Depot
end FlowScript
