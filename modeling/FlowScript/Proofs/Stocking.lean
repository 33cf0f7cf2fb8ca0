import FlowScript.Proofs.Handouts
import FlowScript.Proofs.Surveying
import FlowScript.Proofs.Sweeping

/-! What a call of the cache does to the store. At most the next child of the store is written; where the
call leaves an entry behind, that child holds a full copy of the libraries. -/
namespace FlowScript

/-- A run that keeps to itself: nothing at its `libs` is in the store, with links followed, and its libraries have
plain names. -/
structure Workspace.Tidy (w : Workspace) (S : Location) : Prop where
  begins : w.files.Begins w.execution.root
  apart : w.files.Apart S w.execution.libraryRoot
  plain : ∀ names, w.execution.libraries? = some names → ∀ name ∈ names, FileTree.PlainName name

/-- A producer that leaves the store alone and keeps to its run. -/
def Producer.LeavesStore (produce : Producer ε) (root : Path) (S : Location) : Prop :=
  ∀ w : Workspace, w.files.Sound → w.files.Placed root S → w.Tidy S →
    FileTree.Spares root S (fun _ => True) w.files (produce w).1.files ∧ (produce w).1.Tidy S

/-- A directory holds all of these libraries, each file in it with the content that it has below `libs`. -/
structure FullCopy (files : FileTree) (libs : Path) (place : Location) (names : List String) : Prop where
  covers : ∀ name ∈ names, files.Covers (libs.joinName name) (place ++ Text.split '/' name)
  faithful : ∀ names content, names ≠ [] → files.node? (place ++ names) = some (.file content) →
    files.readBytes (libs.join (FileTree.pathOfNames names)) = .ok content

namespace LibraryStore
open FileTree

variable {s s' s'' : LibraryStore} {w : Workspace} {files files' files'' : FileTree} {S : Location}
  {names : List String} {id : String} {kept : CachedLibraries}

/-- At most the next id is used up, and at most its child is written. -/
structure Advances (s s' : LibraryStore) (S : Location) (files files' : FileTree) : Prop where
  root : s'.root = s.root
  ids : s'.ids = s.ids
  issued : (s'.issued = s.issued ∧ Spares s.root S (fun _ => True) files files') ∨
    (s'.issued = s.issued + 1 ∧ Spares s.root S (· ≠ s.nextId) files files')

theorem Advances.of_spares (spares : Spares s.root S (fun _ => True) files files') :
    s.Advances s S files files' :=
  ⟨rfl, rfl, .inl ⟨rfl, spares⟩⟩

theorem Advances.spares (advances : s.Advances s' S files files') :
    Spares s.root S (· ≠ s.nextId) files files' := by
  rcases advances.issued with ⟨-, spares⟩ | ⟨-, spares⟩
  · exact spares.imp fun _ _ => trivial
  · exact spares

/-- A lease that is given back leaves the ids as they are. -/
theorem Advances.released (advances : s.Advances s' S files files') (kept : CachedLibraries) :
    s.Advances (kept.directory.elim s' s'.release) S files files' := by
  cases kept.directory with
  | none => exact advances
  | some id => exact ⟨advances.root, advances.ids, advances.issued⟩

theorem Advances.after (advances : s.Advances s' S files' files'')
    (spares : Spares s.root S (fun _ => True) files files') :
    s.Advances s' S files files'' := by
  refine ⟨advances.root, advances.ids, ?_⟩
  rcases advances.issued with ⟨same, later⟩ | ⟨next, later⟩
  · exact .inl ⟨same, spares.trans later⟩
  · exact .inr ⟨next, (spares.imp fun _ _ => trivial).trans later⟩

/-- What a call has left in the store for an entry. -/
structure Founded (s s' : LibraryStore) (S : Location) (w : Workspace) (kept : CachedLibraries)
    (id : String) :
    Prop where
  fresh : id = s.nextId
  issued : s'.issued = s.issued + 1
  stocked : Stocked w.files s.root S kept id
  copy : FullCopy w.files w.execution.libraryRoot (S ++ [id]) kept.names.names

theorem Founded.released (founded : s.Founded s' S w kept id) :
    s.Founded (kept.directory.elim s' s'.release) S w kept id := by
  refine ⟨founded.fresh, ?_, founded.stocked, founded.copy⟩
  cases kept.directory with
  | none => exact founded.issued
  | some id => exact founded.issued

/-- Keeping the libraries of a run writes the next child of the store, and it holds them where that
succeeds. -/
theorem harvest_spec (s : LibraryStore) (sound : w.files.Sound) (placed : w.files.Placed s.root S)
    (tidy : w.Tidy S)
    (plain : ∀ name ∈ names, PlainName name) (word : IsPlain s.nextId ∧ IsClean s.nextId)
    (fresh : ∀ m, w.files.node? (S ++ s.nextId :: m) = none) :
    s.Advances (s.harvest names w).1 S w.files (s.harvest names w).2.1.files ∧
      ∀ kept, (s.harvest names w).2.2 = .ok kept → ∀ id, kept.directory = some id →
        s.Founded (s.harvest names w).1 S (s.harvest names w).2.1 kept id := by
  have filling : w.files.Filling s.root S s.nextId w.execution.libraryRoot := {
    sound, placed, word
    unlinked := fun m target there => by
      rw [List.append_assoc] at there
      cases there.symm.trans (fresh m)
    apart := tidy.apart
    faithful := fun names content _ there => by cases there.symm.trans (fresh names) }
  have libraries : ∀ library ∈ (Survey.ofClasspath w.execution.root names w.execution.classpath).libraries,
      PlainName library.1 ∧ library.2 = w.execution.libraryRoot.joinName library.1 := fun library member =>
    (Survey.mem_libraries member).imp_left (plain library.1)
  have grows := copyLibraries_grows sound placed filling.unlinked word fun library member =>
    (libraries library member).1
  have prints := copyLibraries_prints (s.directory s.nextId)
    (Survey.ofClasspath w.execution.root names w.execution.classpath).libraries w
  simp only [harvest]
  generalize Survey.ofClasspath w.execution.root names w.execution.classpath = survey
    at libraries grows prints ⊢
  have spares : Spares s.root S (· ≠ s.nextId) w.files
      (copyLibraries (s.directory s.nextId) survey.libraries w).1.files :=
    grows.spares fun _ other _ _ => placed.not_within_child other
  rcases copied : copyLibraries (s.directory s.nextId) survey.libraries w with ⟨w', answer⟩
  rw [copied] at spares prints
  by_cases nothing : survey.libraries = []
  · -- There is nothing to copy, and no id is taken.
    rw [nothing] at copied
    obtain ⟨rfl, rfl⟩ := Prod.mk.inj copied
    have advances : s.Advances s S w.files w.files := .of_spares (.refl _ _ _ _)
    have released : s.Advances (s.release s.nextId) S w.files w.files := ⟨rfl, rfl, advances.issued⟩
    simp only [nothing, List.isEmpty_nil, if_true]
    cases survey.error with
    | some e => exact ⟨released, by rintro _ ⟨⟩⟩
    | none =>
      refine ⟨advances, ?_⟩
      rintro _ ⟨⟩ _ ⟨⟩
  · have advances : s.Advances s.lease S w.files w'.files := ⟨rfl, rfl, .inr ⟨rfl, spares⟩⟩
    have released : s.Advances (s.lease.release s.nextId) S w.files w'.files :=
      ⟨rfl, rfl, .inr ⟨rfl, spares⟩⟩
    have some : survey.libraries.isEmpty = false := by simpa using nothing
    simp only [some, Bool.false_eq_true, if_false]
    cases answer with
    | error e => exact ⟨released, by rintro _ ⟨⟩⟩
    | ok =>
      cases survey.error with
      | some e => exact ⟨released, by rintro _ ⟨⟩⟩
      | none =>
        refine ⟨advances, ?_⟩
        rintro _ ⟨⟩ _ ⟨⟩
        obtain ⟨filling', copies⟩ := copyLibraries_ok filling libraries copied
        have kept : ∀ name ∈ (Entries.ofPairs (survey.libraries.map fun library => (library.1, ()))).names,
            ∃ path, (name, path) ∈ survey.libraries := by
          intro name member
          obtain ⟨pair, paired, rfl⟩ := List.mem_map.1 member
          obtain ⟨library, inside, rfl⟩ := List.mem_map.1 (Entries.mem_of_mem_ofPairs paired)
          exact ⟨library.2, inside⟩
        have root : w'.execution.libraryRoot = w.execution.libraryRoot := by
          rw [Execution.libraryRoot, Execution.libraryRoot, prints.root]
        obtain ⟨first, member⟩ := List.exists_mem_of_ne_nil _ nothing
        have reaches := (copies first member).1
        have covers := (copies first member).2
        refine ⟨rfl, rfl, ⟨reaches, filling'.unlinked, ?_, fun name inside => ?_⟩,
          fun name inside => ?_, ?_⟩
        · have made : w'.files.node? (S ++ ([s.nextId] ++ Text.split '/' first.1)) =
              Option.some .directory := covers.made
          exact filling'.sound.above made (Text.split_ne_nil _ _)
        · obtain ⟨path, member⟩ := kept name inside
          exact ⟨(libraries _ member).1, (copies _ member).2.made⟩
        · obtain ⟨path, member⟩ := kept name inside
          have covers := (copies _ member).2
          rw [(libraries _ member).2] at covers
          rw [root, List.append_assoc]
          exact covers
        · intro names content nonempty there
          rw [List.append_assoc] at there
          rw [root]
          exact filling'.faithful names content nonempty there

theorem extract_spares (s : LibraryStore) (kept : CachedLibraries) (sound : w.files.Sound) (tidy : w.Tidy S)
    (plain : ∀ id, kept.directory = some id → ∀ name ∈ kept.names.names, PlainName name) :
    Spares s.root S (fun _ => True) w.files (s.extract kept w).1.files ∧ (s.extract kept w).1.Tidy S := by
  have grows := extract_grows s kept sound tidy.begins plain
  have prints := s.extract_prints kept w
  refine ⟨grows.spares fun id _ m _ within => tidy.apart _ within (List.prefix_append S _), ?_, ?_, ?_⟩
  · rw [prints.root]
    exact grows.begins tidy.begins
  · rw [Execution.libraryRoot, prints.root]
    exact grows.apart tidy.apart
  · intro names declared
    rw [Execution.libraries?, prints.actions] at declared
    exact tidy.plain names declared

end LibraryStore

namespace ScriptCache
open FileTree

variable {c : ScriptCache} {key : CacheKey} {w : Workspace} {S : Location}

/-- What a call of the cache does to the entries: it removes some or none, or it leaves one behind for the
key, with its libraries in the next child of the store. -/
inductive Keeps (c : ScriptCache) (key : CacheKey) (S : Location) (a : Acquired ε) : Prop where
  | fewer : a.cache.entries.Sublist c.entries → Keeps c key S a
  | founded (entry : CacheEntry) :
      a.route = .founded → c.find? key = none → a.cache.entries = c.entries ++ [(key, entry)] →
      (∀ id, entry.libraries.directory = some id →
        c.store.Founded a.cache.store S a.workspace entry.libraries id) → Keeps c key S a

/-- The next child of the store is free to be written. -/
structure Ready (c : ScriptCache) (files : FileTree) (S : Location) : Prop where
  sound : files.Sound
  placed : files.Placed c.store.root S
  word : IsPlain c.store.nextId ∧ IsClean c.store.nextId
  fresh : ∀ m, files.node? (S ++ c.store.nextId :: m) = none

theorem Ready.later (ready : c.Ready files S)
    (spares : Spares c.store.root S (fun _ => True) files files') :
    c.Ready files' S :=
  ⟨spares.sound ready.sound, spares.placed ready.placed, ready.word,
    fun m => (spares.kept _ trivial m).trans (ready.fresh m)⟩

/-- Recording what a run has compiled writes at most the next child of the store. -/
theorem record_keeps (ready : c.Ready w.files S) (tidy : w.Tidy S) (script : Script) :
    c.store.Advances (record c.store script w).1 S w.files (record c.store script w).2.1.files ∧
      ∀ entry, (record c.store script w).2.2 = .ok entry → ∀ id, entry.libraries.directory = some id →
        c.store.Founded (record c.store script w).1 S (record c.store script w).2.1 entry.libraries id := by
  have ready₁ : c.Ready (w.println "Create script cache entry").files S := ready
  have tidy₁ : (w.println "Create script cache entry").Tidy S := ⟨tidy.begins, tidy.apart, tidy.plain⟩
  have files : w.files = (w.println "Create script cache entry").files := rfl
  simp only [record]
  rw [files]
  generalize w.println "Create script cache entry" = w₁ at ready₁ tidy₁
  cases declared : w₁.execution.libraries? with
  | none =>
    refine ⟨.of_spares (.refl _ _ _ _), ?_⟩
    rintro _ ⟨⟩ _ ⟨⟩
  | some names =>
    obtain ⟨advances, founded⟩ := c.store.harvest_spec ready₁.sound ready₁.placed tidy₁
      (tidy₁.plain names declared)
      ready₁.word ready₁.fresh
    simp only
    rcases harvested : c.store.harvest names w₁ with ⟨store, w₂, e | libraries⟩
    · rw [harvested] at advances
      exact ⟨advances, by rintro _ ⟨⟩⟩
    · rw [harvested] at advances founded
      refine ⟨advances, ?_⟩
      rintro _ ⟨⟩
      exact founded libraries rfl

theorem miss_keeps (absent : c.find? key = none) (ready : c.Ready w.files S) (tidy : w.Tidy S)
    {produce : Producer ε}
    (leaves : produce.LeavesStore c.store.root S) :
    c.store.Advances (c.miss key w produce).cache.store S w.files (c.miss key w produce).workspace.files ∧
      c.Keeps key S (c.miss key w produce) := by
  obtain ⟨spares, tidy₁⟩ := leaves w ready.sound ready.placed tidy
  simp only [miss, populate]
  rcases made : produce w with ⟨w₁, e | script⟩
  · rw [made] at spares
    exact ⟨.of_spares spares, .fewer (List.Sublist.refl _)⟩
  · rw [made] at spares tidy₁
    obtain ⟨advances, founded⟩ := record_keeps (ready.later spares) tidy₁ script
    simp only
    rcases recorded : record c.store script w₁ with ⟨store, w₂, e | entry⟩
    · rw [recorded] at advances
      exact ⟨advances.after spares, .fewer (List.Sublist.refl _)⟩
    · rw [recorded] at advances founded
      refine ⟨(advances.after spares).released entry.libraries,
        .founded entry rfl absent rfl fun id named => ?_⟩
      obtain ⟨fresh, issued, stocked, copy⟩ := (founded entry rfl id named).released
      exact ⟨fresh, issued, stocked, copy⟩

theorem acquire_keeps (ready : c.Ready w.files S) (tidy : w.Tidy S) {produce : Producer ε}
    (leaves : produce.LeavesStore c.store.root S)
    (plain : ∀ entry, c.find? key = some entry → ∀ id, entry.libraries.directory = some id →
      ∀ name ∈ entry.libraries.names.names, PlainName name) (binding : Bindings) :
    c.store.Advances (c.acquire key binding w produce).cache.store S w.files
        (c.acquire key binding w produce).workspace.files ∧
      c.Keeps key S (c.acquire key binding w produce) := by
  unfold acquire
  cases found : c.find? key with
  | none => exact miss_keeps found ready tidy leaves
  | some entry =>
    have tidy₁ : (w.println "Extract script from cache").Tidy S := ⟨tidy.begins, tidy.apart, tidy.plain⟩
    have sound₁ : (w.println "Extract script from cache").files.Sound := ready.sound
    obtain ⟨spares, tidy₂⟩ := LibraryStore.extract_spares c.store entry.libraries sound₁ tidy₁
      (plain entry found)
    have files : w.files = (w.println "Extract script from cache").files := rfl
    rw [files] at ready ⊢
    generalize w.println "Extract script from cache" = w₁ at spares tidy₂ ready
    simp only [extract]
    rcases extracted : c.store.extract entry.libraries w₁ with ⟨w₂, e | urls⟩
    · rw [extracted] at spares tidy₂
      have ready₂ := ready.later spares
      obtain ⟨later, -⟩ := leaves w₂ ready₂.sound ready₂.placed tidy₂
      exact ⟨.of_spares (spares.trans later), .fewer List.filter_sublist⟩
    · rw [extracted] at spares
      exact ⟨.of_spares spares, .fewer (List.Sublist.refl _)⟩

end ScriptCache
end FlowScript
