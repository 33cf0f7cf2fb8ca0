import FlowScript.Proofs.FreshCopies

/-! What runs get from a store. A run writes below its own directory only, and gets the libraries of an
entry where these are in the store and nothing is in the way. -/
namespace FlowScript

namespace Path

theorem components_of_isAbsolute {p : Path} (absolute : p.isAbsolute = true) :
    ∃ rest, p.components = .root :: rest := by
  unfold components
  cases parts : p.parts with
  | nil => exact absurd parts (Text.split_ne_nil _ _)
  | cons first rest =>
    simp only [absolute, if_true]
    exact ⟨_, rfl⟩

end Path

theorem directoryUrl_succeeds {p : Path} (absolute : p.isAbsolute = true) :
    ∃ url, directoryUrl p = .ok url := by
  obtain ⟨rest, components⟩ := Path.components_of_isAbsolute absolute
  simp only [directoryUrl, Url.ofDirectory?, Url.fileSegments?, components, Option.map_some,
    Option.elim_some]
  exact ⟨_, rfl⟩

namespace LibraryStore
open FileTree

variable {w w' : Workspace} {root : Path} {S R : Location} {id : String} {names : List String}

theorem resourceUrls_succeeds {library : Path} (absolute : library.isAbsolute = true) (files : FileTree) :
    ∃ urls, resourceUrls files library = .ok urls := by
  have roots : ∀ p ∈ (resourceRoots.map library.joinName).filter files.isDirectory,
    ∃ url, directoryUrl p = .ok url := by
    intro p member
    obtain ⟨name, root, rfl⟩ := List.mem_map.1 (List.mem_filter.1 member).1
    refine directoryUrl_succeeds ?_
    have relative : Path.isAbsolute ⟨name⟩ = false := by
      simp only [resourceRoots, List.mem_cons, List.not_mem_nil, or_false] at root
      rcases root with rfl | rfl <;> decide
    rw [Path.joinName, Path.isAbsolute_join relative, absolute]
  unfold resourceUrls
  generalize (resourceRoots.map library.joinName).filter files.isDirectory = paths at roots
  induction paths with
  | nil => exact ⟨[], rfl⟩
  | cons p paths ih =>
    obtain ⟨⟨url, first⟩, others⟩ := List.forall_mem_cons.1 roots
    obtain ⟨urls, rest⟩ := ih others
    exact ⟨url :: urls, by rw [List.mapM_cons, first, rest]; rfl⟩

theorem begins_libraryRoot (begins : w.files.Begins w.execution.root) :
    w.files.Begins w.execution.libraryRoot := begins_join begins _

theorem extractFrom_grows (sound : w.files.Sound) (begins : w.files.Begins w.execution.root)
    (plain : ∀ name ∈ names, PlainName name) (source : Path) (urls : List Url) :
    GrowsBelow w.execution.libraryRoot w.files (extractFrom source names urls w).1.files := by
  induction names generalizing urls w with
  | nil => exact .refl _ _
  | cons name names ih =>
    obtain ⟨first, others⟩ := List.forall_mem_cons.1 plain
    have grows : GrowsBelow w.execution.libraryRoot w.files
        (w.files.copyTree (source.joinName name) (w.execution.libraryRoot.joinName name)).1 := by
      rw [joinName_eq w.execution.libraryRoot]
      exact (copyTree_grows sound _ (first.writable.begins_join (begins_libraryRoot begins))).imp
        fun l _ => .of_join first.writable
    simp only [extractFrom_cons, Workspace.println]
    have root :
        (w.execution.println ("Extract cached library from " ++ (source.joinName name).text ++ " to " ++
      (w.execution.libraryRoot.joinName name).text)).root = w.execution.root := rfl
    generalize w.execution.println _ = execution at root ⊢
    split
    · next failed => rwa [failed] at grows
    · next files k copied =>
      rw [copied] at grows
      split
      · exact grows
      · next found _ =>
        have later := @ih ⟨files, w.heap, execution⟩ (grows.sound sound) (root ▸ grows.begins begins) others
          (urls ++ found)
        rw [Execution.libraryRoot, root] at later
        exact grows.trans later

theorem extract_grows (s : LibraryStore) (kept : CachedLibraries) (sound : w.files.Sound)
    (begins : w.files.Begins w.execution.root)
    (plain : ∀ id, kept.directory = some id → ∀ name ∈ kept.names.names, PlainName name) :
    GrowsBelow w.execution.libraryRoot w.files (s.extract kept w).1.files := by
  unfold extract
  cases named : kept.directory with
  | none => exact .refl _ _
  | some id =>
    simp only
    split
    · exact extractFrom_grows sound begins (plain id named) _ _
    · exact .refl _ _

theorem extractFrom_succeeds {base : Path} {libs : List String}
    (u : w.files.Unpacking root S id w.execution.libraryRoot base R libs)
    (absolute : w.execution.root.isAbsolute = true)
    (there : ∀ name ∈ names, PlainName name ∧
      w.files.node? (S ++ id :: Text.split '/' name) = some .directory)
    (urls : List Url) : ∃ w' urls', extractFrom (root.joinName id) names urls w = (w', .ok urls') := by
  induction names generalizing urls w with
  | nil => exact ⟨w, urls, rfl⟩
  | cons name names ih =>
    obtain ⟨⟨plain, first⟩, others⟩ := List.forall_mem_cons.1 there
    obtain ⟨files, n, copied, u', grows⟩ := u.copyTree (Text.split_ne_nil _ _) first
    have isName := u.child_named first id (by simp)
    have absolute' : (w.execution.libraryRoot.joinName name).isAbsolute = true := by
      rw [joinName_eq, Path.isAbsolute_join plain.writable.relative, Execution.libraryRoot, Path.joinName,
        Path.isAbsolute_join (by decide), absolute]
    obtain ⟨found, roots⟩ := resourceUrls_succeeds absolute' files
    rw [← child_join (isName.imp_left IsName.toIsPlain) plain.writable, ← joinName_eq, ← joinName_eq]
      at copied
    simp only [extractFrom_cons, Workspace.println, copied, roots]
    have same :
        (w.execution.println ("Extract cached library from " ++ ((root.joinName id).joinName name).text ++
      " to " ++ (w.execution.libraryRoot.joinName name).text)).root = w.execution.root := rfl
    generalize w.execution.println _ = execution at same ⊢
    rw [Execution.libraryRoot, ← same] at u'
    exact @ih ⟨files, w.heap, execution⟩ u' (same ▸ absolute)
      (fun name member => ⟨(others name member).1, (u.same grows _).trans (others name member).2⟩)
        (urls ++ found)

/-! ### Entries whose libraries are in the store -/

/-- The libraries of an entry stand in the store: its directory is there, and in it those of the libraries. -/
structure Stocked (files : FileTree) (root : Path) (S : Location) (kept : CachedLibraries)
    (id : String) : Prop where
  reaches : files.Reaches root S
  unlinked : files.Unlinked (S ++ [id])
  directory : files.node? (S ++ [id]) = some .directory
  libraries : ∀ name ∈ kept.names.names, PlainName name ∧
    files.node? (S ++ id :: Text.split '/' name) = some .directory

/-- A run whose `libs` stays out of the store and has room for what stands in one of its children. The path of
`libs` is that of a directory with names behind it, where there are directories or nothing; and nothing of
another kind is in the place of a directory or of a file of the child. -/
structure HasRoom (files : FileTree) (S : Location) (id : String) (run : Path) : Prop where
  absolute : run.isAbsolute = true
  apart : files.Apart S (run.joinName "libs")
  place : ∃ base d libs, files.directory? base = some d ∧ Extends (run.joinName "libs") base libs ∧
    (∀ name ∈ libs, IsName name ∧ IsClean name) ∧ files.Clear d libs ∧
      ∀ rel node, files.node? (S ++ id :: rel) = some node →
        files.node? (d ++ (libs ++ rel)) = none ∨ Copied node (files.node? (d ++ (libs ++ rel)))

/-- Where names on the way to `libs` are missing, there is room. -/
theorem HasRoom.of_none {files : FileTree} {run base : Path} {d : Location} {name : String}
    {more : List String} (sound : files.Sound) (absolute : run.isAbsolute = true)
    (apart : files.Apart S (run.joinName "libs")) (home : files.directory? base = some d)
    (place : Extends (run.joinName "libs") base (name :: more))
    (named : ∀ word ∈ name :: more, IsName word ∧ IsClean word) (none : files.node? (d ++ [name]) = none) :
    HasRoom files S id run := by
  have below : ∀ rel, files.node? (d ++ name :: rel) = Option.none := by
    intro rel
    cases there : files.node? (d ++ name :: rel) with
    | none => rfl
    | some node =>
      by_cases whole : rel = []
      · rw [whole] at there
        exact nomatch there.symm.trans none
      · have there : files.node? (d ++ ([name] ++ rel)) = some node := there
        exact nomatch (sound.above there whole).symm.trans none
  refine ⟨absolute, apart, base, d, name :: more, home, place, named, fun m front nonempty => .inl ?_,
    fun rel node _ => .inl (below _)⟩
  cases m with
  | nil => exact absurd rfl nonempty
  | cons word m =>
    obtain ⟨rfl, -⟩ := List.cons_prefix_cons.1 front
    exact below m

theorem Stocked.directory? {files : FileTree} (stocked : Stocked files root S kept id)
    (sound : files.Sound) :
    files.directory? (root.joinName id) = some (S ++ [id]) := by
  have isName : ∀ name ∈ [id], IsName name ∧ IsClean name :=
    (List.forall_mem_append.1 (sound.isName stocked.directory)).2
  have found : files.directory? (root.join (pathOfNames [id])) = some (S ++ [id]) := by
    refine stocked.reaches.directory?_join (writable_name (isName id (by simp))) isName ?_
    intro m front nonempty
    rcases List.prefix_concat_iff.1 (show m <+: [] ++ [id] from front) with rfl | front
    · exact stocked.directory
    · exact absurd (List.prefix_nil.1 front) nonempty
  exact found

/-- The libraries of an entry that stand in the store are handed out to a run that has room for them. -/
theorem extract_succeeds {s : LibraryStore} {kept : CachedLibraries} (sound : w.files.Sound)
    (stocked : ∀ id, kept.directory = some id → Stocked w.files s.root S kept id)
    (room : ∀ id, kept.directory = some id → HasRoom w.files S id w.execution.root) :
    ∃ w' urls, s.extract kept w = (w', .ok urls) := by
  unfold extract
  cases named : kept.directory with
  | none => exact ⟨w, kept.urls, rfl⟩
  | some id =>
    have stocked := stocked id named
    obtain ⟨absolute, apart, base, d, libs, home, place, isName, clear, room⟩ := room id named
    have unpacking : w.files.Unpacking s.root S id w.execution.libraryRoot base d libs := {
      sound
      begins := begins_of_isAbsolute (place.isAbsolute isName (by
        rw [Path.joinName, Path.isAbsolute_join (by decide), absolute])) _
      store := stocked.reaches
      home := reaches_of_directory? home
      place
      named := isName
      apart
      clear
      kept := stocked.unlinked
      room }
    have found := isDirectory_iff.2 ⟨_, stocked.directory? sound⟩
    simp only [LibraryStore.directory, found, if_true]
    exact extractFrom_succeeds unpacking absolute stocked.libraries kept.urls

end LibraryStore

/-- An entry whose libraries stand in the store is a hit for a run that has room for them. -/
theorem ScriptCache.acquire_hits {c : ScriptCache} {w : Workspace} (found : c.find? key = some entry)
    (sound : w.files.Sound)
    (stocked : ∀ id, entry.libraries.directory = some id →
      LibraryStore.Stocked w.files c.store.root S entry.libraries id)
    (room : ∀ id, entry.libraries.directory = some id →
      LibraryStore.HasRoom w.files S id w.execution.root) (binding : Bindings) (produce : Producer ε) :
    (c.acquire key binding w produce).route = .hit := by
  obtain ⟨w', urls, extracted⟩ := LibraryStore.extract_succeeds (s := c.store)
    (w := w.println "Extract script from cache") sound stocked room
  simp only [acquire, found, extract, extracted]

end FlowScript
