import FlowScript.Proofs.Overlays
import FlowScript.Proofs.Partition
import FlowScript.Proofs.Replaying
import FlowScript.Proofs.Stocking

/-! Libraries on their way through the store. What a run has in a library is copied into a fresh child of the
store, and from there into a later run, in the same place with the same bytes. Several libraries may lie in one
another, and the later run may have files there already. -/
namespace FlowScript

/-- Each library is found once. -/
theorem Survey.libraries_nodup (root : Path) (names : List String) (urls : List Url) :
    ((Survey.ofClasspath root names urls).libraries.map Prod.fst).Nodup := by
  induction urls with
  | nil => exact List.nodup_nil
  | cons url urls ih =>
    simp only [ofClasspath]
    split
    · exact List.nodup_nil
    · exact ih
    · rw [List.map_cons, List.nodup_cons]
      refine ⟨fun member => ?_, ih.sublist (List.filter_sublist.map _)⟩
      obtain ⟨library, inside, same⟩ := List.mem_map.1 member
      simp [same] at inside

namespace LibraryStore
open FileTree

variable {s s' s₂ : LibraryStore} {names : List String} {w w₁ w₂ w₃ : Workspace} {kept : CachedLibraries}
  {source target : Path} {S F R : Location}

/-! ### Chains of copies -/

/-- The lines that the copying of libraries leaves. -/
def copyLine (source target : Path) (name : String) : String :=
  "Cache library " ++ (source.joinName name).text ++ " to " ++ (target.joinName name).text

theorem copyLibraries_copies {libraries : List (String × Path)}
    (named : ∀ library ∈ libraries, library.2 = source.joinName library.1)
    (copied : copyLibraries target libraries w = (w₁, .ok ())) :
    Copies source target w.files (libraries.map Prod.fst) w₁.files ∧
      w₁.execution.log = w.execution.log ++ libraries.map fun library => copyLine source target library.1 := by
  induction libraries generalizing w with
  | nil =>
    obtain ⟨rfl, -⟩ := Prod.mk.inj copied
    exact ⟨.nil, (List.append_nil _).symm⟩
  | cons library libraries ih =>
    obtain ⟨name, path⟩ := library
    obtain ⟨same, others⟩ := List.forall_mem_cons.1 named
    obtain rfl : path = source.joinName name := same
    simp only [copyLibraries_cons] at copied
    split at copied
    · cases (Prod.mk.inj copied).2
    · next files n done =>
      obtain ⟨rest, log⟩ := ih others copied
      refine ⟨.cons done rest, log.trans ?_⟩
      rw [List.map_cons, List.append_cons]
      rfl

/-- A harvest that succeeds has copied each kept library once. -/
theorem harvest_copies (harvested : s.harvest names w = (s', w₁, .ok kept)) :
    ∃ copied : List String, copied.Nodup ∧ (∀ name, name ∈ copied ↔ name ∈ kept.names.names) ∧
      (∀ id, kept.directory = some id → copied ≠ [] ∧ id = s.nextId) ∧
      Copies w.execution.libraryRoot (s.directory s.nextId) w.files copied w₁.files ∧
      w₁.execution.log = w.execution.log ++
        copied.map (copyLine w.execution.libraryRoot (s.directory s.nextId)) := by
  unfold harvest at harvested
  have once := Survey.libraries_nodup w.execution.root names w.execution.classpath
  have named : ∀ library ∈ (Survey.ofClasspath w.execution.root names w.execution.classpath).libraries,
      library.2 = w.execution.libraryRoot.joinName library.1 := fun library member =>
    (Survey.mem_libraries member).2
  generalize Survey.ofClasspath w.execution.root names w.execution.classpath = survey at harvested once named
  simp only at harvested
  split at harvested
  · cases (Prod.mk.inj (Prod.mk.inj harvested).2).2
  · cases (Prod.mk.inj (Prod.mk.inj harvested).2).2
  · next copied _ =>
    obtain ⟨-, pair⟩ := Prod.mk.inj harvested
    obtain ⟨rfl, answer⟩ := Prod.mk.inj pair
    obtain rfl := Except.ok.inj answer
    obtain ⟨copies, log⟩ := copyLibraries_copies named copied
    refine ⟨_, once, fun name => ?_, fun id named => ?_, copies, ?_⟩
    · rw [Entries.mem_names_ofPairs, List.map_map]
      rfl
    · simp only [Option.ite_none_left_eq_some, Option.some.injEq] at named
      exact ⟨fun none => named.1 (by simpa using none), named.2.symm⟩
    · rw [log, List.map_map]
      rfl

theorem Unpacks.copies (unpacks : Unpacks source target files names found files') :
    Copies source target files names files' := by
  induction unpacks with
  | nil => exact .nil
  | cons copied _ _ ih => exact .cons copied ih

/-! ### The way there -/

/-- A run with a directory of its own, in which there are no links, before its libraries are kept in a fresh
child of a store elsewhere. -/
structure Founding (s : LibraryStore) (S F : Location) (w : Workspace) : Prop where
  sound : w.files.Sound
  begins : w.files.Begins s.root
  store : ∀ l, w.files.Leads (w.files.start s.root) s.root.parts l → l = S
  word : IsPlain s.nextId ∧ IsClean s.nextId
  fresh : ∀ m, w.files.node? (S ++ s.nextId :: m) = none
  home : ∀ l, w.files.Leads (w.files.start w.execution.root) w.execution.root.parts l → l = F
  apart : ¬S <+: F ∧ ¬F <+: S
  aside : ∀ l, w.files.OnWay s.root l → w.files.node? l = none → ¬F ++ ["libs"] <+: l
  plain : w.files.Unlinked F

theorem leads_of_directory? {t : FileTree} {p : Path} (there : t.directory? p = some F) (l : Location)
    (leads : t.Leads (t.start p) p.parts l) : l = F :=
  leads.unique (resolve_leads (directory?_eq_some.1 there))

theorem Founding.transfer (founding : s.Founding S F w) (normal : ∀ name ∈ names, (Path.mk name).Normal) :
    w.files.Transfer w.execution.libraryRoot (s.directory s.nextId) (F ++ ["libs"]) (S ++ [s.nextId]) names := by
  have unlinked : w.files.Unlinked (S ++ [s.nextId]) := fun m target there => by
    rw [List.append_assoc] at there
    cases there.symm.trans (founding.fresh m)
  exact .of_words (libs_isName.imp_left IsName.toIsPlain) founding.word normal founding.sound
    founding.begins founding.home founding.store founding.aside founding.apart.2 founding.apart.1
    (fun m target => by
      rw [List.append_assoc]
      exact founding.plain _ target)
    (fun name _ => unlinked.linkless _) fun name _ rel node _ => unlinked.linkless _

/-- A harvest that succeeds lets the files grow. -/
theorem Founding.grows (founding : s.Founding S F w) (harvested : s.harvest names w = (s', w₁, .ok kept)) :
    FileTree.Grows (fun _ _ => True) w.files w₁.files := by
  obtain ⟨copied, -, -, -, copies, -⟩ := harvest_copies harvested
  exact copies.grows founding.sound (begins_join founding.begins _)

/-- What a harvest has left in the child of the store. Each library is there, and all files are those of the
run. -/
structure Deposited (before after : FileTree) (A B : Location) (names : List String) : Prop where
  made : ∀ name ∈ names, after.node? (B ++ stepsOf name) = some .directory
  copied : ∀ name ∈ names, ∀ rel node, rel ≠ [] → before.node? (A ++ (stepsOf name ++ rel)) = some node →
    after.node? (B ++ (stepsOf name ++ rel)) = some node
  faithful : ∀ rel content, after.node? (B ++ rel) = some (.file content) →
    before.node? (A ++ rel) = some (.file content)
  unlinked : after.Unlinked B

theorem Founding.keeps (founding : s.Founding S F w) (normal : ∀ name ∈ names, (Path.mk name).Normal)
    (copies : Copies w.execution.libraryRoot (s.directory s.nextId) w.files names files) :
    Deposited w.files files (F ++ ["libs"]) (S ++ [s.nextId]) names := by
  obtain ⟨grows, all⟩ := (founding.transfer normal).copies copies
  have fresh : ∀ rel, w.files.node? (S ++ [s.nextId] ++ rel) = none := fun rel => by
    rw [List.append_assoc]
    exact founding.fresh rel
  refine ⟨fun name member => (all name member).1, fun name member => (all name member).2,
    fun rel content there => ?_, fun m target there => ?_⟩
  · rcases grows.node (S ++ [s.nextId] ++ rel) with same | ⟨node, came, ⟨name, member, receives⟩, -⟩
    · cases there.symm.trans (same.trans (fresh rel))
    · obtain rfl := Option.some.inj (there.symm.trans came)
      rcases receives with ⟨-, is⟩ | ⟨rel', -, same, origin⟩
      · cases is
      · rw [List.append_assoc _ _ rel'] at same origin
        obtain rfl := List.append_cancel_left same
        exact origin
  · cases ((grows.link_iff _ target).1 there).symm.trans (fresh m)

/-! ### The way back -/

/-- A later run in a directory of its own, which the kept libraries are handed to. The directory need not be there
yet. If it is, it may have any files in it, but no links at `libs`, nor on the way from there to what the store
holds in a library. -/
structure Receiving (s : LibraryStore) (id : String) (S R : Location) (names : List String) (w : Workspace) :
    Prop where
  sound : w.files.Sound
  store : ∀ l, w.files.Leads (w.files.start s.root) s.root.parts l → l = S
  begins : w.files.Begins w.execution.root
  home : ∀ l, w.files.Leads (w.files.start w.execution.root) w.execution.root.parts l → l = R
  aside : ∀ l, w.files.OnWay w.execution.root l → w.files.node? l = none → ¬S ++ [id] <+: l
  apart : ¬S <+: R ∧ ¬R <+: S
  clear : ∀ name ∈ names, ∀ rel node, w.files.node? (S ++ id :: (stepsOf name ++ rel)) = some node →
    w.files.Linkless R ("libs" :: (stepsOf name ++ rel))

variable {id : String}

theorem Receiving.linkless (receiving : s.Receiving id S R names w) {name : String} (member : name ∈ names)
    (made : w.files.node? (S ++ [id] ++ stepsOf name) = some .directory) :
    w.files.Linkless R ("libs" :: stepsOf name) := by
  have clear := receiving.clear name member []
  rw [List.append_nil] at clear
  rw [List.append_assoc] at made
  exact clear _ made

/-- What is missing on the way to a library is on the way to the run, or below `libs`. -/
theorem Receiving.missing (receiving : s.Receiving id S R names w) {name : String} {l : Location}
    (normal : Path.Normal ⟨name⟩) (linkless : w.files.Linkless R ("libs" :: stepsOf name))
    (onWay : w.files.OnWay (w.execution.libraryRoot.joinName name) l) :
    w.files.OnWay w.execution.root l ∨ R ++ ["libs"] <+: l := by
  refine (onWay_word (libs_isName.imp_left IsName.toIsPlain) normal receiving.home linkless onWay).imp_right ?_
  rintro ⟨m, -, rfl⟩
  exact ⟨m, by simp⟩

theorem Receiving.transfer (receiving : s.Receiving id S R names w)
    (normal : ∀ name ∈ names, (Path.mk name).Normal) (word : IsPlain id ∧ IsClean id)
    (unlinked : w.files.Unlinked (S ++ [id]))
    (made : ∀ name ∈ names, w.files.node? (S ++ [id] ++ stepsOf name) = some .directory) :
    w.files.Transfer (s.directory id) w.execution.libraryRoot (S ++ [id]) (R ++ ["libs"]) names := by
  refine .of_words word (libs_isName.imp_left IsName.toIsPlain) normal receiving.sound receiving.begins
    receiving.store receiving.home receiving.aside receiving.apart.1 receiving.apart.2 unlinked
    (fun name member => ?_) receiving.clear
  exact receiving.linkless member (made name member)

/-- What a later run has got. The files of the libraries are in their places, and nothing else has changed but
that directories have come below `libs` or, where they were missing, on the way to the run. -/
structure Handed (founding before after : FileTree) (A : Location) (root : Path) (R : Location)
    (names : List String) : Prop where
  copied : ∀ name ∈ names, ∀ rel content, rel ≠ [] →
    founding.node? (A ++ (stepsOf name ++ rel)) = some (.file content) →
      after.node? (R ++ "libs" :: (stepsOf name ++ rel)) = some (.file content)
  untouched : ∀ l, after.node? l = before.node? l ∨
    (before.node? l = none ∧ after.node? l = some .directory ∧ (before.OnWay root l ∨ R ++ ["libs"] <+: l)) ∨
    ∃ name ∈ names, ∃ rel content, rel ≠ [] ∧ l = R ++ "libs" :: (stepsOf name ++ rel) ∧
      founding.node? (A ++ (stepsOf name ++ rel)) = some (.file content) ∧ after.node? l = some (.file content)

theorem Receiving.handed {founding kept₁ : FileTree} {A : Location} (receiving : s.Receiving id S R names w)
    (normal : ∀ name ∈ names, (Path.mk name).Normal) (word : IsPlain id ∧ IsClean id)
    (kept : Deposited founding kept₁ A (S ++ [id]) names)
    (intact : ∀ m, w.files.node? (S ++ [id] ++ m) = kept₁.node? (S ++ [id] ++ m))
    (copies : Copies (s.directory id) w.execution.libraryRoot w.files names files) :
    Handed founding w.files files A w.execution.root R names := by
  have unlinked : w.files.Unlinked (S ++ [id]) := fun m target there =>
    kept.unlinked m target ((intact m).symm.trans there)
  have made : ∀ name ∈ names, w.files.node? (S ++ [id] ++ stepsOf name) = some .directory :=
    fun name member => (intact _).trans (kept.made name member)
  obtain ⟨grows, all⟩ := (receiving.transfer normal word unlinked made).copies copies
  refine ⟨fun name member rel content some there => ?_, fun l => ?_⟩
  · have there := (intact _).trans (kept.copied name member rel _ some there)
    have now := (all name member).2 rel _ some there
    rwa [List.append_assoc] at now
  · rcases grows.node l with same | ⟨node, came, ⟨name, member, receives⟩, raises⟩
    · exact .inl same
    · refine .inr ?_
      rcases receives with ⟨onWay, rfl⟩ | ⟨rel, some, rfl, origin⟩
      · refine .inl ⟨raises.none_of_directory, came, ?_⟩
        exact receiving.missing (normal name member) (receiving.linkless member (made name member)) onWay
      · cases node with
        | directory =>
          refine .inl ⟨raises.none_of_directory, came, .inr ?_⟩
          rw [List.append_assoc]
          exact List.prefix_append _ _
        | link target =>
          generalize w.files.node? _ = before at raises
          cases raises
        | file content =>
          rw [List.append_assoc _ (stepsOf name)] at origin
          refine .inr ⟨name, member, rel, content, some, by simp, ?_, came⟩
          exact kept.faithful _ content ((intact _).symm.trans origin)

end LibraryStore
open LibraryStore FileTree

/-- The trees of libraries survive the store. A run keeps its libraries, which are named by paths of names, and
what it has kept is handed to a later run, whatever else has happened in between. Then the names on record are
those of the libraries that the classpath of the first run lies in, each by the longest of the declared places;
each has been copied once, and each file that was below its place stands there in the later run with the same
bytes. All else in the later run is as it was, but for directories that have come below `libs`, or on the way to
the run where its own directory was not there yet. Its classpath gets what was shared, in its order, and then the
parts that are there of each library, in the order of the names. -/
theorem libraries_survive {s s' s₂ : LibraryStore} {names : List String} {w w₁ w₂ w₃ : Workspace}
    {kept : CachedLibraries} {urls : List Url} {S F R : Location}
    (founding : s.Founding S F w) (normal : ∀ name ∈ names, (Path.mk name).Normal)
    (harvested : s.harvest names w = (s', w₁, .ok kept)) (sameRoot : s₂.root = s.root)
    (intact : ∀ m, w₂.files.node? (S ++ s.nextId :: m) = w₁.files.node? (S ++ s.nextId :: m))
    (receiving : s₂.Receiving s.nextId S R kept.names.names w₂)
    (extracted : s₂.extract kept w₂ = (w₃, .ok urls)) :
    kept.names.names.Pairwise (· < ·) ∧
    (∀ name, name ∈ kept.names.names ↔ ∃ url ∈ w.execution.classpath, ∃ file,
      Placement.LiesIn url w.execution.root file ∧ Placement.Houses w.execution.root file names name) ∧
    (∃ copied : List String, copied.Nodup ∧ (∀ name, name ∈ copied ↔ name ∈ kept.names.names) ∧
      Copies w.execution.libraryRoot (s.directory s.nextId) w.files copied w₁.files ∧
      w₁.execution.log = w.execution.log ++
        copied.map (copyLine w.execution.libraryRoot (s.directory s.nextId))) ∧
    Handed w.files w₂.files w₃.files (F ++ ["libs"]) w₂.execution.root R kept.names.names ∧
    ∃ found, urls = w.execution.classpath.filter (w.execution.shares names) ++ found ∧
      Unpacks (s.directory s.nextId) w₂.execution.libraryRoot w₂.files kept.names.names found w₃.files := by
  have keeps := harvest_keeps harvested
  obtain ⟨copied, once, same, -, copies, log⟩ := harvest_copies harvested
  obtain ⟨found, located, unpacks⟩ := extract_unpacks keeps extracted
  have directory : s₂.directory s.nextId = s.directory s.nextId := by
    rw [LibraryStore.directory, LibraryStore.directory, sameRoot]
  have declared : ∀ name ∈ kept.names.names, name ∈ names := by
    intro name member
    obtain ⟨url, -, path, placed⟩ := (keeps.libraries name).1 member
    exact (Placement.classify_library placed).1
  have normalKept : ∀ name ∈ kept.names.names, (Path.mk name).Normal := fun name member =>
    normal name (declared name member)
  have stored := founding.keeps (fun name member => normalKept name ((same name).1 member)) copies
  have stored : Deposited w.files w₁.files (F ++ ["libs"]) (S ++ [s.nextId]) kept.names.names :=
    ⟨fun name member => stored.made name ((same name).2 member),
      fun name member => stored.copied name ((same name).2 member), stored.faithful, stored.unlinked⟩
  have handed : Handed w.files w₂.files w₃.files (F ++ ["libs"]) w₂.execution.root R kept.names.names := by
    refine receiving.handed normalKept founding.word stored (fun m => ?_) (directory ▸ unpacks.copies)
    rw [List.append_assoc]
    exact intact m
  refine ⟨keeps.sorted, fun name => ?_, ⟨copied, once, same, copies, log⟩, handed, found, ?_, directory ▸ unpacks⟩
  · rw [keeps.libraries]
    refine exists_congr fun url => and_congr_right fun _ => ⟨?_, ?_⟩
    · rintro ⟨path, placed⟩
      cases Placement.classify_eq_iff.1 placed with
      | library inside houses => exact ⟨_, inside, houses⟩
    · rintro ⟨file, inside, houses⟩
      exact ⟨_, Placement.classify_of_houses inside houses⟩
  · rw [located, keeps.urls]

/-- A library below another name is handed to a run whose directory has not been made yet. -/
theorem nested_library_survives :
    let ids n := String.ofList (List.replicate (n + 1) 'd')
    let files : FileTree := ⟨[(["s"], .directory), (["r"], .directory), (["r", "libs"], .directory),
      (["r", "libs", "a"], .directory), (["r", "libs", "a", "b"], .directory),
      (["r", "libs", "a", "b", "x"], .file ⟨#[1]⟩), (["q"], .directory), (["q", "y"], .file ⟨#[2]⟩)], []⟩
    let s : LibraryStore := .create ⟨"/s"⟩ ids
    let run := (Execution.create 0 "job" ⟨"/r"⟩).addClasspath (.ofSegments ["r", "libs", "a", "b", "src", ""])
    let w : Workspace := ⟨files, .empty, run⟩
    let w₁ := (s.harvest ["a/b"] w).2.1
    let kept : CachedLibraries := ⟨some "d", [], [("a/b", ())]⟩
    let w₂ : Workspace := ⟨w₁.files, .empty, .create 1 "job" ⟨"/q/n"⟩⟩
    let w₃ := (s.extract kept w₂).1
    s.Founding ["s"] ["r"] w ∧ (s.harvest ["a/b"] w).2.2 = .ok kept ∧
      w₂.files.directory? w₂.execution.root = none ∧
      s.Receiving s.nextId ["s"] ["q", "n"] kept.names.names w₂ ∧ (s.extract kept w₂).2 = .ok [] ∧
      Handed w.files w₂.files w₃.files (["r"] ++ ["libs"]) w₂.execution.root ["q", "n"] kept.names.names ∧
      w₃.files.node? ["q", "n", "libs", "a", "b", "x"] = some (.file ⟨#[1]⟩) := by
  intro ids files s run w w₁ kept w₂ w₃
  have regular : files.Regular := by decide +kernel
  have unlinked : files.Unlinked [] := fun m target => regular.unlinked _ target
  have written : Written s.root ["s"] := ⟨by decide +kernel, by decide, by decide⟩
  have founding : s.Founding ["s"] ["r"] w := {
    sound := regular.sound
    begins := (written.placed unlinked).begins
    store := (written.placed unlinked).leads
    word := by decide +kernel
    fresh := fun m => by
      have next : s.nextId = "d" := by decide +kernel
      simp [next, w, files, FileTree.node?, List.lookup_cons]
    home := leads_of_directory? (by decide +kernel)
    apart := by decide
    aside := fun l onWay none inside => by
      have front : l <+: ["s"] ++ [] := written.passes unlinked (by simp) (by simpa using passes_trunk.2 onWay)
      exact absurd (inside.trans front) (by decide)
    plain := fun m target => regular.unlinked _ target }
  have normal : ∀ name ∈ ["a/b"], (Path.mk name).Normal := by
    intro name member
    obtain rfl := List.mem_singleton.1 member
    have components : (Path.mk "a/b").components = [.name "a", .name "b"] := by decide +kernel
    simp [Path.Normal, components]
  have answer : (s.harvest ["a/b"] w).2.2 = .ok kept := by decide +kernel
  have harvested : s.harvest ["a/b"] w = ((s.harvest ["a/b"] w).1, w₁, .ok kept) := by rw [← answer]
  have handed : (s.extract kept w₂).2 = .ok [] := by decide +kernel
  have extracted : s.extract kept w₂ = (w₃, .ok []) := by rw [← handed]
  have missing : w₂.files.directory? w₂.execution.root = none := by decide +kernel
  have later : Written w₂.execution.root ["q", "n"] := ⟨by decide +kernel, by decide, by decide⟩
  have next : s.nextId = "d" := by decide +kernel
  have steps : stepsOf "a/b" = ["a", "b"] := by decide +kernel
  clear_value w₃ w₁
  have grows := founding.grows harvested
  have unlinked₁ := grows.unlinked unlinked
  have receiving : s.Receiving s.nextId ["s"] ["q", "n"] kept.names.names w₂ := {
    sound := grows.sound founding.sound
    store := (grows.placed (written.placed unlinked)).leads
    begins := (later.placed unlinked₁).begins
    home := (later.placed unlinked₁).leads
    aside := fun l onWay none inside => by
      have front : l <+: ["q", "n"] ++ [] := later.passes unlinked₁ (by simp) (by simpa using passes_trunk.2 onWay)
      rw [next] at inside
      exact absurd (inside.trans front) (by decide)
    apart := by decide
    clear := fun _ _ _ _ _ m _ _ target => unlinked₁ (["q", "n"] ++ m) target }
  have intact : ∀ m, w₂.files.node? (["s"] ++ s.nextId :: m) = w₁.files.node? (["s"] ++ s.nextId :: m) :=
    fun _ => rfl
  have whole := libraries_survive founding normal harvested rfl intact receiving extracted
  have survived := whole.2.2.2.1
  have there := survived.copied "a/b" (by decide) ["x"] ⟨#[1]⟩ (by decide)
  rw [steps] at there
  exact ⟨founding, answer, missing, receiving, handed, survived, there rfl⟩

/-- A later run may have a link in the place of a file that is handed to it. The bytes then go where the link
leads. -/
theorem handed_file_can_go_through_a_link :
    let ids n := String.ofList (List.replicate (n + 1) 'd')
    let files : FileTree := ⟨[(["s"], .directory), (["r"], .directory), (["r", "libs"], .directory),
      (["r", "libs", "a"], .directory), (["r", "libs", "a", "x"], .file ⟨#[1]⟩), (["q"], .directory),
      (["q", "notes"], .file ⟨#[2]⟩), (["q", "libs"], .directory), (["q", "libs", "a"], .directory),
      (["q", "libs", "a", "x"], .link ⟨"../../notes"⟩)], []⟩
    let s : LibraryStore := .create ⟨"/s"⟩ ids
    let run := (Execution.create 0 "job" ⟨"/r"⟩).addClasspath (.ofSegments ["r", "libs", "a", ""])
    let harvest := s.harvest ["a"] ⟨files, .empty, run⟩
    let kept : CachedLibraries := ⟨some "d", [], [("a", ())]⟩
    let extract := s.extract kept ⟨harvest.2.1.files, .empty, .create 1 "job" ⟨"/q"⟩⟩
    harvest.2.2 = .ok kept ∧ extract.2 = .ok [] ∧
      (harvest.2.1.files.readBytes ⟨"/q/notes"⟩).toOption = some ⟨#[2]⟩ ∧
      (extract.1.files.readBytes ⟨"/q/notes"⟩).toOption = some ⟨#[1]⟩ := by
  decide +kernel

end FlowScript
