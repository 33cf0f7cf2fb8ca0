import FlowScript.Proofs.Acquiring
import FlowScript.Proofs.FileCopies

/-! Copies of libraries in a store. A place among the files is left alone by all that is written below
paths that have nothing in it, and what is written below one of its children leaves the others alone. -/
namespace FlowScript

namespace FileTree

/-- The path leads to the place, if it leads anywhere, and does not lead through it. -/
structure Placed (t : FileTree) (root : Path) (S : Location) : Prop where
  begins : t.Begins root
  leads : ∀ l, t.Leads (t.start root) root.parts l → l = S
  outside : ∀ l, t.OnWay root l → S <+: l → l = S

/-- Nothing below the path is in the place. -/
def Apart (t : FileTree) (S : Location) (p : Path) : Prop := ∀ l, t.WithinWay p l → ¬ S <+: l

/-- No links are at the location or below it. -/
def Unlinked (t : FileTree) (d : Location) : Prop := ∀ m target, t.node? (d ++ m) ≠ some (.link target)

/-- On the way to the place, or in its child of that name. -/
abbrev WithinChild (t : FileTree) (root : Path) (S : Location) (id : String) (l : Location) : Prop :=
  t.OnWay root l ∨ S ++ [id] <+: l

variable {t t' : FileTree} {root p source libs : Path} {S d l place : Location} {id name : String}
  {names rel : List String} {reach : Location → FileNode → Prop} {node : FileNode}

/-! ### Places -/

theorem writable_word (word : IsPlain id ∧ IsClean id) : Writable [id] :=
  ⟨by simp, by simpa using word.1, by simpa using word.2.noSlash⟩

theorem writable_name (isName : IsName id ∧ IsClean id) : Writable [id] :=
  writable_word (isName.imp_left IsName.toIsPlain)

theorem child_join (word : IsPlain id ∧ IsClean id) (writable : Writable names) (p : Path) :
    (p.joinName id).join (pathOfNames names) = p.join (pathOfNames (id :: names)) :=
  (writable_word word).join_join writable p

theorem Grows.placed (grows : Grows reach t t') (placed : t.Placed root S) : t'.Placed root S where
  begins := grows.begins placed.begins
  leads l leads := placed.leads l (by rwa [grows.start, grows.leads_iff] at leads)
  outside l onWay := placed.outside l (grows.onWay_iff.1 onWay)

theorem Grows.apart (grows : Grows reach t t') (apart : t.Apart S p) : t'.Apart S p :=
  fun l within => apart l (grows.within_iff.1 within)

theorem Grows.unlinked (grows : Grows reach t t') (unlinked : t.Unlinked d) : t'.Unlinked d :=
  fun m target there => unlinked m target ((grows.link_iff _ target).1 there)

theorem Unlinked.linkless (unlinked : t.Unlinked (S ++ [id])) (names : List String) :
    t.Linkless S (id :: names) := by
  intro m front some target
  cases m with
  | nil => exact absurd rfl some
  | cons name m =>
    obtain ⟨rfl, -⟩ := List.cons_prefix_cons.1 front
    have none := unlinked m target
    rwa [List.append_assoc] at none

theorem Placed.leads_trunk (placed : t.Placed root S)
    (leads : t.Leads (t.start root) root.trunk l) : l = S := by
  refine placed.leads l ?_
  rcases root.parts_eq_trunk with same | blank
  · rwa [same]
  · rw [blank]
    exact leads_blank.2 leads

theorem passes_trunk : t.Passes (t.start p) p.trunk l ↔ t.OnWay p l := by
  rw [OnWay]
  rcases p.parts_eq_trunk with same | blank
  · rw [same]
  · rw [blank, passes_blank]

/-- A path that is written as the names from the root on. -/
structure Written (p : Path) (names : Location) : Prop where
  parts : p.parts = "" :: names
  plain : ∀ name ∈ names, IsPlain name
  some : names ≠ []

theorem Written.start (written : Written p d) (t : FileTree) : t.start p = [] := by
  rw [FileTree.start, if_pos ((Path.isAbsolute_iff written.parts written.some).2 rfl)]

theorem Written.trunk (written : Written p d) : p.trunk = "" :: d := by
  rw [Path.trunk_eq, written.parts]
  rw [written.parts, List.getLast?_cons_of_ne_nil written.some]
  exact fun last => (written.plain _ (List.mem_of_getLast? last)).some rfl

theorem Written.passes (written : Written p d) (unlinked : t.Unlinked [])
    (plain : ∀ name ∈ names, IsPlain name)
    (passes : t.Passes (t.start p) (p.trunk ++ names) l) : l <+: d ++ names := by
  rw [written.start, written.trunk] at passes
  obtain ⟨m, front, rfl⟩ := passes_names (List.forall_mem_append.2 ⟨written.plain, plain⟩)
    (fun m _ _ target => unlinked m target) passes.of_skip
  exact front

/-- Where there are no links, such a path is in the place that it says. -/
theorem Written.placed (written : Written p d) (unlinked : t.Unlinked []) : t.Placed p d where
  begins := by rw [Begins, written.start, node?_root]
  leads l leads := by
    rw [written.start, written.parts] at leads
    rcases Relation.ReflTransGen.cases_head leads with same | ⟨x, moves, comes⟩
    · cases (Prod.mk.inj same).2
    · obtain rfl := moves.unique (.skip (.inl rfl))
      obtain ⟨m, same, rfl⟩ := comes_names written.plain (fun m _ _ target => unlinked m target) comes
      simpa using same.symm
  outside l onWay inside := by
    have front : l <+: d ++ [] := written.passes unlinked (by simp) (by simpa using passes_trunk.2 onWay)
    exact (List.append_nil d ▸ front).eq_of_length_le inside.length_le

/-- Where there are no links, such paths are apart if none of them begins with the other. -/
theorem Written.apart (written : Written p d) (unlinked : t.Unlinked []) (above : ¬S <+: d)
    (below : ¬d <+: S) :
    t.Apart S p := by
  rintro l ⟨names, plain, passes⟩ inside
  have front := inside.trans (written.passes unlinked plain passes)
  rcases List.prefix_or_prefix_of_prefix front (List.prefix_append d names) with front | front
  · exact above front
  · exact below front

/-- Names behind the path of a place lead to what is below it. -/
theorem Placed.leads_child (placed : t.Placed root S) (unlinked : t.Unlinked (S ++ [id]))
    (plain : ∀ name ∈ id :: names, IsPlain name)
    (leads : t.Leads (t.start root) (root.trunk ++ id :: names) l) : l = S ++ id :: names := by
  obtain ⟨e, first, second⟩ := leads.of_append
  obtain rfl := placed.leads_trunk first
  obtain ⟨m, whole, rfl⟩ := comes_names plain (unlinked.linkless names) second
  rw [List.append_nil] at whole
  rw [whole]

theorem Placed.within_child (placed : t.Placed root S) (unlinked : t.Unlinked (S ++ [id]))
    (word : IsPlain id ∧ IsClean id) (within : t.WithinWay (root.joinName id) l) :
    t.WithinChild root S id l := by
  obtain ⟨names, plain, passes⟩ := within
  have writable := writable_word word
  have trunk : (root.joinName id).trunk ++ names = root.trunk ++ id :: names := by
    rw [show root.joinName id = root.join (pathOfNames [id]) from rfl, writable.join_trunk]
    simp
  rw [trunk, show t.start (root.joinName id) = t.start root from writable.join_start t root] at passes
  rcases passes.of_append with front | ⟨e, leads, behind⟩
  · exact .inl (passes_trunk.1 front)
  · obtain rfl := placed.leads_trunk leads
    have all := List.forall_mem_cons.2 ⟨word.1, plain⟩
    obtain ⟨m, front, rfl⟩ := passes_names all (unlinked.linkless names) behind
    cases m with
    | nil =>
      rw [List.append_nil]
      exact .inl (passes_trunk.1 leads.passes)
    | cons name m =>
      obtain ⟨rfl, -⟩ := List.cons_prefix_cons.1 front
      exact .inr (by simp)

/-- What reaches the child of a name leaves alone all that is in the others. -/
theorem Placed.not_within_child (placed : t.Placed root S) (other : name ≠ id) :
    ¬t.WithinChild root S id (S ++ name :: names) := by
  rintro (onWay | ⟨m, inside⟩)
  · have here := placed.outside _ onWay (List.prefix_append S _)
    simp at here
  · rw [List.append_assoc, List.append_cancel_left_eq] at inside
    exact other (List.cons.inj inside).1.symm

theorem Reaches.eq_place (reaches : t.Reaches root d) (placed : t.Placed root S) : d = S :=
  placed.leads d reaches.leads

/-- On the way to a directory there are directories, and links. -/
theorem Reaches.way (reaches : t.Reaches p d) (sound : t.Sound) (begins : t.Begins p)
    (onWay : t.OnWay p l) :
    t.node? l = some .directory ∨ ∃ target, t.node? l = some (.link target) :=
  sound.passed begins reaches.walk (passes_trunk.2 onWay)

theorem Grows.reaches (grows : Grows reach t t') (reaches : t.Reaches p d) : t'.Reaches p d := by
  refine ⟨reaches.clean, ?_⟩
  obtain ⟨node, found, stays⟩ := walk_stays (fun l _ => grows.stays l) reaches.walk
  obtain rfl : node = .directory := by simpa [Stays] using stays
  rw [grows.start]
  exact found

/-- Where the place is there, growth on the way to it and in a child of it is growth in the child. -/
theorem Grows.settled (grows : Grows (fun l _ => t.WithinChild root S id l) t t') (sound : t.Sound)
    (begins : t.Begins root) (reaches : t.Reaches root S) (outside : ¬S ++ [id] <+: l) :
    t'.node? l = t.node? l := by
  rcases grows.node l with same | ⟨node, -, onWay | inside, raises⟩
  · exact same
  · rcases reaches.way sound begins onWay with there | ⟨target, there⟩
    · exact absurd there raises.not_directory
    · rw [there] at raises
      cases raises
  · exact absurd inside outside

/-! ### Reading what is apart -/

theorem Apart.of_join (apart : t.Apart S p) (writable : Writable names) :
    t.Apart S (p.join (pathOfNames names)) :=
  fun l within => apart l (within.of_join writable)

theorem Apart.resolve_congr (apart : t.Apart S p) (working : t'.workingDirectory = t.workingDirectory)
    (same : ∀ l, ¬S <+: l → t'.node? l = t.node? l) : t'.resolve followLast p = t.resolve followLast p :=
  FileTree.resolve_congr working fun l passes => same l (apart l (OnWay.within passes))

theorem readBytes_eq_ok :
    t.readBytes p = .ok content ↔ ∃ l, t.resolve true p = .ok (.taken l (.file content)) := by
  unfold readBytes
  rcases t.resolve true p with e | ⟨l, _ | _ | _⟩ | l <;> simp

theorem Apart.readBytes_congr (apart : t.Apart S p) (working : t'.workingDirectory = t.workingDirectory)
    (same : ∀ l, ¬S <+: l → t'.node? l = t.node? l) : t'.readBytes p = t.readBytes p := by
  rw [readBytes, readBytes, apart.resolve_congr working same]

/-- Where only directories come, all files keep their content. -/
theorem Grows.readBytes (grows : Grows reach t t')
    (directories : ∀ l node, reach l node → node = .directory)
    (read : t.readBytes p = .ok content) : t'.readBytes p = .ok content := by
  obtain ⟨l, found⟩ := readBytes_eq_ok.1 read
  obtain ⟨clean, some, walked⟩ := resolve_eq_ok.1 found
  obtain ⟨node, found', stays⟩ := walk_stays (fun l _ => grows.stays l) walked
  obtain ⟨content', rfl⟩ : ∃ content', node = .file content' := by simpa [Stays] using stays
  have now : t'.resolve true p = .ok (.taken l (.file content')) := by
    rw [resolve_eq_ok, grows.start]
    exact ⟨clean, some, found'⟩
  have there := resolve_file now
  rcases grows.node l with same | ⟨node, came, here, -⟩
  · rw [same, resolve_file found] at there
    obtain ⟨rfl⟩ := there
    exact readBytes_eq_ok.2 ⟨l, now⟩
  · obtain rfl := directories l node here
    cases came.symm.trans there

/-- What is below the end of a way is on ways below the path. -/
theorem Sound.within_below (sound : t.Sound) (leads : t.Leads (t.start p) p.parts l)
    (there : t.node? (l ++ rel) = some node) : t.WithinWay p (l ++ rel) := by
  have isName := (List.forall_mem_append.1 (sound.isName there)).2
  refine ⟨rel, fun name member => (isName name member).1.toIsPlain, ?_⟩
  refine Leads.passes_append (e := l) ?_ ?_
  · rcases p.parts_eq_trunk with same | blank
    · rwa [same] at leads
    · exact leads_blank.1 (blank ▸ leads)
  · rcases List.eq_nil_or_concat' rel with rfl | ⟨m, last, rfl⟩
    · rw [List.append_nil]
      exact .here t l []
    · have front : t.Leads l m (l ++ m) := by
        refine leads_names (fun name member => (isName name (by simp [member])).1)
          fun m' front some target is => ?_
        obtain ⟨rest, rfl⟩ := front
        have there : t.node? (l ++ (m' ++ (rest ++ [last]))) = Option.some node := by simpa using there
        exact nomatch (sound.above there (by simp)).symm.trans is
      rw [← List.append_assoc]
      exact front.passes_append (.looked t _ (isName last (by simp)).1 [])

/-! ### Filling a child of a store -/

/-- A child of the store while libraries are copied into it: each file in it has the content of what has
the same names below `libs`, which is apart from the store. -/
structure Filling (t : FileTree) (root : Path) (S : Location) (id : String) (libs : Path) : Prop where
  sound : t.Sound
  placed : t.Placed root S
  word : IsPlain id ∧ IsClean id
  unlinked : t.Unlinked (S ++ [id])
  apart : t.Apart S libs
  faithful : ∀ names content, names ≠ [] → t.node? (S ++ id :: names) = some (.file content) →
    t.readBytes (libs.join (pathOfNames names)) = .ok content

namespace Filling

theorem begins (filling : t.Filling root S id libs) (writable : Writable names) :
    t.Begins (root.join (pathOfNames names)) := writable.begins_join filling.placed.begins

theorem writable (filling : t.Filling root S id libs) (below : Writable names) : Writable (id :: names) :=
  (writable_word filling.word).append below

/-- Names below the child lead to their place in it. -/
theorem leads_below (filling : t.Filling root S id libs) (below : Writable names)
    (leads : t.Leads (t.start (root.join (pathOfNames (id :: names))))
      (root.join (pathOfNames (id :: names))).parts l) : l = S ++ id :: names := by
  have writable := filling.writable below
  rw [writable.join_start, writable.join_parts] at leads
  exact filling.placed.leads_child filling.unlinked writable.plain leads

theorem within (filling : t.Filling root S id libs) (below : Writable names)
    (within : t.WithinWay (root.join (pathOfNames (id :: names))) l) : t.WithinChild root S id l := by
  rw [← child_join filling.word below] at within
  exact filling.placed.within_child filling.unlinked filling.word (within.of_join below)

theorem paved (filling : t.Filling root S id libs) (grows : Grows reach t t')
    (directories : ∀ l node, reach l node → node = .directory) : t'.Filling root S id libs where
  sound := grows.sound filling.sound
  placed := grows.placed filling.placed
  word := filling.word
  unlinked := grows.unlinked filling.unlinked
  apart := grows.apart filling.apart
  faithful names content some there := by
    rcases grows.node (S ++ id :: names) with same | ⟨node, came, here, -⟩
    · exact grows.readBytes directories (filling.faithful names content some (same ▸ there))
    · obtain rfl := directories _ node here
      exact nomatch came.symm.trans there

theorem copyFile (filling : t.Filling root S id libs) (below : Writable names)
    (copied : t.copyFile (libs.join (pathOfNames names)) (root.join (pathOfNames (id :: names))) =
      (t', .ok ())) :
    t'.Filling root S id libs := by
  have begins := filling.begins (filling.writable below)
  have grows := copyFile_grows filling.sound (libs.join (pathOfNames names)) begins
  rw [copied] at grows
  obtain ⟨origin, before, place, content, found, leads, there, whole, same⟩ :=
    copyFile_ok filling.sound begins copied
  obtain rfl := filling.leads_below below leads
  have elsewhere : ∀ l, ¬S <+: l → t'.node? l = t.node? l := fun l outside =>
    same l fun here => outside (here ▸ List.prefix_append S _)
  have distinct : origin ≠ S ++ id :: names := by
    rintro rfl
    exact filling.apart.of_join below _ (OnWay.within (resolve_leads found).passes) (List.prefix_append S _)
  have reads : ∀ {rel}, Writable rel →
      t'.readBytes (libs.join (pathOfNames rel)) = t.readBytes (libs.join (pathOfNames rel)) :=
    fun writable => (filling.apart.of_join writable).readBytes_congr grows.working elsewhere
  refine ⟨grows.sound filling.sound, grows.placed filling.placed, filling.word,
    grows.unlinked filling.unlinked, grows.apart filling.apart, fun rel content' some there' => ?_⟩
  by_cases here : rel = names
  · subst here
    rw [there] at there'
    obtain ⟨rfl⟩ := there'
    rw [reads below, whole distinct]
    exact readBytes_eq_ok.2 ⟨origin, found⟩
  · have sound := grows.sound filling.sound
    have named : Writable rel := by
      have names := sound.isName there'
      refine ⟨some, fun name member => ?_, fun name member => ?_⟩
      · exact (names name (by simp [member])).1.toIsPlain
      · exact (names name (by simp [member])).2.noSlash
    rw [reads named]
    refine filling.faithful rel content' some ?_
    rw [← there', same]
    simpa using here

theorem copyEntry (filling : t.Filling root S id libs) (base : Writable names) (below : Writable rel)
    (copied : t.copyEntry (libs.join (pathOfNames names)) (root.join (pathOfNames (id :: names))) rel node =
      (t', .ok n)) : t'.Filling root S id libs := by
  have target : (root.join (pathOfNames (id :: names))).join (pathOfNames rel) =
      root.join (pathOfNames (id :: (names ++ rel))) := (filling.writable base).join_join below root
  have begins := filling.begins (filling.writable (base.append below))
  by_cases kind : node = .directory
  · subst kind
    rw [copyEntry_directory, target] at copied
    have grows := makeDirectories_grows filling.sound begins
    split at copied
    · next made =>
      obtain ⟨rfl, -⟩ := Prod.mk.inj copied
      rw [made] at grows
      exact filling.paved grows fun _ _ paves => paves.2
    · exact nomatch (Prod.mk.inj copied).2
  · simp only [copyEntry_file t _ _ rel kind, target, base.join_join below] at copied
    have grows := makeDirectories_parent_grows filling.sound begins
    split at copied
    · exact nomatch (Prod.mk.inj copied).2
    · next made =>
      rw [made] at grows
      split at copied
      · next done =>
        obtain ⟨rfl, -⟩ := Prod.mk.inj copied
        exact (filling.paved grows fun _ _ paves => paves.2).copyFile (base.append below) done
      · exact nomatch (Prod.mk.inj copied).2

theorem copyEntries (filling : t.Filling root S id libs) (base : Writable names)
    {listed : List (Location × FileNode)} (below : ∀ e ∈ listed, Writable e.1)
    (copied : copyEntries (libs.join (pathOfNames names)) (root.join (pathOfNames (id :: names)))
        listed n t =
      (t', .ok k)) : t'.Filling root S id libs := by
  induction listed generalizing t n with
  | nil =>
    obtain ⟨rfl, -⟩ := Prod.mk.inj copied
    exact filling
  | cons entry listed ih =>
    obtain ⟨rel, node⟩ := entry
    obtain ⟨first, others⟩ := List.forall_mem_cons.1 below
    rw [FileTree.copyEntries] at copied
    split at copied
    · next done => exact ih (filling.copyEntry base first done) others copied
    · cases (Prod.mk.inj copied).2

end Filling

/-- All that the source holds has its copy below the place. -/
structure Covers (t : FileTree) (source : Path) (place : Location) : Prop where
  made : t.node? place = some .directory
  copied : ∃ l, t.locate source = .ok l ∧
    ∀ rel node, rel ≠ [] → t.node? (l ++ rel) = some node → Copied node (t.node? (place ++ rel))

theorem Apart.locate_congr (apart : t.Apart S p) (working : t'.workingDirectory = t.workingDirectory)
    (same : ∀ l, ¬S <+: l → t'.node? l = t.node? l) : t'.locate p = t.locate p := by
  rw [locate, locate, apart.resolve_congr working same]

theorem Apart.not_below (apart : t.Apart S p) (sound : t.Sound) (located : t.locate p = .ok l)
    (there : t.node? (l ++ rel) = some node) : ¬S <+: l ++ rel := by
  obtain ⟨_, found⟩ := locate_eq_ok.1 located
  exact apart _ (sound.within_below (resolve_leads found) there)

/-- A copy of what is apart from the store stays whole while there is growth in the store. -/
theorem Covers.later (covers : t.Covers source place) (sound : t'.Sound) (apart : t.Apart S source)
    (grows : Grows reach t t') (same : ∀ l, ¬S <+: l → t'.node? l = t.node? l) :
    t'.Covers source place := by
  refine ⟨grows.directory covers.made, ?_⟩
  obtain ⟨l, located, copied⟩ := covers.copied
  have now : t'.locate source = .ok l := (apart.locate_congr grows.working same).trans located
  refine ⟨l, now, fun rel node some there => ?_⟩
  rw [same _ ((grows.apart apart).not_below sound now there)] at there
  exact (copied rel node some there).stays (grows.stays _)

/-- A library that has been copied into the child has its whole copy there. -/
theorem Filling.copyTree (filling : t.Filling root S id libs) (base : Writable names)
    (copied : t.copyTree (libs.join (pathOfNames names)) (root.join (pathOfNames (id :: names))) =
      (t', .ok n)) :
    t'.Filling root S id libs ∧ t'.Reaches root S ∧
      t'.Covers (libs.join (pathOfNames names)) (S ++ id :: names) := by
  have writable := filling.writable base
  have begins := filling.begins writable
  obtain ⟨t₁, l, made, located, all⟩ := copyTree_ok filling.sound begins copied
  have paves := makeDirectories_grows filling.sound begins
  rw [made] at paves
  have filling₁ := filling.paved paves fun _ _ paves => paves.2
  obtain ⟨place, found⟩ :=
    isDirectory_iff.1 (makeDirectories_ok filling.sound begins (writable.join_some root) made)
  -- The target has been made, so that the store is there from now on.
  obtain ⟨d, reaches⟩ := reaches_of_join writable found
  obtain rfl := reaches.eq_place filling₁.placed
  have there := resolve_taken filling₁.sound (paves.begins begins) (directory?_eq_some.1 found)
  obtain rfl := filling₁.leads_below base (resolve_leads (directory?_eq_some.1 found))
  have listed := fun e (member : e ∈ t₁.below l) => Writable.of_below filling₁.sound member
  simp only [FileTree.copyTree, made, located] at copied
  have filling' := filling₁.copyEntries base listed copied
  have grows := copyEntries_grows filling₁.sound listed (libs.join (pathOfNames names))
    (paves.begins begins) 0
  rw [copied] at grows
  have inside := grows.imp fun l _ => filling₁.within base
  have same : ∀ l, ¬d <+: l → t'.node? l = t₁.node? l := fun l outside =>
    inside.settled filling₁.sound filling₁.placed.begins reaches
      fun front => outside ((List.prefix_append d [id]).trans front)
  have apart := filling₁.apart.of_join base
  have now := (apart.locate_congr grows.working same).trans located
  refine ⟨filling', grows.reaches reaches, grows.directory there, l, now, fun rel node some there => ?_⟩
  rw [same _ ((filling'.apart.of_join base).not_below filling'.sound now there)] at there
  obtain ⟨place, leads, stands⟩ := all rel node some there
  have below := Writable.of_below filling₁.sound ((mem_below filling₁.sound).2 ⟨some, there⟩)
  rw [writable.join_start, writable.join_trunk, List.append_assoc] at leads
  obtain rfl :=
    filling.placed.leads_child filling.unlinked (filling.writable (base.append below)).plain leads
  simpa using stands

end FileTree

/-! ### Copying several libraries -/

namespace LibraryStore
open FileTree

variable {w w' : Workspace} {root libs : Path} {S : Location} {id : String}
  {libraries : List (String × Path)}

theorem copyLibraries_grows (sound : w.files.Sound) (placed : w.files.Placed root S)
    (unlinked : w.files.Unlinked (S ++ [id])) (word : IsPlain id ∧ IsClean id)
    (named : ∀ library ∈ libraries, PlainName library.1) :
    FileTree.Grows (fun l _ => w.files.WithinChild root S id l) w.files
      (copyLibraries (root.joinName id) libraries w).1.files := by
  induction libraries generalizing w with
  | nil => exact .refl _ _
  | cons library libraries ih =>
    obtain ⟨name, path⟩ := library
    obtain ⟨first, others⟩ := List.forall_mem_cons.1 named
    have begins : w.files.Begins ((root.joinName id).joinName name) := by
      rw [joinName_eq, child_join word first.writable]
      exact ((writable_word word).append first.writable).begins_join placed.begins
    have grows : FileTree.Grows (fun l _ => w.files.WithinChild root S id l) w.files
        (w.files.copyTree path ((root.joinName id).joinName name)).1 :=
      (copyTree_grows sound path begins).imp fun l _ within => by
        rw [joinName_eq] at within
        exact placed.within_child unlinked word (within.of_join first.writable)
    simp only [copyLibraries_cons, Workspace.println]
    generalize w.execution.println _ = execution
    split
    · next failed => rwa [failed] at grows
    · next files k copied =>
      rw [copied] at grows
      have later := @ih ⟨files, w.heap, execution⟩ (grows.sound sound)
        (grows.placed placed) (grows.unlinked unlinked) others
      exact grows.trans (later.imp fun l _ => Or.imp_left grows.onWay_iff.1)

/-- Libraries that have been copied into a child of the store have their whole copies there. -/
theorem copyLibraries_ok (filling : w.files.Filling root S id libs)
    (named : ∀ library ∈ libraries, PlainName library.1 ∧ library.2 = libs.joinName library.1)
    (copied : copyLibraries (root.joinName id) libraries w = (w', .ok ())) :
    w'.files.Filling root S id libs ∧ ∀ library ∈ libraries,
      w'.files.Reaches root S ∧ w'.files.Covers library.2 (S ++ id :: Text.split '/' library.1) := by
  induction libraries generalizing w with
  | nil =>
    obtain ⟨rfl, -⟩ := Prod.mk.inj copied
    exact ⟨filling, nofun⟩
  | cons library libraries ih =>
    obtain ⟨name, path⟩ := library
    obtain ⟨⟨first, same⟩, others⟩ := List.forall_mem_cons.1 named
    obtain rfl : path = libs.joinName name := same
    simp only [copyLibraries_cons, Workspace.println] at copied
    generalize w.execution.println _ = execution at copied
    split at copied
    · exact nomatch (Prod.mk.inj copied).2
    · next files k done =>
      rw [joinName_eq, joinName_eq (root.joinName id), child_join filling.word first.writable] at done
      obtain ⟨filling₁, reaches, covers⟩ := filling.copyTree first.writable done
      obtain ⟨filling', rest⟩ := @ih ⟨files, w.heap, execution⟩ filling₁ others copied
      have grows := copyLibraries_grows (w := ⟨files, w.heap, execution⟩) filling₁.sound filling₁.placed
        filling₁.unlinked filling₁.word fun library member => (others library member).1
      rw [copied] at grows
      refine ⟨filling', List.forall_mem_cons.2 ⟨⟨grows.reaches reaches, ?_⟩, rest⟩⟩
      rw [joinName_eq]
      exact covers.later filling'.sound (filling₁.apart.of_join first.writable) grows fun l outside =>
        grows.settled filling₁.sound filling₁.placed.begins reaches
          fun front => outside ((List.prefix_append S [id]).trans front)

end LibraryStore
end FlowScript
