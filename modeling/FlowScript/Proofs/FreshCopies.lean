import FlowScript.Proofs.StoreCopies

/-! Libraries handed out to runs. What stands in a child of the store is copied without fail to a place
that has room for it. -/
namespace FlowScript

namespace FileTree

variable {t t' : FileTree} {p root run : Path} {S R d l : Location} {id last : String}
  {names rel : List String}
  {node : FileNode}

/-! ### Making directories where nothing is in the way -/

/-- There are directories at the first names, or nothing is there. -/
def Clear (t : FileTree) (d : Location) (names : List String) : Prop :=
  ∀ m, m <+: names → m ≠ [] → t.node? (d ++ m) = none ∨ t.node? (d ++ m) = some .directory

theorem Clear.linkless (clear : t.Clear d names) : t.Linkless d names := by
  intro m front nonempty target there
  rcases clear m front nonempty with none | directory
  · exact nomatch none.symm.trans there
  · exact nomatch directory.symm.trans there

theorem Clear.front (clear : t.Clear d (names ++ rel)) : t.Clear d names :=
  fun m front nonempty => clear m (front.trans (List.prefix_append _ _)) nonempty

/-- All but the last one of the names are those of directories, or the walk finds that one is missing. -/
theorem Clear.walk (clear : t.Clear d (names ++ [last])) (isName : ∀ name ∈ names ++ [last], IsName name)
    (followLast : Bool) (n : Nat) :
    (∀ m, m <+: names → m ≠ [] → t.node? (d ++ m) = some .directory) ∨
      t.walk followLast n d (names ++ [last]) = .error .notFound := by
  induction names generalizing d with
  | nil => exact .inl fun m front nonempty => absurd (List.prefix_nil.1 front) nonempty
  | cons name names ih =>
    obtain ⟨first, others⟩ := List.forall_mem_cons.1 isName
    rcases clear [name] (by simp) (by simp) with none | there
    · have more : (names ++ [last]).all String.isEmpty = false := by
        simp [(isName last (by simp)).some]
      refine .inr ?_
      rw [List.cons_append, walk_name first, none]
      simp [more]
    · have behind : t.Clear (d ++ [name]) (names ++ [last]) := fun m front nonempty => by
        simpa using clear (name :: m) (List.cons_prefix_cons.2 ⟨rfl, front⟩) (List.cons_ne_nil _ _)
      rcases ih behind others with all | missing
      · refine .inl fun m front nonempty => ?_
        cases m with
        | nil => exact absurd rfl nonempty
        | cons name' m =>
          obtain ⟨rfl, rest⟩ := List.cons_prefix_cons.1 front
          by_cases alone : m = []
          · rw [alone]
            exact there
          · simpa using all m rest alone
      · refine .inr ?_
        rw [List.cons_append, walk_name first, there]
        exact missing

theorem ensureDirectory_succeeds (reaches : t.Reaches p d) (writable : Writable (names ++ [last]))
    (isName : ∀ name ∈ names ++ [last], IsName name ∧ IsClean name)
    (above : ∀ m, m <+: names → m ≠ [] → t.node? (d ++ m) = some .directory)
    (clear : t.Clear d (names ++ [last])) :
    t.makeDirectory (p.join (pathOfNames (names ++ [last]))) ≠ .error .notFound ∧
      (t.ensureDirectory (p.join (pathOfNames (names ++ [last])))).2 = .ok () := by
  have found : t.resolve false (p.join (pathOfNames (names ++ [last]))) = _ :=
    reaches.resolve_names writable isName above fun _ _ => rfl
  rcases clear _ (List.prefix_refl _) (by simp) with none | there
  · rw [none] at found
    simp [ensureDirectory, makeDirectory, found]
  · rw [there] at found
    have isDirectory : t.isDirectory (p.join (pathOfNames (names ++ [last]))) = true := by
      refine isDirectory_iff.2 ⟨_, reaches.directory?_join writable isName fun m front nonempty => ?_⟩
      rcases List.prefix_concat_iff.1 front with rfl | front
      · exact there
      · exact above m front nonempty
    simp [ensureDirectory, makeDirectory, found, isDirectory]

/-- Where a directory has been made behind names, all of these are names of directories. -/
theorem Reaches.made (reaches : t.Reaches p d) (sound : t.Sound) (begins : t.Begins p)
    (writable : Writable names)
    (isName : ∀ name ∈ names, IsName name) (linkless : t.Linkless d names)
    (made : t.isDirectory (p.join (pathOfNames names)) = true) (front : m <+: names) :
    t.node? (d ++ m) = some .directory := by
  obtain ⟨l, found⟩ := isDirectory_iff.1 made
  have there := resolve_taken sound (writable.begins_join begins) (directory?_eq_some.1 found)
  have leads := resolve_leads (directory?_eq_some.1 found)
  rw [writable.join_start, writable.join_parts] at leads
  obtain rfl := leads.unique (reaches.leads_trunk.append (leads_names isName linkless))
  exact sound.above_directory there front

theorem makeDirectoriesWithin_succeeds (sound : t.Sound) (begins : t.Begins p) (reaches : t.Reaches p d)
    (writable : Writable names) (isName : ∀ name ∈ names, IsName name ∧ IsClean name)
    (clear : t.Clear d names)
    (deep : names.length ≤ depth) :
    (makeDirectoriesWithin depth t (p.join (pathOfNames names))).2 = .ok () := by
  induction depth generalizing names with
  | zero => exact absurd (List.length_eq_zero_iff.1 (Nat.le_zero.1 deep)) writable.nonempty
  | succ depth ih =>
    obtain ⟨before, last, rfl⟩ := (List.eq_nil_or_concat' names).resolve_left writable.nonempty
    have isName' : ∀ name ∈ before ++ [last], IsName name := fun name member => (isName name member).1
    rw [makeDirectoriesWithin, if_neg (by simpa using writable.join_some p)]
    obtain ⟨m, ahead⟩ := reaches.resolve_join writable (fun name member => (isName name member).2) false
    rcases clear.walk isName' false m with above | missing
    · -- Only the last name can be missing.
      obtain ⟨notMissing, ensured⟩ := ensureDirectory_succeeds reaches writable isName above clear
      split
      · next missing _ => exact absurd missing notMissing
      · exact ensured
    · have notMade : t.makeDirectory (p.join (pathOfNames (before ++ [last]))) = .error .notFound := by
        simp only [makeDirectory, ahead, missing]
      have nonempty : before ≠ [] := by
        rintro rfl
        exact (ensureDirectory_succeeds reaches writable isName
          (fun m front nonempty => absurd (List.prefix_nil.1 front) nonempty) clear).1 notMade
      have writable_before : Writable before :=
        ⟨nonempty, fun name member => writable.plain name (by simp [member]),
          fun name member => writable.noSlash name (by simp [member])⟩
      have writable_last : Writable [last] :=
        ⟨by simp, by simpa using writable.plain last (by simp),
          by simpa using writable.noSlash last (by simp)⟩
      have isName_before : ∀ name ∈ before, IsName name ∧ IsClean name :=
        fun name member => isName name (by simp [member])
      have made := ih writable_before isName_before clear.front (by simpa using deep)
      have grows := makeDirectoriesWithin_grows sound (writable_before.begins_join begins) depth
      rw [notMade, writable_before.parent?_join writable_last]
      simp only
      rcases within : makeDirectoriesWithin depth t (p.join (pathOfNames before)) with ⟨t₁, answer⟩
      rw [within] at made grows
      obtain rfl : answer = .ok () := made
      have reaches₁ := grows.reaches reaches
      have clear₁ : t₁.Clear d (before ++ [last]) := fun m front nonempty => by
        rcases grows.node (d ++ m) with same | ⟨node, there, paves, -⟩
        · rw [same]
          exact clear m front nonempty
        · obtain ⟨-, rfl⟩ := paves
          exact .inr there
      have isDirectory := makeDirectoriesWithin_ok sound (writable_before.begins_join begins)
        (writable_before.join_some p) within
      refine (ensureDirectory_succeeds reaches₁ writable isName (fun m front _ => ?_) clear₁).2
      exact reaches₁.made (grows.sound sound) (grows.begins begins) writable_before
        (fun name member => (isName_before name member).1) clear₁.front.linkless isDirectory front

/-- Directories are made where nothing else is in the way. -/
theorem makeDirectories_succeeds (sound : t.Sound) (begins : t.Begins p) (reaches : t.Reaches p d)
    (writable : Writable names) (isName : ∀ name ∈ names, IsName name ∧ IsClean name)
    (clear : t.Clear d names) :
    (t.makeDirectories (p.join (pathOfNames names))).2 = .ok () := by
  refine makeDirectoriesWithin_succeeds sound begins reaches writable isName clear ?_
  rw [writable.join_parts, List.length_append]
  omega

/-! ### Unpacking a child of a store -/

theorem libs_isName : IsName "libs" ∧ IsClean "libs" :=
  ⟨⟨⟨by decide, by decide, by decide⟩, by decide⟩, by decide, by decide⟩

theorem writable_of_isName (nonempty : names ≠ []) (isName : ∀ name ∈ names, IsName name ∧ IsClean name) :
    Writable names :=
  ⟨nonempty, fun name member => (isName name member).1.toIsPlain,
    fun name member => (isName name member).2.noSlash⟩

/-- Behind the path one writes as behind the other one with names added. -/
def Extends (target base : Path) (libs : List String) : Prop :=
  ∀ names, Writable names → target.join (pathOfNames names) = base.join (pathOfNames (libs ++ names))

theorem extends_join (nonempty : names ≠ []) (isName : ∀ name ∈ names, IsName name ∧ IsClean name)
    (p : Path) : Extends (p.join (pathOfNames names)) p names := fun _ writable =>
  (writable_of_isName nonempty isName).join_join writable p

theorem Extends.isAbsolute {target base : Path} {libs : List String} (place : Extends target base libs)
    (isName : ∀ name ∈ libs, IsName name ∧ IsClean name) (absolute : target.isAbsolute = true) :
    base.isAbsolute = true := by
  have last : Writable ["libs"] := writable_name libs_isName
  have whole : Writable (libs ++ ["libs"]) := writable_of_isName (by simp)
    (List.forall_mem_append.2 ⟨isName, by simpa using libs_isName⟩)
  have same := congrArg Path.isAbsolute (place ["libs"] last)
  rwa [Path.isAbsolute_join last.relative, Path.isAbsolute_join whole.relative, absolute, eq_comm] at same

/-- The libraries of a run belong at names behind a directory. What of that is missing can be made, and there is
room for all that stands in a child of a store: for a directory there is a directory or nothing, and for a file
there is a file or nothing. -/
structure Unpacking (t : FileTree) (root : Path) (S : Location) (id : String) (target base : Path) (d : Location)
    (libs : List String) : Prop where
  sound : t.Sound
  begins : t.Begins base
  store : t.Reaches root S
  home : t.Reaches base d
  place : Extends target base libs
  named : ∀ name ∈ libs, IsName name ∧ IsClean name
  apart : t.Apart S target
  clear : t.Clear d libs
  kept : t.Unlinked (S ++ [id])
  room : ∀ rel node, t.node? (S ++ id :: rel) = some node →
    t.node? (d ++ (libs ++ rel)) = none ∨ Copied node (t.node? (d ++ (libs ++ rel)))

/-- Something has come at and below a path only, or on the way there. -/
abbrev GrowsBelow (p : Path) (t t' : FileTree) : Prop := Grows (fun l _ => t.WithinWay p l) t t'

theorem GrowsBelow.trans {t₁ : FileTree} (first : GrowsBelow p t t₁) (second : GrowsBelow p t₁ t') :
    GrowsBelow p t t' :=
  Grows.trans first (second.imp fun _ _ => first.within_iff.1)

/-- The names on the way to what is below `libs` are on the way to `libs`, or go on behind it. -/
theorem upTo_or_behind {libs m : List String} (front : m <+: libs ++ rel) :
    m <+: libs ∨ ∃ inner, inner <+: rel ∧ libs ++ inner = m := by
  rcases List.prefix_or_prefix_of_prefix front (List.prefix_append libs rel) with short | ⟨inner, rfl⟩
  · exact .inl short
  · exact .inr ⟨inner, (List.prefix_append_right_inj libs).1 front, rfl⟩

namespace Unpacking

variable {target base : Path} {libs : List String}

theorem child_named (u : t.Unpacking root S id target base d libs) (there : t.node? (S ++ id :: names) = some node) :
    ∀ name ∈ id :: names, IsName name ∧ IsClean name := (List.forall_mem_append.1 (u.sound.isName there)).2

theorem target_named (u : t.Unpacking root S id target base d libs) (there : t.node? (S ++ id :: names) = some node) :
    ∀ name ∈ libs ++ names, IsName name ∧ IsClean name :=
  List.forall_mem_append.2 ⟨u.named, (List.forall_mem_cons.1 (u.child_named there)).2⟩

theorem writable (u : t.Unpacking root S id target base d libs) (more : names ≠ [])
    (there : t.node? (S ++ id :: names) = some node) : Writable (libs ++ names) :=
  writable_of_isName (List.append_ne_nil_of_right_ne_nil libs more) (u.target_named there)

theorem within (u : t.Unpacking root S id target base d libs) (writable : Writable names)
    (onWay : t.OnWay (base.join (pathOfNames (libs ++ names))) l) : t.WithinWay target l :=
  OnWay.within_join writable (by rwa [u.place names writable])

theorem same (u : t.Unpacking root S id target base d libs) (grows : GrowsBelow target t t')
    (m : Location) : t'.node? (S ++ m) = t.node? (S ++ m) := by
  rcases grows.node (S ++ m) with same | ⟨_, -, within, -⟩
  · exact same
  · exact absurd (List.prefix_append S m) (u.apart _ within)

theorem grown (u : t.Unpacking root S id target base d libs) (grows : GrowsBelow target t t')
    (made : t'.node? (d ++ libs) = some .directory)
    (new : ∀ rel node, t.node? (S ++ id :: rel) = some node →
      t'.node? (d ++ (libs ++ rel)) = t.node? (d ++ (libs ++ rel)) ∨
        Copied node (t'.node? (d ++ (libs ++ rel)))) :
    t'.Unpacking root S id target base d libs where
  sound := grows.sound u.sound
  begins := grows.begins u.begins
  store := grows.reaches u.store
  home := grows.reaches u.home
  place := u.place
  named := u.named
  apart := grows.apart u.apart
  clear m front _ := .inr ((grows.sound u.sound).above_directory made front)
  kept := grows.unlinked u.kept
  room rel node there := by
    rw [u.same grows] at there
    rcases new rel node there with same | copied
    · rw [same]
      exact u.room rel node there
    · exact .inr copied

/-- What stands above something in the child is a directory of the child. -/
theorem above (u : t.Unpacking root S id target base d libs) (there : t.node? (S ++ id :: names) = some node)
    (front : rel <+: names) : ∃ node, t.node? (S ++ id :: rel) = some node := by
  obtain ⟨more, rfl⟩ := front
  by_cases whole : more = []
  · rw [whole, List.append_nil] at there
    exact ⟨node, there⟩
  · exact ⟨.directory, u.sound.above there whole⟩

theorem linkless (u : t.Unpacking root S id target base d libs) (there : t.node? (S ++ id :: names) = some node) :
    t.Linkless d (libs ++ names) := by
  intro m front nonempty target link
  rcases upTo_or_behind front with short | ⟨rel, inside, rfl⟩
  · exact u.clear.linkless m short nonempty target link
  · obtain ⟨source, there⟩ := u.above there inside
    rcases u.room rel source there with none | copied
    · cases none.symm.trans link
    · rw [link] at copied
      cases source with
      | directory => cases copied
      | file | link =>
        obtain ⟨_, is⟩ := copied
        cases is

theorem clear_names (u : t.Unpacking root S id target base d libs)
    (there : t.node? (S ++ id :: names) = some .directory) : t.Clear d (libs ++ names) := by
  intro m front nonempty
  rcases upTo_or_behind front with short | ⟨rel, inside, rfl⟩
  · exact u.clear m short nonempty
  · exact u.room rel .directory (u.sound.above_directory there (List.cons_prefix_cons.2 ⟨rfl, inside⟩))

/-- A directory of the child gets its place among the libraries. -/
theorem makeDirectories (u : t.Unpacking root S id target base d libs) (more : names ≠ [])
    (there : t.node? (S ++ id :: names) = some .directory) :
    ∃ t', t.makeDirectories (target.join (pathOfNames names)) = (t', .ok ()) ∧
      t'.Unpacking root S id target base d libs ∧ GrowsBelow target t t' ∧
        t'.node? (d ++ (libs ++ names)) = some .directory := by
  have named := u.target_named there
  have writable := u.writable more there
  have below := writable_of_isName more (List.forall_mem_append.1 named).2
  rw [u.place names below]
  have made := makeDirectories_succeeds u.sound u.begins u.home writable named (u.clear_names there)
  have grows := makeDirectories_grows u.sound (writable.begins_join u.begins)
  rcases result : t.makeDirectories (base.join (pathOfNames (libs ++ names))) with ⟨t', answer⟩
  rw [result] at made grows
  obtain rfl : answer = .ok () := made
  have within : GrowsBelow target t t' := grows.imp fun l _ paves => u.within below paves.1
  have stands : ∀ m, m <+: libs ++ names → t'.node? (d ++ m) = some .directory := fun m front =>
    (grows.reaches u.home).made (grows.sound u.sound) (grows.begins u.begins) writable
      (fun name member => (named name member).1)
      (fun m front some target link => u.linkless there m front some target ((grows.link_iff _ target).1 link))
      (makeDirectories_ok u.sound (writable.begins_join u.begins) (writable.join_some base) result) front
  refine ⟨t', rfl, u.grown within (stands _ (List.prefix_append _ _)) fun rel source at_ => ?_, within,
    stands _ (List.prefix_refl _)⟩
  rcases grows.node (d ++ (libs ++ rel)) with same | ⟨_, came, ⟨onWay, rfl⟩, raises⟩
  · exact .inl same
  · -- A directory that has come stands at the first of the names, since the way of the base was there.
    refine .inr ?_
    rw [OnWay, writable.join_start, writable.join_parts] at onWay
    rcases onWay.of_append with front | ⟨e, leads, behind⟩
    · rcases u.home.way u.sound u.begins (passes_trunk.1 front) with before | ⟨target, before⟩
      · exact absurd before raises.not_directory
      · rw [before] at raises
        cases raises
    · obtain rfl := leads.unique u.home.leads_trunk
      obtain ⟨m, front, place⟩ := passes_names writable.plain (u.linkless there) behind
      obtain rfl := List.append_cancel_left place
      have inside : rel <+: names := (List.prefix_append_right_inj libs).1 front
      obtain rfl := Option.some.inj (at_.symm.trans
        (u.sound.above_directory there (List.cons_prefix_cons.2 ⟨rfl, inside⟩)))
      exact came

theorem copyFile (u : t.Unpacking root S id target base d libs)
    (there : t.node? (S ++ id :: (names ++ [last])) = some (.file content))
    (above : t.node? (d ++ (libs ++ names)) = some .directory) :
    ∃ t', t.copyFile (root.join (pathOfNames (id :: (names ++ [last]))))
        (target.join (pathOfNames (names ++ [last]))) = (t', .ok ()) ∧
      t'.Unpacking root S id target base d libs ∧ GrowsBelow target t t' := by
  have named := u.child_named there
  have writable := writable_of_isName (List.cons_ne_nil id _) named
  have writable_target := u.writable (by simp) there
  have below := writable_of_isName (by simp) (List.forall_mem_append.1 (u.target_named there)).2
  rw [u.place _ below]
  have source : t.resolve true (root.join (pathOfNames (id :: names ++ [last]))) = _ :=
    u.store.resolve_names writable named
      (fun m ⟨rest, front⟩ _ => by
        have there' : t.node? (S ++ (m ++ (rest ++ [last]))) = some (.file content) := by
          rw [← List.append_assoc m, front]
          exact there
        exact u.sound.above there' (by simp))
      fun target link => nomatch there.symm.trans link
  rw [List.cons_append, there] at source
  have split : libs ++ (names ++ [last]) = (libs ++ names) ++ [last] := (List.append_assoc ..).symm
  have found : t.resolve true (base.join (pathOfNames ((libs ++ names) ++ [last]))) = _ :=
    u.home.resolve_names (split ▸ writable_target) (split ▸ u.target_named there)
      (fun m front _ => u.sound.above_directory above front)
      fun target link => absurd (split ▸ link)
        (u.linkless there _ (List.prefix_refl _) writable_target.nonempty target)
  rw [← split] at found
  have opened :
    ∃ t₁ l, t.truncate (base.join (pathOfNames (libs ++ (names ++ [last])))) = .ok (t₁, l) := by
    unfold truncate
    rw [found]
    rcases u.room _ _ there with none | ⟨old, here⟩
    · rw [none]
      simp only
      rw [if_neg (Path.last_ne_slash (writable_target.last base))]
      exact ⟨_, _, rfl⟩
    · rw [here]
      exact ⟨_, _, rfl⟩
  obtain ⟨t₁, place, opened⟩ := opened
  obtain ⟨t', copied⟩ : ∃ t', t.copyFile (root.join (pathOfNames (id :: (names ++ [last]))))
      (base.join (pathOfNames (libs ++ (names ++ [last])))) = (t', .ok ()) := by
    unfold FileTree.copyFile
    simp only [source, opened]
    split <;> exact ⟨_, rfl⟩
  have begins := writable_target.begins_join u.begins
  have grows := copyFile_grows u.sound (root.join (pathOfNames (id :: (names ++ [last])))) begins
  obtain ⟨_, _, place, _, -, leads, now, -, elsewhere⟩ := copyFile_ok u.sound begins copied
  rw [copied] at grows
  have within : GrowsBelow target t t' :=
    grows.imp fun l _ leads => u.within below (Leads.passes leads)
  have made : t'.node? (d ++ libs) = some .directory :=
    grows.directory (u.sound.above_directory above (List.prefix_append _ _))
  refine ⟨t', copied, u.grown within made fun rel source at_ => ?_, within⟩
  rw [writable_target.join_start, writable_target.join_parts] at leads
  obtain rfl := leads.unique (u.home.leads_trunk.append
    (leads_names (fun name member => (u.target_named there name member).1) (u.linkless there)))
  by_cases here : rel = names ++ [last]
  · subst here
    obtain rfl := Option.some.inj (there.symm.trans at_)
    exact .inr ⟨_, now⟩
  · exact .inl (elsewhere _ (by simpa using here))

theorem copyEntry (u : t.Unpacking root S id target base d libs) (more : names ≠ []) (below : rel ≠ [])
    (there : t.node? (S ++ id :: (names ++ rel)) = some node) :
    ∃ t' n, t.copyEntry (root.join (pathOfNames (id :: names)))
      (target.join (pathOfNames names)) rel node =
        (t', .ok n) ∧ t'.Unpacking root S id target base d libs ∧ GrowsBelow target t t' := by
  have named := (List.forall_mem_cons.1 (u.child_named there)).2
  obtain ⟨named_names, named_rel⟩ := List.forall_mem_append.1 named
  have writable := writable_of_isName more named_names
  have writable_rel := writable_of_isName below named_rel
  have source :=
    ((writable_name ((u.child_named there) id (by simp))).append writable).join_join writable_rel root
  have place := writable.join_join writable_rel target
  simp only [List.cons_append, List.nil_append] at source
  by_cases kind : node = .directory
  · subst kind
    obtain ⟨t', made, unpacking, grows, -⟩ := u.makeDirectories (by simp [more]) there
    exact ⟨t', 0, by simp only [copyEntry_directory, place, made], unpacking, grows⟩
  · obtain ⟨content, rfl⟩ : ∃ content, node = .file content := by
      cases node with
      | directory => exact absurd rfl kind
      | file content => exact ⟨content, rfl⟩
      | link target => exact absurd there (by simpa using u.kept (names ++ rel) target)
    obtain ⟨before, last, rfl⟩ := (List.eq_nil_or_concat' rel).resolve_left below
    have housed : t.node? (S ++ id :: (names ++ before)) = some .directory := by
      have whole :
        S ++ id :: (names ++ (before ++ [last])) = S ++ id :: (names ++ before) ++ [last] := by simp
      exact u.sound.housed (whole ▸ there)
    obtain ⟨t₁, made, unpacking₁, grows₁, above⟩ := u.makeDirectories (by simp [more]) housed
    have there₁ : t₁.node? (S ++ id :: ((names ++ before) ++ [last])) = some (.file content) := by
      rw [u.same grows₁, List.append_assoc]
      exact there
    obtain ⟨t', copied, unpacking, grows⟩ := unpacking₁.copyFile there₁ above
    have parent : (target.join (pathOfNames (names ++ (before ++ [last])))).parent? =
        some (target.join (pathOfNames (names ++ before))) := by
      have writable_before : Writable (names ++ before) :=
        writable_of_isName (by simp [more]) (List.forall_mem_cons.1 (u.child_named housed)).2
      have parent := writable_before.parent?_join (writable_name (named_rel last (by simp))) target
      rwa [List.append_assoc] at parent
    rw [List.append_assoc] at copied
    refine ⟨t', 1, ?_, unpacking, grows₁.trans grows⟩
    simp only [copyEntry_file t _ _ _ kind, source, place, parent, Option.getD_some, made, copied]

theorem copyEntries (u : t.Unpacking root S id target base d libs) (more : names ≠ [])
    {listed : List (Location × FileNode)}
    (there : ∀ e ∈ listed, e.1 ≠ [] ∧ t.node? (S ++ id :: (names ++ e.1)) = some e.2) (n : Nat) :
    ∃ t' k, FileTree.copyEntries (root.join (pathOfNames (id :: names)))
        (target.join (pathOfNames names)) listed n t = (t', .ok k) ∧
          t'.Unpacking root S id target base d libs ∧ GrowsBelow target t t' := by
  induction listed generalizing t n with
  | nil => exact ⟨t, n, rfl, u, .refl _ t⟩
  | cons entry listed ih =>
    obtain ⟨rel, node⟩ := entry
    obtain ⟨⟨below, first⟩, others⟩ := List.forall_mem_cons.1 there
    obtain ⟨t₁, k, copied, unpacking₁, grows₁⟩ := u.copyEntry more below first
    obtain ⟨t', k', rest, unpacking, grows⟩ := ih unpacking₁
      (fun e member => ⟨(others e member).1, (u.same grows₁ _).trans (others e member).2⟩) (n + k)
    refine ⟨t', k', ?_, unpacking, grows₁.trans grows⟩
    rw [FileTree.copyEntries, copied]
    exact rest

/-- A library that stands in the child is handed out. -/
theorem copyTree (u : t.Unpacking root S id target base d libs) (more : names ≠ [])
    (there : t.node? (S ++ id :: names) = some .directory) :
    ∃ t' n, t.copyTree (root.join (pathOfNames (id :: names))) (target.join (pathOfNames names)) =
        (t', .ok n) ∧ t'.Unpacking root S id target base d libs ∧
          GrowsBelow target t t' := by
  obtain ⟨t₁, made, unpacking₁, grows₁, -⟩ := u.makeDirectories more there
  have there₁ := (u.same grows₁ _).trans there
  have named := unpacking₁.child_named there₁
  have found :=
    unpacking₁.store.directory?_join (writable_of_isName (List.cons_ne_nil id names) named) named
    fun m front _ => unpacking₁.sound.above_directory there₁ front
  have located := locate_eq_ok.2 ⟨_, directory?_eq_some.1 found⟩
  have listed : ∀ e ∈ t₁.below (S ++ id :: names), e.1 ≠ [] ∧
    t₁.node? (S ++ id :: (names ++ e.1)) = Option.some e.2 :=
    fun e member => by simpa using (mem_below unpacking₁.sound).1 member
  obtain ⟨t', k, copied, unpacking, grows⟩ := unpacking₁.copyEntries more listed 0
  refine ⟨t', k, ?_, unpacking, grows₁.trans grows⟩
  simp only [FileTree.copyTree, made, located]
  exact copied

end Unpacking

end FileTree
end FlowScript
