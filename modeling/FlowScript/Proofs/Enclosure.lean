import FlowScript.Proofs.Failing
import FlowScript.Proofs.Survival

/-! Where copies of libraries are written. The name of a library is joined to the directory that is meant for its
copy, and is not looked at: a name can replace the directory, or lead above it. Copies stay in their directory
where no name does so, and where there are no links in it. -/
namespace FlowScript

namespace Path

/-- The parts lead to no place above the first one, where they begin so many directories below it. -/
def staysBelow : Nat → List String → Bool
  | _, [] => true
  | depth, part :: rest =>
    if !leadsOn part then staysBelow depth rest
    else if part = ".." then depth != 0 && staysBelow (depth - 1) rest
    else staysBelow (depth + 1) rest

/-- A relative path that leads to no place above the one where it begins. -/
def Inward (p : Path) : Prop := p.isAbsolute = false ∧ staysBelow 0 p.parts = true

instance : DecidablePred Inward := fun _ => inferInstanceAs (Decidable (_ ∧ _))

theorem staysBelow_blank (blank : part = "" ∨ part = ".") (depth : Nat) (rest : List String) :
    staysBelow depth (part :: rest) = staysBelow depth rest := by
  have blank : leadsOn part = false := Bool.eq_false_iff.2 (mt leadsOn_iff.1 (not_not_intro blank))
  simp [staysBelow, blank]

theorem staysBelow_up (depth : Nat) (rest : List String) :
    staysBelow depth (".." :: rest) = true ↔ depth ≠ 0 ∧ staysBelow (depth - 1) rest = true := by
  have up : leadsOn ".." = true := by decide
  simp [staysBelow, up]

theorem staysBelow_plain (plain : IsPlain part) (depth : Nat) (rest : List String) :
    staysBelow depth (part :: rest) = staysBelow (depth + 1) rest := by
  simp [staysBelow, leadsOn_iff.2 plain.not_blank, plain.notUp]

theorem staysBelow_append {depth : Nat} {parts names : List String} (stays : staysBelow depth parts = true)
    (plain : ∀ name ∈ names, IsPlain name) : staysBelow depth (parts ++ names) = true := by
  induction parts generalizing depth with
  | nil =>
    clear stays
    induction names generalizing depth with
    | nil => rfl
    | cons name names ih =>
      obtain ⟨first, others⟩ := List.forall_mem_cons.1 plain
      rw [List.nil_append, staysBelow_plain first]
      exact ih others
  | cons part parts ih =>
    rw [List.cons_append]
    by_cases blank : part = "" ∨ part = "."
    · rw [staysBelow_blank blank] at stays ⊢
      exact ih stays
    · by_cases up : part = ".."
      · subst up
        rw [staysBelow_up] at stays ⊢
        exact ⟨stays.1, ih stays.2⟩
      · obtain ⟨some, notHere⟩ := not_or.1 blank
        rw [staysBelow_plain ⟨some, notHere, up⟩] at stays ⊢
        exact ih stays

end Path

namespace FileTree

variable {t t' : FileTree} {p q root : Path} {d e l S : Location} {id name : String} {node : FileNode}
  {m left rest names parts : List String}

/-! ### Ways that stay below a directory -/

theorem comes_below (unlinked : t.Unlinked d) (stays : Path.staysBelow m.length parts = true)
    (comes : t.Comes (d ++ m, parts) (e, left)) :
    ∃ m', e = d ++ m' ∧ Path.staysBelow m'.length left = true := by
  generalize reached : (e, left) = x at comes
  induction comes generalizing e left with
  | refl =>
    obtain ⟨rfl, rfl⟩ := Prod.mk.inj reached
    exact ⟨m, rfl, stays⟩
  | @tail y _ _ moves ih =>
    subst reached
    obtain ⟨e₁, left₁⟩ := y
    obtain ⟨m₁, rfl, stays₁⟩ := ih rfl
    cases moves with
    | skip blank => exact ⟨m₁, rfl, by rwa [Path.staysBelow_blank blank] at stays₁⟩
    | up =>
      -- There is a name to go up from.
      obtain ⟨deep, stays₁⟩ := (Path.staysBelow_up _ _).1 stays₁
      refine ⟨m₁.dropLast, ?_, by rwa [List.length_dropLast]⟩
      exact List.dropLast_append_of_ne_nil (by simpa using deep)
    | @down part _ _ isName =>
      refine ⟨m₁ ++ [part], List.append_assoc _ _ _, ?_⟩
      rw [Path.staysBelow_plain isName.toIsPlain] at stays₁
      rwa [List.length_append]
    | @link part _ target _ _ there =>
      rw [List.append_assoc] at there
      exact absurd there (unlinked _ target)

theorem passes_below (unlinked : t.Unlinked d) (stays : Path.staysBelow 0 parts = true)
    (passes : t.Passes d parts l) : d <+: l := by
  obtain ⟨e, left, comes, here⟩ := passes
  rw [← List.append_nil d] at comes
  obtain ⟨m, rfl, -⟩ := comes_below unlinked (m := []) stays comes
  rcases here with rfl | ⟨part, rest, -, -, rfl⟩
  · exact List.prefix_append d m
  · rw [List.append_assoc]
    exact List.prefix_append d _

theorem passes_trunk_append (passes : t.Passes d (p.trunk ++ rest) l) : t.Passes d (p.parts ++ rest) l := by
  rcases p.parts_eq_trunk with same | blank
  · rwa [same]
  · rw [blank, List.append_assoc]
    rcases passes.of_append with front | ⟨e, leads, behind⟩
    · exact front.append _
    · exact leads.passes_append (.of_moves (.skip (.inl rfl)) behind)

/-! ### Directories that have been made -/

theorem Reaches.directory? (reaches : t.Reaches p d) (some : p.text ≠ "") : t.directory? p = Option.some d := by
  refine directory?_eq_some.2 (resolve_eq_ok.2 ⟨reaches.clean, some, ?_⟩)
  rcases p.parts_eq_trunk with same | blank
  · rw [same]
    exact reaches.walk
  · obtain ⟨n, ahead⟩ : ∃ n, t.walk true maxLinks (t.start p) (p.trunk ++ [""]) = t.walk true n d [""] :=
      walk_append reaches.walk (.inl rfl)
    rw [blank, ahead, walk_skip (.inl rfl), walk_nil]

/-- Above a directory that a relative path leads to there is one. -/
theorem isDirectory_of_join (relative : q.isAbsolute = false) (some : p.text ≠ "")
    (there : t.isDirectory (p.join q) = true) : t.isDirectory p = true := by
  obtain ⟨l, found⟩ := isDirectory_iff.1 there
  obtain ⟨clean, -, walked⟩ := resolve_eq_ok.1 (directory?_eq_some.1 found)
  rw [Path.parts_join relative, start, Path.isAbsolute_join relative] at walked
  obtain ⟨d, front⟩ := walk_prefix walked
  have reaches : t.Reaches p d :=
    ⟨fun inside => clean ((Path.mem_text_join relative (by decide)).2 (.inl inside)), front⟩
  exact isDirectory_iff.2 ⟨d, reaches.directory? some⟩

/-- A copy that succeeds has made its target. -/
theorem copyTree_isDirectory (sound : t.Sound) (begins : t.Begins q) (some : q.text ≠ "")
    (copied : t.copyTree p q = (t', .ok n)) : t'.isDirectory q = true := by
  have paves := makeDirectories_grows sound begins
  unfold FileTree.copyTree at copied
  split at copied
  · cases (Prod.mk.inj copied).2
  · next t₁ made =>
    rw [made] at paves
    have sound₁ := paves.sound sound
    obtain ⟨l, found⟩ := isDirectory_iff.1 (makeDirectories_ok sound begins some made)
    split at copied
    · cases (Prod.mk.inj copied).2
    · next place _ =>
      have listed := fun e (member : e ∈ t₁.below place) => Writable.of_below sound₁ member
      have grows := copyEntries_grows sound₁ listed p (paves.begins begins) 0
      rw [copied] at grows
      exact isDirectory_iff.2 ⟨l, grows.directory? found⟩

/-- Copies that succeed have made the directory that a relative name is joined to. -/
theorem Copies.makes (copies : Copies p q t names t') (sound : t.Sound) (begins : t.Begins q) (some : q.text ≠ "")
    (member : name ∈ names) (relative : Path.isAbsolute ⟨name⟩ = false) : t'.isDirectory q = true := by
  induction copies with
  | nil => cases member
  | @cons t _ _ first _ _ copied rest ih =>
    have begins_copy : t.Begins (q.joinName first) := begins_join begins _
    have grows := copyTree_grows sound (p.joinName first) begins_copy
    rw [copied] at grows
    have sound₁ := grows.sound sound
    have begins₁ := grows.begins begins
    rcases List.mem_cons.1 member with rfl | member
    · have made := copyTree_isDirectory sound begins_copy (Path.join_nonempty relative (.inl some)) copied
      obtain ⟨d, there⟩ := isDirectory_iff.1 (isDirectory_of_join relative some made)
      exact isDirectory_iff.2 ⟨d, (rest.grows sound₁ begins₁).directory? there⟩
    · exact ih sound₁ begins₁ member

/-! ### Names below a child of a place -/

/-- Nodes come in the child of that name, or directories on the way to the place. -/
def FillsChild (t : FileTree) (root : Path) (S : Location) (id : String) (l : Location) (node : FileNode) : Prop :=
  S ++ [id] <+: l ∨ t.PavesWay root l node

theorem Grows.fillsChild_iff (grows : Grows reach t t') :
    t'.FillsChild root S id l node ↔ t.FillsChild root S id l node := by
  simp only [FillsChild, PavesWay, grows.onWay_iff]

/-- The path leads to the place, if it leads anywhere, and no link is in the child of that name, nor in its
place. -/
structure Closed (t : FileTree) (root : Path) (S : Location) (id : String) : Prop where
  begins : t.Begins root
  leads : ∀ l, t.Leads (t.start root) root.parts l → l = S
  word : IsPlain id ∧ IsClean id
  unlinked : t.Unlinked (S ++ [id])

namespace Closed

theorem grown (closed : t.Closed root S id) (grows : Grows reach t t') : t'.Closed root S id where
  begins := grows.begins closed.begins
  leads l leads := closed.leads l (by rwa [grows.start, grows.leads_iff] at leads)
  word := closed.word
  unlinked := grows.unlinked closed.unlinked

theorem passes (closed : t.Closed root S id) (inward : q.Inward) (plain : ∀ name ∈ names, IsPlain name)
    (passes : t.Passes (t.start ((root.joinName id).join q)) (((root.joinName id).join q).trunk ++ names) l) :
    t.OnWay root l ∨ S ++ [id] <+: l := by
  obtain ⟨begins, parts⟩ := join_word (t := t) (p := root) closed.word inward.1
  have passes := passes_trunk_append passes
  rw [begins, parts, List.append_assoc, List.append_assoc] at passes
  rcases passes.of_append with front | ⟨e, leads, behind⟩
  · exact .inl (passes_trunk.1 front)
  · have there := leads_trunk.1 leads
    obtain rfl := closed.leads e there
    have isPlain : ∀ name ∈ [id], IsPlain name := by simpa using closed.word.1
    have linkless : t.Linkless e [id] := closed.unlinked.linkless []
    rcases behind.of_append with child | ⟨e', first, below⟩
    · obtain ⟨m, front, rfl⟩ := passes_names isPlain linkless child
      cases m with
      | nil =>
        rw [List.append_nil]
        exact .inl there.passes
      | cons first m =>
        obtain ⟨rfl, -⟩ := List.cons_prefix_cons.1 front
        exact .inr ⟨m, by simp⟩
    · obtain ⟨m, same, rfl⟩ := comes_names isPlain linkless first
      rw [List.append_nil] at same
      subst same
      exact .inr (passes_below closed.unlinked (Path.staysBelow_append inward.2 plain) below)

theorem leads_below (closed : t.Closed root S id) (inward : q.Inward) (plain : ∀ name ∈ names, IsPlain name)
    (leads : t.Leads (t.start ((root.joinName id).join q)) (((root.joinName id).join q).trunk ++ names) l) :
    S ++ [id] <+: l := by
  obtain ⟨begins, parts⟩ := join_word (t := t) (p := root) closed.word inward.1
  obtain ⟨e, first, second⟩ := leads.of_append
  have first := leads_trunk.1 first
  rw [begins, parts] at first
  obtain ⟨e₁, toPlace, rest⟩ := first.of_append
  obtain rfl := closed.leads e₁ (leads_trunk.1 toPlace)
  obtain ⟨e₂, toChild, below⟩ := rest.of_append
  have linkless : t.Linkless e₁ [id] := closed.unlinked.linkless []
  obtain ⟨m, same, rfl⟩ := comes_names (by simpa using closed.word.1) linkless toChild
  rw [List.append_nil] at same
  subst same
  exact passes_below closed.unlinked (Path.staysBelow_append inward.2 plain) (below.append second).passes

theorem copyTree (closed : t.Closed root S id) (sound : t.Sound) (inward : q.Inward) (source : Path) :
    Grows (t.FillsChild root S id) t (t.copyTree source ((root.joinName id).join q)).1 := by
  have begins : t.Begins ((root.joinName id).join q) := begins_join (begins_join closed.begins _) q
  refine (copyTree_fills sound source begins).imp fun l node fills => ?_
  obtain ⟨⟨names, plain, passes⟩, rfl | ⟨names', writable, leads⟩⟩ := fills
  · exact (closed.passes inward plain passes).symm.imp_right fun onWay => ⟨onWay, rfl⟩
  · exact .inl (closed.leads_below inward writable.plain leads)

end Closed

end FileTree

namespace LibraryStore
open FileTree

variable {s s₂ : LibraryStore} {names : List String} {w w₂ : Workspace} {kept : CachedLibraries} {S R : Location}
  {id name : String} {Q : FileTree → FileTree → Prop}

/-! ### Copies one after the other -/

/-- What a copy does to the files, several copies do. -/
theorem copyLibraries_related (refl : ∀ t, Q t t) (trans : ∀ t t' t'', Q t t' → Q t' t'' → Q t t'')
    {target : Path} {libraries : List (String × Path)}
    (copies : ∀ library ∈ libraries, ∀ t, Q t (t.copyTree library.2 (target.joinName library.1)).1)
    (w : Workspace) : Q w.files (copyLibraries target libraries w).1.files := by
  induction libraries generalizing w with
  | nil => exact refl _
  | cons library libraries ih =>
    obtain ⟨name, path⟩ := library
    obtain ⟨first, others⟩ := List.forall_mem_cons.1 copies
    have related := first w.files
    simp only [copyLibraries_cons, Workspace.println]
    generalize w.execution.println _ = execution
    split
    · next failed => rwa [failed] at related
    · next files n copied =>
      rw [copied] at related
      exact trans _ _ _ related (ih others ⟨files, w.heap, execution⟩)

theorem extractFrom_related (refl : ∀ t, Q t t) (trans : ∀ t t' t'', Q t t' → Q t' t'' → Q t t'')
    {source target : Path}
    (copies : ∀ name ∈ names, ∀ t, Q t (t.copyTree (source.joinName name) (target.joinName name)).1)
    (urls : List Url) (w : Workspace) (home : w.execution.libraryRoot = target) :
    Q w.files (extractFrom source names urls w).1.files := by
  induction names generalizing urls w with
  | nil => exact refl _
  | cons name names ih =>
    obtain ⟨first, others⟩ := List.forall_mem_cons.1 copies
    have related := first w.files
    simp only [extractFrom_cons, Workspace.println]
    have home' : ∀ line, (w.execution.println line).libraryRoot = target := fun _ => home
    rw [home]
    have printed := home' ("Extract cached library from " ++ (source.joinName name).text ++ " to " ++
      (target.joinName name).text)
    generalize w.execution.println _ = execution at printed
    split
    · next failed => rwa [failed] at related
    · next files n copied =>
      rw [copied] at related
      split
      · exact related
      · next found _ =>
        exact trans _ _ _ related (ih others (urls ++ found) ⟨files, w.heap, execution⟩ printed)

/-- What is written lies where the names can reach, joined to the directory. -/
def Reached (target : Path) (names : List String) (t t' : FileTree) : Prop :=
  t.Sound → t.Begins target → FileTree.Grows (fun l _ => CanReach t target names l) t t'

theorem reached_copyTree {target source : Path} (member : name ∈ names) (t : FileTree) :
    Reached target names t (t.copyTree source (target.joinName name)).1 := fun sound begins =>
  (copyTree_grows sound source (begins_join begins _)).imp fun _ _ within => ⟨name, member, within⟩

theorem Reached.trans {target : Path} (t t' t'' : FileTree) (first : Reached target names t t')
    (second : Reached target names t' t'') : Reached target names t t'' := by
  intro sound begins
  have grows := first sound begins
  refine grows.trans ((second (grows.sound sound) (grows.begins begins)).imp fun l _ => ?_)
  rintro ⟨name, member, within⟩
  exact ⟨name, member, grows.within_iff.1 within⟩

/-- What is written lies in the child of that name, but for directories on the way to its place. -/
def Enclosed (root : Path) (S : Location) (id : String) (t t' : FileTree) : Prop :=
  t.Sound → t.Closed root S id → FileTree.Grows (t.FillsChild root S id) t t'

theorem enclosed_copyTree {root source : Path} (inward : (Path.mk name).Inward) (t : FileTree) :
    Enclosed root S id t (t.copyTree source ((root.joinName id).joinName name)).1 := fun sound closed =>
  closed.copyTree sound inward source

theorem Enclosed.trans {root : Path} (t t' t'' : FileTree) (first : Enclosed root S id t t')
    (second : Enclosed root S id t' t'') : Enclosed root S id t t'' := by
  intro sound closed
  have grows := first sound closed
  exact grows.trans
    ((second (grows.sound sound) (closed.grown grows)).imp fun l node => grows.fillsChild_iff.1)

/-! ### Keeping and handing out -/

theorem harvest_files (s : LibraryStore) (names : List String) (w : Workspace) :
    (s.harvest names w).2.1.files = (copyLibraries (s.directory s.nextId)
      (Survey.ofClasspath w.execution.root names w.execution.classpath).libraries w).1.files := by
  simp only [harvest]
  generalize Survey.ofClasspath w.execution.root names w.execution.classpath = survey
  generalize copyLibraries (s.directory s.nextId) survey.libraries w = result
  obtain ⟨w₁, e | _⟩ := result
  · rfl
  · cases survey.error <;> rfl

theorem harvest_related (refl : ∀ t, Q t t) (trans : ∀ t t' t'', Q t t' → Q t' t'' → Q t t'')
    (copies : ∀ name ∈ names, ∀ source t, Q t (t.copyTree source ((s.directory s.nextId).joinName name)).1)
    (w : Workspace) : Q w.files (s.harvest names w).2.1.files := by
  rw [harvest_files]
  exact copyLibraries_related refl trans
    (fun library member => copies _ (Survey.mem_libraries member).1 library.2) w

theorem extract_related (refl : ∀ t, Q t t) (trans : ∀ t t' t'', Q t t' → Q t' t'' → Q t t'')
    (copies : ∀ name ∈ kept.names.names, ∀ source t,
      Q t (t.copyTree source (w.execution.libraryRoot.joinName name)).1) :
    Q w.files (s.extract kept w).1.files := by
  unfold extract
  cases kept.directory with
  | none => exact refl _
  | some id =>
    simp only
    split
    · exact extractFrom_related refl trans (fun name member => copies name member _) _ w rfl
    · exact refl _

/-- The files are the same but in the place, and but for directories that were missing on the way. -/
def KeepsTo (before after : FileTree) (p : Path) (place : Location) : Prop :=
  ∀ l, ¬place <+: l → after.node? l = before.node? l ∨
    before.node? l = none ∧ after.node? l = some .directory ∧ before.OnWay p l

theorem Enclosed.keepsTo {root : Path} {t t' : FileTree} (enclosed : Enclosed root S id t t') (sound : t.Sound)
    (closed : t.Closed root S id) : KeepsTo t t' root (S ++ [id]) := by
  intro l outside
  rcases (enclosed sound closed).node l with same | ⟨node, came, inside | ⟨onWay, rfl⟩, raises⟩
  · exact .inl same
  · exact absurd inside outside
  · exact .inr ⟨raises.none_of_directory, came, onWay⟩

theorem Reached.same {target : Path} {t t' : FileTree} (reached : Reached target names t t') (sound : t.Sound)
    (begins : t.Begins target) (l : Location) (unreached : ¬CanReach t target names l) :
    t'.node? l = t.node? l := by
  rcases (reached sound begins).node l with same | ⟨_, -, reaches, -⟩
  · exact same
  · exact absurd reaches unreached

/-! ### Records that have just been made -/

/-- Where a library that has been kept is named by a relative path, the directory of the record is there. -/
theorem harvest_makes (sound : w.files.Sound) (begins : w.files.Begins s.root)
    (word : IsPlain s.nextId ∧ IsClean s.nextId)
    (harvested : (s.harvest names w).2.2 = .ok kept)
    (relative : kept.names.names = [] ∨ ∃ name ∈ kept.names.names, Path.isAbsolute ⟨name⟩ = false)
    (id : String) (named : kept.directory = some id) :
    (s.harvest names w).2.1.files.isDirectory (s.directory id) = true := by
  have pair : s.harvest names w = ((s.harvest names w).1, (s.harvest names w).2.1, .ok kept) := by
    rw [← harvested]
  obtain ⟨copied, -, same, stored, copies, -⟩ := harvest_copies pair
  obtain ⟨more, rfl⟩ := stored id named
  obtain ⟨first, member⟩ := List.exists_mem_of_ne_nil copied more
  rcases relative with none | ⟨name, inside, relative⟩
  · exact absurd ((same first).1 member) (none ▸ List.not_mem_nil)
  · have some := (writable_word word).join_some s.root
    exact copies.makes sound (begins_join begins _) some ((same name).2 inside) relative

theorem resourceUrls_error {files : FileTree} {library : Path} (failed : resourceUrls files library = .error e) :
    ∃ p, e = .invalidPath p := by
  unfold resourceUrls at failed
  generalize (resourceRoots.map library.joinName).filter files.isDirectory = paths at failed
  induction paths with
  | nil => cases failed
  | cons path paths ih =>
    rw [List.mapM_cons] at failed
    rcases first : Url.ofDirectory? path with _ | url
    · rw [directoryUrl, first] at failed
      exact ⟨path, (Except.error.inj failed).symm⟩
    · rw [directoryUrl, first] at failed
      rcases rest : paths.mapM directoryUrl with e' | more
      · rw [rest] at failed
        obtain rfl := Except.error.inj failed
        exact ih rest
      · rw [rest] at failed
        cases failed

theorem extractFrom_not_corrupted (source : Path) (names : List String) (urls : List Url) (w : Workspace)
    (d : Path) : (extractFrom source names urls w).2 ≠ .error (.corrupted d) := by
  induction names generalizing urls w with
  | nil => exact nofun
  | cons name names ih =>
    simp only [extractFrom_cons]
    generalize w.println _ = w₁
    split
    · exact nofun
    · split
      · next failed =>
        obtain ⟨p, rfl⟩ := resourceUrls_error failed
        exact nofun
      · exact ih _ _

/-- Only a record whose directory is missing is taken for corrupted. -/
theorem extract_not_corrupted
    (there : ∀ id, kept.directory = some id → w.files.isDirectory (s.directory id) = true) (d : Path) : (s.extract kept w).2 ≠ .error (.corrupted d) := by
  unfold extract
  cases named : kept.directory with
  | none => exact nofun
  | some id =>
    simp only [there id named, if_true]
    exact extractFrom_not_corrupted _ _ _ w d

end LibraryStore
open FileTree LibraryStore

/-- Where libraries are written when they are kept and handed out, for names of all kinds: only what a name can
reach, joined to the directory that is meant for the copies. Where no name leads above it, and there are no links
in it, nothing changes but in that directory, and but for directories that were missing on the way to the store
or to the run. A record that has just been made is not taken for corrupted, unless all libraries in it are named
by absolute paths. -/
theorem library_copies_stay_inside (s : LibraryStore) (names : List String) (kept : CachedLibraries)
    (w : Workspace) (sound : w.files.Sound) :
    (w.files.Begins s.root →
      (∀ l, ¬CanReach w.files (s.directory s.nextId) names l →
        (s.harvest names w).2.1.files.node? l = w.files.node? l) ∧
      (∀ S, w.files.Closed s.root S s.nextId → (∀ name ∈ names, (Path.mk name).Inward) →
        KeepsTo w.files (s.harvest names w).2.1.files s.root (S ++ [s.nextId])) ∧
      (IsPlain s.nextId ∧ IsClean s.nextId → (s.harvest names w).2.2 = .ok kept →
        (kept.names.names = [] ∨ ∃ name ∈ kept.names.names, Path.isAbsolute ⟨name⟩ = false) →
        ∀ (s₂ : LibraryStore) (w₂ : Workspace), s₂.root = s.root → w₂.files = (s.harvest names w).2.1.files →
          ∀ d, (s₂.extract kept w₂).2 ≠ .error (.corrupted d))) ∧
    (w.files.Begins w.execution.root →
      (∀ l, ¬CanReach w.files w.execution.libraryRoot kept.names.names l →
        (s.extract kept w).1.files.node? l = w.files.node? l) ∧
      (∀ R, w.files.Closed w.execution.root R "libs" → (∀ name ∈ kept.names.names, (Path.mk name).Inward) →
        KeepsTo w.files (s.extract kept w).1.files w.execution.root (R ++ ["libs"]))) := by
  refine ⟨fun begins => ⟨fun l unreached => ?_, fun S closed inward => ?_, ?_⟩,
    fun begins => ⟨fun l unreached => ?_, fun R closed inward => ?_⟩⟩
  · have reached : Reached (s.directory s.nextId) names w.files (s.harvest names w).2.1.files :=
      harvest_related (fun t _ _ => .refl _ t) Reached.trans (fun name member _ t => reached_copyTree member t) w
    exact reached.same sound (begins_join begins _) l unreached
  · have enclosed : Enclosed s.root S s.nextId w.files (s.harvest names w).2.1.files :=
      harvest_related (fun t _ _ => .refl _ t) Enclosed.trans
        (fun name member _ t => enclosed_copyTree (inward name member) t) w
    exact enclosed.keepsTo sound closed
  · intro word harvested relative s₂ w₂ root same d
    refine extract_not_corrupted (fun id named => ?_) d
    rw [same, LibraryStore.directory, root]
    exact harvest_makes sound begins word harvested relative id named
  · have reached : Reached w.execution.libraryRoot kept.names.names w.files (s.extract kept w).1.files :=
      extract_related (fun t _ _ => .refl _ t) Reached.trans fun name member _ t => reached_copyTree member t
    exact reached.same sound (begins_join begins _) l unreached
  · have enclosed : Enclosed w.execution.root R "libs" w.files (s.extract kept w).1.files :=
      extract_related (fun t _ _ => .refl _ t) Enclosed.trans
        fun name member _ t => enclosed_copyTree (inward name member) t
    exact enclosed.keepsTo sound closed

/-- A name that goes up again, but not above where it begins, keeps its copy in the directory. -/
theorem climbing_name_stays_inside :
    let ids n := String.ofList (List.replicate (n + 1) 'd')
    let files : FileTree := ⟨[(["s"], .directory), (["r"], .directory), (["r", "libs"], .directory),
      (["r", "libs", "a"], .directory), (["r", "libs", "b"], .directory),
      (["r", "libs", "b", "x"], .file ⟨#[1]⟩)], []⟩
    let s : LibraryStore := .create ⟨"/s"⟩ ids
    let run := (Execution.create 0 "job" ⟨"/r"⟩).addClasspath (.ofSegments ["r", "libs", "a", "..", "b", ""])
    let w : Workspace := ⟨files, .empty, run⟩
    let w₁ := (s.harvest ["a/../b"] w).2.1
    let kept : CachedLibraries := ⟨some "d", [], [("a/../b", ())]⟩
    files.Sound ∧ files.Closed s.root ["s"] s.nextId ∧ (Path.mk "a/../b").Inward ∧
      (s.harvest ["a/../b"] w).2.2 = .ok kept ∧ KeepsTo files w₁.files s.root (["s"] ++ [s.nextId]) ∧
      (∀ d, (s.extract kept w₁).2 ≠ .error (.corrupted d)) ∧
      (w₁.files.readBytes ⟨"/s/d/b/x"⟩).toOption = some ⟨#[1]⟩ := by
  intro ids files s run w w₁ kept
  have regular : files.Regular := by decide +kernel
  have begins : files.Begins s.root := begins_of_isAbsolute (by decide +kernel) files
  have written : Written s.root ["s"] := ⟨by decide +kernel, by decide, by decide⟩
  have word : IsPlain s.nextId ∧ IsClean s.nextId := by decide +kernel
  have closed : files.Closed s.root ["s"] s.nextId :=
    ⟨begins, (written.placed fun m target => regular.unlinked _ target).leads, word,
      fun m target => regular.unlinked _ target⟩
  have inward : (Path.mk "a/../b").Inward := by decide +kernel
  have harvested : (s.harvest ["a/../b"] w).2.2 = .ok kept := by decide +kernel
  have copied : (w₁.files.readBytes ⟨"/s/d/b/x"⟩).toOption = some ⟨#[1]⟩ := by decide +kernel
  obtain ⟨⟨-, inside, uncorrupted⟩, -⟩ :=
    (library_copies_stay_inside s ["a/../b"] kept w regular.sound).imp_left fun keeping => keeping begins
  have stays := inside ["s"] closed (by simpa using inward)
  have relative : Path.isAbsolute ⟨"a/../b"⟩ = false := by decide +kernel
  have found := uncorrupted word harvested (.inr ⟨_, List.mem_singleton_self _, relative⟩) s w₁ rfl rfl
  exact ⟨regular.sound, closed, inward, harvested, stays, found, copied⟩

/-- A name that begins by going up leads out of the directory. The library lies beside `libs`, where the run has its
own files: its copy is made beside the directory of the record, as one more child of the store, and handing it out
overwrites a file that the later run has beside `libs`. -/
theorem climbing_name_overwrites_another_run :
    let ids n := String.ofList (List.replicate (n + 1) 'd')
    let files : FileTree := ⟨[(["s"], .directory), (["r"], .directory), (["r", "libs"], .directory),
      (["r", "x"], .directory), (["r", "x", "n"], .file ⟨#[1]⟩), (["q"], .directory), (["q", "x"], .directory),
      (["q", "x", "n"], .file ⟨#[2]⟩)], []⟩
    let s : LibraryStore := .create ⟨"/s"⟩ ids
    let run := (Execution.create 0 "job" ⟨"/r"⟩).addClasspath (.ofSegments ["r", "libs", "..", "x", ""])
    let harvest := s.harvest ["../x"] ⟨files, .empty, run⟩
    let kept : CachedLibraries := ⟨some "d", [], [("../x", ())]⟩
    let extract := s.extract kept ⟨harvest.2.1.files, .empty, .create 1 "job" ⟨"/q"⟩⟩
    harvest.2.2 = .ok kept ∧ ¬["s", "d"] <+: ["s", "x", "n"] ∧ files.node? ["s", "x", "n"] = none ∧
      (harvest.2.1.files.readBytes ⟨"/s/x/n"⟩).toOption = some ⟨#[1]⟩ ∧
      ¬["q", "libs"] <+: ["q", "x", "n"] ∧
      (harvest.2.1.files.readBytes ⟨"/q/x/n"⟩).toOption = some ⟨#[2]⟩ ∧
      (extract.1.files.readBytes ⟨"/q/x/n"⟩).toOption = some ⟨#[1]⟩ := by
  decide +kernel

end FlowScript
