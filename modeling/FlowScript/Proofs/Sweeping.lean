import FlowScript.Cache.Janitor
import FlowScript.Proofs.StoreCopies
import Mathlib.Data.List.Sort
import Mathlib.Data.String.Basic

/-! Sweeps. A sweep removes children of the store and leaves all else as it is, the way to the store
included. -/
namespace FlowScript

/-! ### The names in a directory -/

namespace Location

theorem le_total (a b : Location) : (le a b || le b a) = true := by
  induction a generalizing b with
  | nil => simp [le]
  | cons x a ih =>
    cases b with
    | nil => simp [le]
    | cons y b =>
      have behind := ih b
      simp only [le, Bool.or_eq_true, Bool.and_eq_true, decide_eq_true_eq, beq_iff_eq] at behind ⊢
      rcases lt_trichotomy x y with less | rfl | more
      · exact .inl (.inl less)
      · exact behind.imp (fun le => .inr ⟨rfl, le⟩) fun le => .inr ⟨rfl, le⟩
      · exact .inr (.inl more)

theorem le_trans (a b c : Location) (first : le a b = true) (second : le b c = true) : le a c = true := by
  induction a generalizing b c with
  | nil => rfl
  | cons x a ih =>
    cases b with
    | nil => exact nomatch first
    | cons y b =>
      cases c with
      | nil => exact nomatch second
      | cons z c =>
        simp only [le, Bool.or_eq_true, Bool.and_eq_true, decide_eq_true_eq, beq_iff_eq] at first second ⊢
        rcases first with less | ⟨rfl, below⟩
        · rcases second with less' | ⟨rfl, -⟩
          · exact .inl (lt_trans less less')
          · exact .inl less
        · rcases second with less | ⟨rfl, below'⟩
          · exact .inl less
          · exact .inr ⟨rfl, ih b c below below'⟩

theorem le_name {a b : String} : le [a] [b] = true ↔ a ≤ b := by
  simp [le, le_iff_lt_or_eq]

end Location

namespace FileTree

variable {t t' t'' : FileTree} {root p : Path} {S l d : Location} {id name : String}
  {keep keep' : String → Prop}

theorem mem_keys (below : l ≠ []) : l ∈ t.entries.map Prod.fst ↔ ∃ node, t.node? l = some node := by
  rw [← Option.ne_none_iff_exists', node?, if_neg below, Ne, List.lookup_eq_none_iff, List.mem_map]
  simp only [bne_iff_ne, ne_eq, not_forall, not_not, exists_prop, @eq_comm _ l]

theorem mem_names_keys : name ∈ t.names l ↔ l ++ [name] ∈ t.entries.map Prod.fst := by
  simp only [names, below, List.mem_filterMap, List.mem_mergeSort, List.mem_map]
  constructor
  · rintro ⟨⟨rel, node⟩, ⟨⟨place, node'⟩, member, found⟩, chosen⟩
    split at chosen
    · next same =>
      obtain ⟨rfl, rfl⟩ := Prod.mk.inj same
      obtain rfl := Option.some.inj chosen
      simp only [Option.ite_none_right_eq_some, Bool.and_eq_true, List.isPrefixOf_iff_prefix] at found
      obtain ⟨⟨⟨rest, rfl⟩, -⟩, drop⟩ := found
      rw [List.drop_left] at drop
      exact ⟨_, member, congrArg (l ++ ·) (Prod.mk.inj (Option.some.inj drop)).1⟩
    · cases chosen
  · rintro ⟨⟨_, node⟩, member, rfl⟩
    exact ⟨([name], node), ⟨_, member, by simp⟩, rfl⟩

theorem mem_names : name ∈ t.names l ↔ ∃ node, t.node? (l ++ [name]) = some node :=
  mem_names_keys.trans (mem_keys (by simp))

theorem below_distinct (distinct : (t.entries.map Prod.fst).Nodup) (l : Location) :
    (t.below l).Pairwise fun a b => a.1 ≠ b.1 := by
  have symm : ∀ {a b : Location × FileNode}, a.1 ≠ b.1 → b.1 ≠ a.1 := fun ne => ne.symm
  rw [below, (List.mergeSort_perm _ _).pairwise_iff symm]
  refine (List.pairwise_map.1 distinct).filterMap _ fun a b ne a' chosen b' chosen' same => ?_
  obtain ⟨place, node⟩ := a
  obtain ⟨place', node'⟩ := b
  simp only [Option.ite_none_right_eq_some, Option.some.injEq, Bool.and_eq_true,
    List.isPrefixOf_iff_prefix] at chosen chosen'
  obtain ⟨⟨⟨rest, rfl⟩, -⟩, rfl⟩ := chosen
  obtain ⟨⟨⟨rest', rfl⟩, -⟩, rfl⟩ := chosen'
  simp only [List.drop_left] at same
  exact ne (congrArg (l ++ ·) same)

/-- The names in a directory are in order, each once. -/
theorem names_sorted (distinct : (t.entries.map Prod.fst).Nodup) (l : Location) :
    (t.names l).Pairwise (· < ·) := by
  have sorted : (t.below l).Pairwise fun a b => Location.le a.1 b.1 = true :=
    List.pairwise_mergeSort (fun a b c => Location.le_trans a.1 b.1 c.1)
      (fun a b => Location.le_total a.1 b.1) _
  refine (sorted.and (below_distinct distinct l)).filterMap _ fun a b ⟨le, ne⟩ x chosen y chosen' => ?_
  obtain ⟨rel, node⟩ := a
  obtain ⟨rel', node'⟩ := b
  split at chosen
  · next same =>
    obtain ⟨rfl, rfl⟩ := Prod.mk.inj same
    split at chosen'
    · next same' =>
      obtain ⟨rfl, rfl⟩ := Prod.mk.inj same'
      obtain rfl := Option.some.inj chosen
      obtain rfl := Option.some.inj chosen'
      exact lt_of_le_of_ne (Location.le_name.1 le) fun same => ne (congrArg (fun name => [name]) same)
    · exact nomatch chosen'
  · exact nomatch chosen

/-- A list of the names in order can only be the one that is answered. -/
theorem names_eq {listed : List String} (distinct : (t.entries.map Prod.fst).Nodup)
    (sorted : listed.Pairwise (· < ·))
    (all : ∀ name, name ∈ listed ↔ l ++ [name] ∈ t.entries.map Prod.fst) : t.names l = listed :=
  List.Pairwise.eq_of_mem_iff (names_sorted distinct l) sorted fun name =>
    mem_names_keys.trans (all name).symm

/-! ### What a change spares -/

/-- The way to the store is as good as before, and the children that are to be kept are as they were. -/
structure Spares (root : Path) (S : Location) (keep : String → Prop) (t t' : FileTree) : Prop where
  working : t'.workingDirectory = t.workingDirectory
  sound : t.Sound → t'.Sound
  links : ∀ l, t.OnWay root l → ∀ target, t'.node? l = some (.link target) ↔ t.node? l = some (.link target)
  way : ∀ l, t.OnWay root l → t.node? l = some .directory → t'.node? l = some .directory
  kept : ∀ id, keep id → ∀ m, t'.node? (S ++ id :: m) = t.node? (S ++ id :: m)

namespace Spares

theorem refl (root : Path) (S : Location) (keep : String → Prop) (t : FileTree) : Spares root S keep t t :=
  ⟨rfl, id, fun _ _ _ => .rfl, fun _ _ => id, fun _ _ _ => rfl⟩

theorem imp (spares : Spares root S keep t t') (fewer : ∀ id, keep' id → keep id) :
    Spares root S keep' t t' :=
  ⟨spares.working, spares.sound, spares.links, spares.way, fun id kept => spares.kept id (fewer id kept)⟩

theorem start (spares : Spares root S keep t t') (p : Path) : t'.start p = t.start p := by
  simp only [FileTree.start, spares.working]

theorem onWay_iff (spares : Spares root S keep t t') : t'.OnWay root l ↔ t.OnWay root l := by
  rw [OnWay, spares.start]
  exact passes_congr spares.links

theorem trans (first : Spares root S keep t t') (second : Spares root S keep t' t'') :
    Spares root S keep t t'' where
  working := second.working.trans first.working
  sound := second.sound ∘ first.sound
  links l onWay target :=
    (second.links l (first.onWay_iff.2 onWay) target).trans (first.links l onWay target)
  way l onWay there := second.way l (first.onWay_iff.2 onWay) (first.way l onWay there)
  kept id keep m := (second.kept id keep m).trans (first.kept id keep m)

theorem placed (spares : Spares root S keep t t') (placed : t.Placed root S) : t'.Placed root S where
  begins := by
    rw [Begins, spares.start]
    exact spares.way _ (.here t _ _) placed.begins
  leads l leads := by
    rw [spares.start] at leads
    exact placed.leads l ((leads_congr spares.links).1 leads)
  outside l onWay := placed.outside l (spares.onWay_iff.1 onWay)

theorem reaches (spares : Spares root S keep t t') (sound : t.Sound) (begins : t.Begins root)
    (reaches : t.Reaches root d) :
    t'.Reaches root d := by
  refine ⟨reaches.clean, ?_⟩
  have stays : ∀ l, t.Passes (t.start root) root.trunk l → Stays (t.node? l) (t'.node? l) := by
    intro l passes
    have onWay := passes_trunk.1 passes
    rcases reaches.way sound begins onWay with there | ⟨target, there⟩
    · rw [there]
      exact spares.way l onWay there
    · rw [there]
      exact (spares.links l onWay target).2 there
  obtain ⟨node, found, stays⟩ := walk_stays stays reaches.walk
  obtain rfl : node = .directory := by simpa [Stays] using stays
  rw [spares.start]
  exact found

end Spares

/-- Growth that is kept out of some children of the store spares them. -/
theorem Grows.spares (grows : Grows reach t t')
    (apart : ∀ id, keep id → ∀ m node, ¬reach (S ++ id :: m) node) : Spares root S keep t t' where
  working := grows.working
  sound := grows.sound
  links l _ := grows.link_iff l
  way l _ := grows.directory
  kept id kept m := by
    rcases grows.node (S ++ id :: m) with same | ⟨node, -, here, -⟩
    · exact same
    · exact absurd here (apart id kept m node)

/-- A file that appears in the store spares all children but the one that it is. -/
theorem spares_stray (root : Path) (there : t.node? S = some .directory)
    (absent : t.node? (S ++ [id]) = none)
    (isName : IsName id ∧ IsClean id) (content : ByteArray) :
    Spares root S (· ≠ id) t (t.put (S ++ [id]) (.file content)) := by
  have grows : Grows (fun l _ => l = S ++ [id]) t (t.put (S ++ [id]) (.file content)) :=
    .child rfl there absent isName .file
  refine grows.spares fun other ne m node same => ne ?_
  exact (List.cons.inj (List.append_cancel_left same)).1

/-! ### Removing children -/

/-- The children that are gone are removed with all below them, and nothing else. -/
structure Sheds (S : Location) (gone : String → Prop) (t t' : FileTree) : Prop where
  working : t'.workingDirectory = t.workingDirectory
  sound : t.Sound → t'.Sound
  node_gone : ∀ id, gone id → ∀ m, t'.node? (S ++ id :: m) = none
  node_same : ∀ l, (∀ id m, gone id → l ≠ S ++ id :: m) → t'.node? l = t.node? l

theorem Sound.remove (sound : t.Sound) (nonempty : l ≠ []) : (t.remove l).Sound := by
  have old : ∀ {m node}, (t.remove l).node? m = some node → ¬l <+: m ∧ t.node? m = some node := by
    intro m node there
    rw [node?_remove t nonempty] at there
    split at there
    · exact nomatch there
    · next outside => exact ⟨outside, there⟩
  constructor
  case distinct => exact sound.distinct.sublist (List.filter_sublist.map Prod.fst)
  case isName => exact fun there => sound.isName (old there).2
  case linked => exact fun there => sound.linked (old there).2
  case housed =>
    intro m name node there
    obtain ⟨outside, there⟩ := old there
    rw [node?_remove t nonempty, if_neg fun inside => outside (inside.trans (List.prefix_append m _))]
    exact sound.housed there

theorem Sheds.refl (S : Location) (t : FileTree) : Sheds S (fun _ => False) t t :=
  ⟨rfl, id, fun _ => False.elim, fun _ _ => rfl⟩

theorem sheds_remove (S : Location) (id : String) (t : FileTree) :
    Sheds S (· = id) t (t.remove (S ++ [id])) where
  working := rfl
  sound sound := sound.remove (by simp)
  node_gone := by
    rintro _ rfl m
    rw [node?_remove t (by simp), if_pos (by simp)]
  node_same l outside := by
    rw [node?_remove t (by simp), if_neg]
    rintro ⟨m, rfl⟩
    exact outside id m rfl (by simp)

theorem Sheds.trans {gone gone' : String → Prop} (first : Sheds S gone t t')
    (second : Sheds S gone' t' t'') :
    Sheds S (fun id => gone id ∨ gone' id) t t'' where
  working := second.working.trans first.working
  sound := second.sound ∘ first.sound
  node_gone id is m := by
    by_cases gone' : gone' id
    · exact second.node_gone id gone' m
    · rw [second.node_same, first.node_gone id (is.resolve_right gone')]
      rintro other m' gone same
      obtain ⟨rfl, -⟩ := List.cons.inj (List.append_cancel_left same)
      exact gone' gone
  node_same l outside := by
    rw [second.node_same l fun id m gone => outside id m (.inr gone),
      first.node_same l fun id m gone => outside id m (.inl gone)]

theorem Sheds.imp {gone gone' : String → Prop} (sheds : Sheds S gone t t')
    (iff : ∀ id, gone id ↔ gone' id) :
    Sheds S gone' t t' := by
  obtain rfl : gone = gone' := funext fun id => propext (iff id)
  exact sheds

/-- The way to the store does not lead through what is gone. -/
theorem Sheds.way {gone : String → Prop} (sheds : Sheds S gone t t') (placed : t.Placed root S)
    (onWay : t.OnWay root l) : t'.node? l = t.node? l := by
  refine sheds.node_same l ?_
  rintro id m - rfl
  simpa using placed.outside _ onWay (List.prefix_append S _)

theorem Sheds.spares {gone : String → Prop} (sheds : Sheds S gone t t') (placed : t.Placed root S) :
    Spares root S (fun id => ¬gone id) t t' := by
  have way := fun l => sheds.way placed (l := l)
  refine ⟨sheds.working, sheds.sound, fun l onWay target => by rw [way l onWay],
    fun l onWay there => (way l onWay).trans there, fun id kept m => sheds.node_same _ ?_⟩
  rintro other m' gone same
  obtain ⟨rfl, -⟩ := List.cons.inj (List.append_cancel_left same)
  exact kept gone

theorem removalError?_join (isName : IsName id ∧ IsClean id) (p : Path) :
    removalError? (p.joinName id) = none := by
  have parts : (p.joinName id).parts = p.trunk ++ [id] := (writable_name isName).join_parts p
  have some : id.isEmpty = false := by simpa using isName.1.some
  unfold removalError?
  rw [parts, List.reverse_append]
  simp only [List.reverse_cons, List.reverse_nil, List.nil_append, List.singleton_append,
    List.dropWhile_cons, some,
    Bool.false_eq_true, if_false]
  split
  · next same => exact absurd (List.cons.inj same).1 isName.1.notHere
  · next same => exact absurd (List.cons.inj same).1 isName.1.notUp
  · rfl

theorem Sound.none_below (sound : t.Sound) (none : t.node? l = none) (rel : Location) :
    t.node? (l ++ rel) = Option.none := by
  cases there : t.node? (l ++ rel) with
  | none => rfl
  | some node =>
    by_cases whole : rel = []
    · rw [whole, List.append_nil] at there
      exact nomatch there.symm.trans none
    · rw [← List.nil_append rel] at there
      have above := sound.above there whole
      rw [List.append_nil] at above
      exact nomatch above.symm.trans none

/-- A child of the store can be removed, whatever it is. -/
theorem removeTree_child (sound : t.Sound) (reaches : t.Reaches p S) (isName : IsName id ∧ IsClean id) :
    ∃ t', t.removeTree (p.joinName id) = (t', .ok ()) ∧ Sheds S (· = id) t t' := by
  have found := reaches.resolve_child isName.1 isName.2
  unfold removeTree
  cases there : t.node? (S ++ [id]) with
  | none =>
    rw [there] at found
    simp only [found]
    refine ⟨t, rfl, rfl, fun sound => sound, ?_, fun _ _ => rfl⟩
    rintro _ rfl m
    simpa using sound.none_below there m
  | some node =>
    rw [there] at found
    simp only [found]
    cases node with
    | directory =>
      simp only [removalError?_join isName]
      exact ⟨_, rfl, sheds_remove S id t⟩
    | file | link => exact ⟨_, rfl, sheds_remove S id t⟩

end FileTree

namespace LibraryStore
open FileTree

variable {s : LibraryStore} {files : FileTree} {S : Location} {ids : List String}

theorem children_of_directory? (found : files.directory? s.root = some S) :
    s.children files = .ok (files.names S) := by
  simp only [children, readDirectory, directory?_eq_some.1 found]

/-- The children of a store are the names in its directory; a store that is not there has none. -/
theorem children_spec (listed : s.children files = .ok ids) :
    (∃ l, files.directory? s.root = some l ∧ ids = files.names l) ∨
    (files.directory? s.root = none ∧ ids = []) := by
  cases found : files.directory? s.root with
  | some l =>
    rw [children_of_directory? found] at listed
    exact .inl ⟨l, rfl, (Except.ok.inj listed).symm⟩
  | none =>
    refine .inr ⟨rfl, ?_⟩
    unfold children readDirectory at listed
    rw [FileTree.directory?] at found
    rcases resolved : files.resolve true s.root with e | ⟨l, _ | _ | _⟩ | l
    · simp only [resolved] at listed
      cases e <;> simp_all
    all_goals simp_all

theorem children_cases (placed : files.Placed s.root S) (listed : s.children files = .ok ids) :
    (files.directory? s.root = some S ∧ ids = files.names S) ∨
    (files.directory? s.root = none ∧ ids = []) := by
  rcases children_spec listed with ⟨l, found, rfl⟩ | missing
  · obtain rfl := (reaches_of_directory? found).eq_place placed
    exact .inl ⟨found, rfl⟩
  · exact .inr missing

end LibraryStore

/-! ### Sweeping the store -/

namespace ScriptCache
open FileTree

variable {c : ScriptCache} {files files' : FileTree} {S : Location} {id : String}

theorem sweepChildren_kept (used : c.uses id = true) (ids : List String) (report : SweepReport)
    (files : FileTree) :
    c.sweepChildren (id :: ids) report files =
      c.sweepChildren ids { report with kept := report.kept ++ [id] } files :=
  if_pos used

theorem sweepChildren_deleted (unused : c.uses id = false)
    (removed : files.removeTree (c.store.directory id) = (files', .ok ())) (ids : List String)
    (report : SweepReport) :
    c.sweepChildren (id :: ids) report files =
      c.sweepChildren ids { report with deleted := report.deleted ++ [c.store.directory id] } files' := by
  refine (if_neg (by simp [unused])).trans ?_
  simp only [removed]

theorem sweepChildren_stopped (unused : c.uses id = false)
    (failed : files.removeTree (c.store.directory id) = (files', .error fault)) (ids : List String)
    (report : SweepReport) : c.sweepChildren (id :: ids) report files = (files', .error (.io fault)) := by
  refine (if_neg (by simp [unused])).trans ?_
  simp only [failed]

/-- A sweep of children keeps those that are in use and removes the others. -/
theorem sweepChildren_spec (sound : files.Sound) (placed : files.Placed c.store.root S)
    (reaches : files.Reaches c.store.root S) (ids : List String)
    (isName : ∀ id ∈ ids, IsName id ∧ IsClean id) (report : SweepReport) :
    ∃ files', c.sweepChildren ids report files = (files', .ok {
        kept := report.kept ++ ids.filter c.uses
        deleted := report.deleted ++ (ids.filter fun id => !c.uses id).map c.store.directory
        purged := report.purged }) ∧
      Sheds S (fun id => id ∈ ids ∧ c.uses id = false) files files' := by
  induction ids generalizing files report with
  | nil =>
    have swept : c.sweepChildren [] report files = (files, .ok report) := rfl
    exact ⟨files, by simp [swept], (Sheds.refl S files).imp (by simp)⟩
  | cons id ids ih =>
    obtain ⟨first, others⟩ := List.forall_mem_cons.1 isName
    by_cases used : c.uses id = true
    · obtain ⟨files', swept, sheds⟩ :=
        ih sound placed reaches others { report with kept := report.kept ++ [id] }
      refine ⟨files', ?_, sheds.imp fun other => ?_⟩
      · rw [sweepChildren_kept used, swept]
        simp [used]
      · constructor
        · exact fun ⟨member, unused⟩ => ⟨List.mem_cons_of_mem id member, unused⟩
        · rintro ⟨member, unused⟩
          rcases List.mem_cons.1 member with rfl | member
          · exact nomatch used.symm.trans unused
          · exact ⟨member, unused⟩
    · obtain ⟨files₁, removed, sheds₁⟩ := removeTree_child sound reaches first
      have spares := sheds₁.spares placed
      obtain ⟨files', swept, sheds⟩ := ih (sheds₁.sound sound) (spares.placed placed)
        (spares.reaches sound placed.begins reaches) others
        { report with deleted := report.deleted ++ [c.store.directory id] }
      rw [Bool.not_eq_true] at used
      refine ⟨files', ?_, (sheds₁.trans sheds).imp fun other => ?_⟩
      · rw [sweepChildren_deleted used removed, swept]
        simp [used]
      · constructor
        · rintro (rfl | ⟨member, unused⟩)
          · exact ⟨List.mem_cons_self, used⟩
          · exact ⟨List.mem_cons_of_mem id member, unused⟩
        · rintro ⟨member, unused⟩
          rcases List.mem_cons.1 member with rfl | member
          · exact .inl rfl
          · exact .inr ⟨member, unused⟩

theorem sweepChildren_used (used : ∀ id ∈ ids, c.uses id = true) (report : SweepReport) (files : FileTree) :
    c.sweepChildren ids report files = (files, .ok { report with kept := report.kept ++ ids }) := by
  induction ids generalizing report with
  | nil =>
    rw [List.append_nil]
    rfl
  | cons id ids ih =>
    obtain ⟨first, others⟩ := List.forall_mem_cons.1 used
    rw [sweepChildren_kept first, ih others]
    simp

/-- What a successful sweep has done with these children of the store. -/
structure SweptOf (c : ScriptCache) (S : Location) (files files' : FileTree) (report : SweepReport)
    (ids : List String) : Prop where
  listed : c.store.children files = .ok ids
  sorted : ids.Pairwise (· < ·)
  there : ∀ id ∈ ids, ∃ node, files.node? (S ++ [id]) = some node
  all : files.isDirectory c.store.root = true → ∀ id node, files.node? (S ++ [id]) = some node → id ∈ ids
  reported : report = ⟨ids.filter c.uses, (ids.filter fun id => !c.uses id).map c.store.directory, false⟩
  sheds : Sheds S (fun id => id ∈ ids ∧ c.uses id = false) files files'
  again : c.sweep files' = (files', .ok ⟨report.kept, [], false⟩)

/-- A sweep leaves the files alone where the store cannot be listed, and succeeds otherwise. -/
theorem sweep_cases (c : ScriptCache) (sound : files.Sound) (placed : files.Placed c.store.root S) :
    (∃ e, c.sweep files = (files, .error e)) ∨
      ∃ files' report ids, c.sweep files = (files', .ok report) ∧ c.SweptOf S files files' report ids := by
  cases listed : c.store.children files with
  | error e => exact .inl ⟨e, by rw [sweep, listed]⟩
  | ok ids =>
    refine .inr ?_
    rcases LibraryStore.children_cases placed listed with ⟨found, rfl⟩ | ⟨missing, rfl⟩
    · have isName : ∀ id ∈ files.names S, IsName id ∧ IsClean id := fun id member => by
        obtain ⟨node, there⟩ := mem_names.1 member
        exact sound.isName there id (by simp)
      have reaches := reaches_of_directory? found
      obtain ⟨files', swept, sheds⟩ := sweepChildren_spec sound placed reaches _ isName ⟨[], [], false⟩
      simp only [List.nil_append] at swept
      -- What is left is in use, and it is listed in the order in which it was before.
      have sound' := sheds.sound sound
      have found' : files'.directory? c.store.root = some S := by
        rw [directory?_eq_some] at found ⊢
        exact (resolve_congr sheds.working fun l onWay => sheds.way placed onWay).trans found
      have names : files'.names S = (files.names S).filter c.uses := by
        refine List.Pairwise.eq_of_mem_iff (names_sorted sound'.distinct S)
          ((names_sorted sound.distinct S).filter _) fun id => ?_
        rw [List.mem_filter, mem_names, mem_names]
        by_cases gone : id ∈ files.names S ∧ c.uses id = false
        · simp [show files'.node? (S ++ [id]) = none from sheds.node_gone id gone [], gone.2]
        · have same : files'.node? (S ++ [id]) = files.node? (S ++ [id]) := by
            refine sheds.node_same _ fun other m gone' same => ?_
            obtain ⟨rfl, -⟩ := List.cons.inj (List.append_cancel_left same)
            exact gone gone'
          rw [same, ← mem_names]
          rw [not_and, Bool.not_eq_false] at gone
          exact ⟨fun member => ⟨member, gone member⟩, fun both => both.1⟩
      refine ⟨files', _, files.names S, by rw [sweep, listed]; exact swept, listed,
        names_sorted sound.distinct S,
        fun id => mem_names.1, fun _ id node there => mem_names.2 ⟨node, there⟩, rfl, sheds, ?_⟩
      rw [sweep, LibraryStore.children_of_directory? found', names]
      exact sweepChildren_used (fun id member => (List.mem_filter.1 member).2) ⟨[], [], false⟩ files'
    · have swept : c.sweep files = (files, .ok ⟨[], [], false⟩) := by rw [sweep, listed]; rfl
      refine ⟨files, _, [], swept, listed, .nil, nofun, fun there => ?_, rfl,
        (Sheds.refl S files).imp (by simp), swept⟩
      rw [isDirectory, missing] at there
      exact nomatch there

end ScriptCache
end FlowScript
