import FlowScript.FileTree.Change
import FlowScript.Proofs.FileWays

/-! Making directories and copying files lets a tree grow: what is there stays there, but for the content
of files, and what comes is on the way of the path that was given. -/
namespace FlowScript

/-- A name that can stand in a text between slashes. -/
structure IsClean (name : String) : Prop where
  noSlash : '/' ∉ name.toList
  noNull : '\x00' ∉ name.toList

namespace FileTree

/-- What file systems see to: one node a location, names that are names, and directories above all that
is there. -/
structure Sound (t : FileTree) : Prop where
  distinct : (t.entries.map Prod.fst).Nodup
  isName : t.node? l = some node → ∀ name ∈ l, IsName name ∧ IsClean name
  linked : t.node? l = some (.link target) → '\x00' ∉ target.text.toList
  housed : t.node? (l ++ [name]) = some node → t.node? l = some .directory

/-- The path begins in a directory that is there, as all absolute paths do. -/
abbrev Begins (t : FileTree) (p : Path) : Prop := t.node? (t.start p) = some .directory

/-- How a location may change where a tree grows. -/
inductive Raises : Option FileNode → Option FileNode → Prop where
  | directory : Raises none (some .directory)
  | file : Raises none (some (.file content))
  | content : Raises (some (.file before)) (some (.file after))

/-- The tree has grown at some locations, by some nodes, and is the same everywhere else. -/
structure Grows (reach : Location → FileNode → Prop) (t t' : FileTree) : Prop where
  working : t'.workingDirectory = t.workingDirectory
  node : ∀ l, t'.node? l = t.node? l ∨
    ∃ node, t'.node? l = some node ∧ reach l node ∧ Raises (t.node? l) (some node)
  sound : t.Sound → t'.Sound

variable {t t' t'' : FileTree} {d e l : Location} {part name : String} {rest names parts : List String}
  {reach reach' : Location → FileNode → Prop} {p : Path} {followLast : Bool}

namespace Grows

theorem refl (reach : Location → FileNode → Prop) (t : FileTree) : Grows reach t t :=
  ⟨rfl, fun _ => .inl rfl, id⟩

theorem imp (wider : ∀ l node, reach l node → reach' l node) (grows : Grows reach t t') :
    Grows reach' t t' where
  working := grows.working
  node l := (grows.node l).imp_right fun ⟨node, there, here, raises⟩ =>
    ⟨node, there, wider l node here, raises⟩
  sound := grows.sound

theorem trans (first : Grows reach t t') (second : Grows reach t' t'') : Grows reach t t'' where
  working := second.working.trans first.working
  node l := by
    rcases second.node l with same | ⟨node, there, here, raises⟩
    · rw [same]
      exact first.node l
    · refine .inr ⟨node, there, here, ?_⟩
      rcases first.node l with same | ⟨between, came, -, before⟩
      · rwa [← same]
      · -- What has come as a directory stays, so that only contents can change once more.
        rw [came] at raises
        generalize t.node? l = a at before
        cases before <;> cases raises
        · exact .file
        · exact .content
  sound := second.sound ∘ first.sound

theorem link_iff (grows : Grows reach t t') (l : Location) (target : Path) :
    t'.node? l = some (.link target) ↔ t.node? l = some (.link target) := by
  rcases grows.node l with same | ⟨node, there, -, raises⟩
  · rw [same]
  · rw [there]
    generalize t.node? l = a at raises
    cases raises <;> simp

theorem stays (grows : Grows reach t t') (l : Location) : Stays (t.node? l) (t'.node? l) := by
  rcases grows.node l with same | ⟨node, there, -, raises⟩
  · rw [same]
    exact .refl _
  · rw [there]
    generalize t.node? l = a at raises
    cases raises <;> simp [Stays]

theorem start (grows : Grows reach t t') (p : Path) : t'.start p = t.start p := by
  simp only [FileTree.start, grows.working]

theorem leads_iff (grows : Grows reach t t') : t'.Leads d parts l ↔ t.Leads d parts l :=
  leads_congr fun l _ => grows.link_iff l

theorem passes_iff (grows : Grows reach t t') : t'.Passes d parts l ↔ t.Passes d parts l :=
  passes_congr fun l _ => grows.link_iff l

theorem directory (grows : Grows reach t t') (there : t.node? l = some .directory) :
    t'.node? l = some .directory := by
  simpa [there, Stays] using grows.stays l

theorem begins (grows : Grows reach t t') (begins : t.Begins p) : t'.Begins p := by
  rw [Begins, grows.start]
  exact grows.directory begins

end Grows

/-! ### What paths lead to -/

theorem resolve_eq_ok : t.resolve followLast p = .ok place ↔
    '\x00' ∉ p.text.toList ∧ p.text ≠ "" ∧ t.walk followLast maxLinks (t.start p) p.parts = .ok place := by
  simp only [resolve, start]
  split
  · next null => simp_all
  · next clean =>
    split
    · next empty => simp_all
    · next some => simp_all

theorem clean_of_mem_parts (clean : '\x00' ∉ p.text.toList) (member : part ∈ p.parts) : IsClean part :=
  ⟨Text.separator_not_mem member, fun inside => clean (Text.of_mem_split member inside).1⟩

theorem begins_of_isAbsolute (absolute : p.isAbsolute = true) (t : FileTree) : t.Begins p := by
  rw [Begins, start, if_pos absolute]
  exact t.node?_root

/-- A path goes on from where it begins, or begins anew with the path behind it. -/
theorem begins_join (begins : t.Begins p) (q : Path) : t.Begins (p.join q) := by
  by_cases absolute : q.isAbsolute = true
  · rw [Path.join, absolute, Bool.true_or, if_pos rfl]
    exact begins_of_isAbsolute absolute t
  · have relative : q.isAbsolute = false := by simpa using absolute
    rwa [Begins, start, Path.isAbsolute_join relative]

/-- Ways through directories stay in directories. -/
theorem Sound.gets (sound : t.Sound) (gets : t.Gets (d, parts) (e, left))
    (begins : t.node? d = some .directory) : t.node? e = some .directory := by
  generalize reached : (e, left) = x at gets
  induction gets generalizing e left with
  | refl =>
    obtain ⟨rfl, rfl⟩ := Prod.mk.inj reached
    exact begins
  | @tail y _ _ moves ih =>
    subst reached
    obtain ⟨e₁, left₁⟩ := y
    have there := ih rfl
    cases moves with
    | skip => exact there
    | up =>
      rcases List.eq_nil_or_concat' e₁ with rfl | ⟨above, last, rfl⟩
      · exact t.node?_root
      · rw [List.dropLast_concat]
        exact sound.housed there
    | down _ _ entered => exact entered
    | link =>
      unfold linkBase
      split
      · exact t.node?_root
      · exact there

/-- Above all that is there are directories. -/
theorem Sound.above (sound : t.Sound) (there : t.node? (l ++ (names ++ rest)) = some node)
    (some : rest ≠ []) :
    t.node? (l ++ names) = Option.some .directory := by
  induction rest generalizing names with
  | nil => exact absurd rfl some
  | cons name rest ih =>
    by_cases last : rest = []
    · subst last
      rw [← List.append_assoc] at there
      exact sound.housed there
    · have next : t.node? (l ++ (names ++ [name])) = Option.some .directory :=
        ih (by simpa using there) last
      rw [← List.append_assoc] at next
      exact sound.housed next

theorem Sound.above_directory (sound : t.Sound) (there : t.node? (l ++ names) = some .directory)
    (front : parts <+: names) : t.node? (l ++ parts) = some .directory := by
  obtain ⟨rest, rfl⟩ := front
  by_cases whole : rest = []
  · rwa [whole, List.append_nil] at there
  · exact sound.above there whole

/-- Ways meet clean names only. -/
theorem Sound.comes_clean (sound : t.Sound) (comes : t.Comes (d, parts) (e, left))
    (clean : ∀ part ∈ parts, IsClean part) : ∀ part ∈ left, IsClean part := by
  generalize reached : (e, left) = x at comes
  induction comes generalizing e left with
  | refl =>
    obtain ⟨rfl, rfl⟩ := Prod.mk.inj reached
    exact clean
  | @tail y _ _ moves ih =>
    subst reached
    obtain ⟨e₁, left₁⟩ := y
    have clean := ih rfl
    cases moves with
    | skip | up | down => exact (List.forall_mem_cons.1 clean).2
    | link _ link =>
      intro part member
      rcases List.mem_append.1 member with first | behind
      · exact clean_of_mem_parts (sound.linked link) first
      · exact (List.forall_mem_cons.1 clean).2 part behind

/-- All places on a way that gets to its end are got to. -/
theorem Gets.through (gets : t.Gets x (e, [])) (comes : t.Comes x y) : t.Gets x y ∧ t.Gets y (e, []) := by
  induction comes with
  | refl => exact ⟨.refl, gets⟩
  | tail _ moves ih =>
    obtain ⟨first, second⟩ := ih
    rcases Relation.ReflTransGen.cases_head second with rfl | ⟨z, entered, rest⟩
    · cases moves
    · obtain rfl := moves.unique (entered.imp fun _ _ => trivial)
      exact ⟨first.tail entered, rest⟩

/-- All that is passed on the way to a directory is there. -/
theorem Sound.passed (sound : t.Sound) (begins : t.node? d = some .directory)
    (got : t.walk true n d parts = .ok (.taken e .directory)) (passes : t.Passes d parts l) :
    t.node? l = some .directory ∨ ∃ target, t.node? l = some (.link target) := by
  obtain ⟨e', left, gets, arrives⟩ := walk_finds got
  cases arrives with
  | directory =>
    obtain ⟨between, ahead, comes, here⟩ := passes
    obtain ⟨first, second⟩ := gets.through comes
    rcases here with rfl | ⟨part, rest, rfl, isName, rfl⟩
    · exact .inl (sound.gets first begins)
    · rcases Relation.ReflTransGen.cases_head second with same | ⟨_, moves, _⟩
      · exact nomatch (Prod.mk.inj same).2
      · cases moves with
        | skip blank => exact absurd blank isName.not_blank
        | up => exact absurd rfl isName.notUp
        | down _ _ entered => exact .inl entered
        | link _ there => exact .inr ⟨_, there⟩

theorem leads_blanks (blank : ∀ part ∈ rest, part = "") : t.Leads d rest d := by
  induction rest with
  | nil => exact .refl
  | cons part rest ih =>
    obtain ⟨rfl, others⟩ := List.forall_mem_cons.1 blank
    exact .head (.skip (.inl rfl)) (ih others)

/-- A place in a directory where nothing is. -/
structure Vacant (t : FileTree) (l : Location) : Prop where
  none : t.node? l = none
  housed : ∃ d name, l = d ++ [name] ∧ t.node? d = some .directory ∧ IsName name ∧ IsClean name

theorem resolve_free (sound : t.Sound) (begins : t.Begins p)
    (found : t.resolve followLast p = .ok (.free l)) :
    t.Vacant l ∧ t.Leads (t.start p) p.parts l := by
  obtain ⟨clean, -, walked⟩ := resolve_eq_ok.1 found
  obtain ⟨e, left, gets, arrives⟩ := walk_finds walked
  cases arrives with
  | free isName none blanks =>
    have there := sound.gets gets begins
    have cleanLeft := sound.comes_clean gets.comes fun _ => clean_of_mem_parts clean
    refine ⟨⟨none, e, _, rfl, there, isName, (List.forall_mem_cons.1 cleanLeft).1⟩, ?_⟩
    exact gets.comes.trans (.head (.down isName (by simp [none]) trivial) (leads_blanks blanks))

theorem resolve_leads (found : t.resolve true p = .ok (.taken l node)) : t.Leads (t.start p) p.parts l := by
  obtain ⟨-, -, walked⟩ := resolve_eq_ok.1 found
  obtain ⟨e, left, gets, arrives⟩ := walk_finds walked
  cases arrives with
  | directory => exact gets.comes
  | file isName there => exact gets.comes.trans (.single (.down isName (by simp [there]) trivial))
  | link kept => exact nomatch kept

theorem resolve_taken (sound : t.Sound) (begins : t.Begins p)
    (found : t.resolve true p = .ok (.taken l node)) :
    t.node? l = some node := by
  obtain ⟨-, -, walked⟩ := resolve_eq_ok.1 found
  obtain ⟨e, left, gets, arrives⟩ := walk_finds walked
  cases arrives with
  | directory => exact sound.gets gets begins
  | file _ there => exact there
  | link kept => exact nomatch kept

theorem resolve_file (found : t.resolve followLast p = .ok (.taken l (.file content))) :
    t.node? l = some (.file content) := by
  obtain ⟨-, -, walked⟩ := resolve_eq_ok.1 found
  obtain ⟨e, left, -, arrives⟩ := walk_finds walked
  cases arrives with
  | file _ there => exact there

/-- Trees that are the same along a way find the same at its end. -/
theorem resolve_congr (working : t'.workingDirectory = t.workingDirectory)
    (same : ∀ l, t.Passes (t.start p) p.parts l → t'.node? l = t.node? l) :
    t'.resolve followLast p = t.resolve followLast p := by
  have walked :
      t'.walk followLast maxLinks (t.start p) p.parts = t.walk followLast maxLinks (t.start p) p.parts :=
    walk_congr same
  simp only [resolve, start, working] at walked ⊢
  rw [walked]

/-! ### Making directories -/

theorem Raises.not_directory (raises : Raises (t.node? l) b) : t.node? l ≠ some .directory := by
  generalize t.node? l = a at raises
  cases raises <;> simp

theorem Raises.ne_nil (raises : Raises (t.node? l) b) : l ≠ [] := by
  rintro rfl
  exact raises.not_directory t.node?_root

theorem Sound.put (sound : t.Sound) (raises : Raises (t.node? l) (some node))
    (vacant : t.node? l = none → t.Vacant l) : (t.put l node).Sound := by
  have some := raises.ne_nil
  have other : ∀ {m}, t.node? m = Option.some .directory →
    (t.put l node).node? m = Option.some .directory := by
    intro m there
    rw [node?_put t some, if_neg (by rintro rfl; exact raises.not_directory there), there]
  have old : ∀ {m} {node'}, (t.put l node).node? m = Option.some node' →
      m = l ∨ t.node? m = Option.some node' := by
    intro m node' there
    rw [node?_put t some] at there
    split at there
    · next here => exact .inl here
    · exact .inr there
  -- What is put somewhere stands in a directory, be it new or not.
  have place : (∃ before, t.node? l = Option.some before) ∨ t.Vacant l := by
    cases here : t.node? l with
    | none => exact .inr (vacant here)
    | some before => exact .inl ⟨before, rfl⟩
  constructor
  case distinct =>
    refine List.nodup_cons.2 ⟨?_, sound.distinct.sublist ?_⟩
    · simp
    · exact List.filter_sublist.map Prod.fst
  case isName =>
    intro m node' there
    rcases old there with rfl | there
    · rcases place with ⟨before, there⟩ | ⟨-, d, name, rfl, above, isName, clean⟩
      · exact sound.isName there
      · intro part member
        rcases List.mem_append.1 member with member | member
        · exact sound.isName above part member
        · obtain rfl := List.mem_singleton.1 member
          exact ⟨isName, clean⟩
    · exact sound.isName there
  case linked =>
    intro m target there
    rw [node?_put t some] at there
    split at there
    · obtain rfl := Option.some.inj there
      generalize t.node? l = a at raises
      cases raises
    · exact sound.linked there
  case housed =>
    intro m name node' there
    rcases old there with rfl | there
    · rcases place with ⟨before, there⟩ | ⟨-, d, name', same, above, -, -⟩
      · exact other (sound.housed there)
      · obtain ⟨rfl, -⟩ := List.append_inj' same rfl
        exact other above
    · exact other (sound.housed there)

theorem Grows.put {node : FileNode} (here : reach l node) (raises : Raises (t.node? l) (some node))
    (vacant : t.Sound → t.node? l = none → t.Vacant l) : Grows reach t (t.put l node) where
  working := rfl
  node m := by
    rw [node?_put t raises.ne_nil]
    split
    · next same => exact .inr ⟨node, rfl, same ▸ here, same ▸ raises⟩
    · exact .inl rfl
  sound sound := sound.put raises (vacant sound)

/-- A new node in a directory. -/
theorem Grows.child {node : FileNode} (here : reach (d ++ [name]) node)
    (there : t.node? d = some .directory) (absent : t.node? (d ++ [name]) = none)
    (isName : IsName name ∧ IsClean name) (raises : Raises none (some node)) :
    Grows reach t (t.put (d ++ [name]) node) :=
  .put here (absent ▸ raises) fun _ _ => ⟨absent, d, name, rfl, there, isName.1, isName.2⟩

/-- The way of the path, and what is looked up from it. -/
abbrev OnWay (t : FileTree) (p : Path) (l : Location) : Prop := t.Passes (t.start p) p.parts l

/-- Directories come on the way of the path. -/
abbrev PavesWay (t : FileTree) (p : Path) (l : Location) (node : FileNode) : Prop :=
  t.OnWay p l ∧ node = .directory

theorem Grows.onWay_iff (grows : Grows reach t t') : t'.OnWay p l ↔ t.OnWay p l := by
  rw [OnWay, grows.start, grows.passes_iff]

theorem makeDirectory_ok (made : t.makeDirectory p = .ok t') :
    ∃ l, t.resolve false p = .ok (.free l) ∧ t' = t.put l .directory := by
  unfold makeDirectory at made
  split at made
  · next l found => exact ⟨l, found, (Except.ok.inj made).symm⟩
  · exact nomatch made
  · exact nomatch made

theorem makeDirectory_grows (sound : t.Sound) (begins : t.Begins p)
    (made : t.makeDirectory p = .ok t') : Grows (t.PavesWay p) t t' := by
  obtain ⟨l, found, rfl⟩ := makeDirectory_ok made
  obtain ⟨vacant, leads⟩ := resolve_free sound begins found
  exact .put ⟨leads.passes, rfl⟩ (vacant.none ▸ .directory) fun _ _ => vacant

theorem ensureDirectory_grows (sound : t.Sound) (begins : t.Begins p) :
    Grows (t.PavesWay p) t (t.ensureDirectory p).1 := by
  unfold ensureDirectory
  split
  · next made => exact makeDirectory_grows sound begins made
  · exact .refl _ t

/-- A directory that has been put where nothing was is found there. -/
theorem walk_filled (stays : ∀ l, Stays (t.node? l) (t'.node? l)) (filled : t'.node? l = some .directory)
    (found : t.walk followLast n d parts = .ok (.free l)) :
    t'.walk true n d parts = .ok (.taken l .directory) := by
  induction n, d, parts using walk_induction with
  | nil n d =>
    rw [walk_nil] at found
    cases found
  | skip n d part rest blank ih =>
    rw [walk_skip blank] at found ⊢
    exact ih found
  | up n d rest ih =>
    rw [walk_up] at found ⊢
    exact ih found
  | long n d part rest some notHere notUp long =>
    rw [walk_long some notHere notUp long] at found
    cases found
  | name n d part rest isName ih followed =>
    rw [walk_name isName] at found ⊢
    have here := stays (d ++ [part])
    split at found
    · split at found
      · next blank =>
        obtain rfl := Place.free.inj (Except.ok.inj found)
        rw [filled]
        have blanks : ∀ part ∈ rest, part = "" := by simpa using blank
        clear ih followed blank found
        induction rest with
        | nil => exact walk_nil
        | cons part rest ih =>
          obtain ⟨rfl, others⟩ := List.forall_mem_cons.1 blanks
          exact (walk_skip (.inl rfl)).trans (ih others)
      · cases found
    · next there =>
      have here : t'.node? (d ++ [part]) = Option.some .directory := by simpa [there, Stays] using here
      simp only [here]
      exact ih found
    · split at found <;> cases found
    · next target there =>
      have here : t'.node? (d ++ [part]) = Option.some (.link target) := by simpa [there, Stays] using here
      simp only [here]
      split at found
      · cases found
      · simp only [Bool.not_true, Bool.and_false, Bool.false_eq_true, if_false]
        cases n with
        | zero => cases found
        | succ m => exact followed m target rfl found

theorem directory?_eq_some : t.directory? p = some l ↔ t.resolve true p = .ok (.taken l .directory) := by
  unfold directory?
  split
  · next found => rw [found]; simp
  · next other =>
    constructor
    · exact nofun
    · intro found
      exact absurd found (other l)

theorem isDirectory_iff : t.isDirectory p = true ↔ ∃ l, t.directory? p = some l := Option.isSome_iff_exists

theorem Grows.directory? (grows : Grows reach t t') (there : t.directory? p = some l) :
    t'.directory? p = some l := by
  rw [directory?_eq_some, resolve_eq_ok] at there ⊢
  obtain ⟨clean, some, walked⟩ := there
  obtain ⟨node, found, stays⟩ := walk_stays (fun l _ => grows.stays l) walked
  obtain rfl : node = .directory := by simpa [Stays] using stays
  exact ⟨clean, some, by rw [grows.start]; exact found⟩

theorem makeDirectory_isDirectory (sound : t.Sound) (begins : t.Begins p)
    (made : t.makeDirectory p = .ok t') :
    t'.isDirectory p = true := by
  have grows := makeDirectory_grows sound begins made
  obtain ⟨l, found, rfl⟩ := makeDirectory_ok made
  obtain ⟨clean, some, walked⟩ := resolve_eq_ok.1 found
  have vacant := (resolve_free sound begins found).1
  have filled : (t.put l .directory).node? l = Option.some .directory := by
    rw [node?_put t (Raises.ne_nil (vacant.none ▸ Raises.directory)), if_pos rfl]
  refine isDirectory_iff.2 ⟨l, directory?_eq_some.2 (resolve_eq_ok.2 ⟨clean, some, ?_⟩)⟩
  rw [grows.start]
  exact walk_filled grows.stays filled walked

theorem ensureDirectory_ok (sound : t.Sound) (begins : t.Begins p)
    (ok : t.ensureDirectory p = (t', .ok ())) :
    t'.isDirectory p = true := by
  unfold ensureDirectory at ok
  split at ok
  · next made =>
    obtain ⟨rfl, -⟩ := Prod.mk.inj ok
    exact makeDirectory_isDirectory sound begins made
  · obtain ⟨rfl, answer⟩ := Prod.mk.inj ok
    split at answer
    · next there => exact there
    · exact nomatch answer

theorem passes_front (front : a <+: parts) (passes : t.Passes d a l) : t.Passes d parts l := by
  obtain ⟨b, rfl⟩ := front
  exact passes.append b

theorem start_parent (above : p.parent? = some q) (some : q.text ≠ "") (t : FileTree) :
    t.start q = t.start p := by
  rcases Path.parent?_parts above with empty | ⟨absolute, -⟩
  · exact absurd empty some
  · simp only [start, absolute]

/-- The way of what is above a path is the first part of its own. -/
theorem onWay_parent (above : p.parent? = some q) (some : q.text ≠ "") (onWay : t.OnWay q l) :
    t.OnWay p l := by
  rw [OnWay, start_parent above some] at onWay
  rcases Path.parent?_parts above with empty | ⟨-, front, first, same | blank⟩
  · exact absurd empty some
  · rw [same] at onWay
    exact passes_front first onWay
  · rw [blank, passes_blank] at onWay
    exact passes_front first onWay

/-- Making what is above a path paves its way, if it is so for all paths. -/
theorem paves_parent (begins : t.Begins p) (above : p.parent? = some q)
    (paves : ∀ q, t.Begins q → Grows (t.PavesWay q) t (makeDirectoriesWithin depth t q).1) :
    Grows (t.PavesWay p) t (makeDirectoriesWithin depth t q).1 := by
  by_cases some : q.text = ""
  · have nothing : (makeDirectoriesWithin depth t q).1 = t := by
      cases depth with
      | zero => rfl
      | succ depth => rw [makeDirectoriesWithin, if_pos (by simp [some])]
    rw [nothing]
    exact .refl _ t
  · rw [Begins, ← start_parent above some t] at begins
    exact (paves q begins).imp fun l _ => And.imp_left (onWay_parent above some)

theorem makeDirectoriesWithin_grows (sound : t.Sound) (begins : t.Begins p) (depth : Nat) :
    Grows (t.PavesWay p) t (makeDirectoriesWithin depth t p).1 := by
  induction depth generalizing p with
  | zero => exact .refl _ t
  | succ depth ih =>
    rw [makeDirectoriesWithin]
    split
    · exact .refl _ t
    · split
      · next parent _ above =>
        have grows := paves_parent begins above fun _ => ih
        split
        · next t₁ made =>
          rw [made] at grows
          exact grows.trans
            ((ensureDirectory_grows (grows.sound sound) (grows.begins begins)).imp fun l _ =>
            And.imp_left grows.onWay_iff.1)
        · exact grows
      · exact ensureDirectory_grows sound begins

theorem makeDirectories_grows (sound : t.Sound) (begins : t.Begins p) :
    Grows (t.PavesWay p) t (t.makeDirectories p).1 :=
  makeDirectoriesWithin_grows sound begins _

theorem makeDirectoriesWithin_ok (sound : t.Sound) (begins : t.Begins p) (some : p.text ≠ "")
    (ok : makeDirectoriesWithin depth t p = (t', .ok ())) : t'.isDirectory p = true := by
  cases depth with
  | zero => exact nomatch (Prod.mk.inj ok).2
  | succ depth =>
    rw [makeDirectoriesWithin, if_neg (by simpa using some)] at ok
    split at ok
    · next parent _ above =>
      have grows := paves_parent begins above fun _ begins => makeDirectoriesWithin_grows sound begins depth
      split at ok
      · next made =>
        rw [made] at grows
        exact ensureDirectory_ok (grows.sound sound) (grows.begins begins) ok
      · next failed =>
        exact absurd ok (failed _)
    · exact ensureDirectory_ok sound begins ok

/-- Where directories have been made, there is the directory of the path. -/
theorem makeDirectories_ok (sound : t.Sound) (begins : t.Begins p) (some : p.text ≠ "")
    (ok : t.makeDirectories p = (t', .ok ())) : t'.isDirectory p = true :=
  makeDirectoriesWithin_ok sound begins some ok

end FileTree

/-! ### Trees that can be checked -/

instance : DecidablePred IsPlain := fun part =>
  decidable_of_iff (part ≠ "" ∧ part ≠ "." ∧ part ≠ "..")
    ⟨fun h => ⟨h.1, h.2.1, h.2.2⟩, fun plain => ⟨plain.some, plain.notHere, plain.notUp⟩⟩

instance : DecidablePred IsName := fun part =>
  decidable_of_iff (IsPlain part ∧ part.utf8ByteSize ≤ FileTree.maxNameSize)
    ⟨fun h => ⟨h.1, h.2⟩, fun isName => ⟨isName.toIsPlain, isName.short⟩⟩

instance : DecidablePred IsClean := fun name =>
  decidable_of_iff ('/' ∉ name.toList ∧ '\x00' ∉ name.toList)
    ⟨fun h => ⟨h.1, h.2⟩, fun clean => ⟨clean.noSlash, clean.noNull⟩⟩

def FileNode.isDirectory : FileNode → Bool
  | .directory => true
  | _ => false

def FileNode.isLink : FileNode → Bool
  | .link _ => true
  | _ => false

namespace FileTree
variable {t : FileTree} {l : Location} {node : FileNode}

/-- A tree of files and directories, without links, whose entries keep to what file systems see to. -/
def Regular (t : FileTree) : Prop :=
  (t.entries.map Prod.fst).Nodup ∧ ∀ e ∈ t.entries, e.1 ≠ [] ∧ (∀ name ∈ e.1, IsName name ∧ IsClean name) ∧
    (t.node? e.1.dropLast).any FileNode.isDirectory = true ∧ e.2.isLink = false

instance : DecidablePred Regular := fun _ => inferInstanceAs (Decidable (_ ∧ _))

theorem mem_entries (below : l ≠ []) (there : t.node? l = some node) : (l, node) ∈ t.entries := by
  rw [node?, if_neg below] at there
  obtain ⟨before, after, same, -⟩ := List.lookup_eq_some_iff.1 there
  simp [same]

namespace Regular

theorem unlinked (regular : t.Regular) (l : Location) (target : Path) : t.node? l ≠ some (.link target) := by
  intro there
  by_cases root : l = []
  · simp [root] at there
  · cases (regular.2 _ (mem_entries root there)).2.2.2

theorem sound (regular : t.Regular) : t.Sound := by
  refine ⟨regular.1, fun {l node} there => ?_, fun {l target} there => absurd there (regular.unlinked l target),
    fun {l name node} there => ?_⟩
  · by_cases root : l = []
    · simp [root]
    · exact (regular.2 _ (mem_entries root there)).2.1
  · have above := (regular.2 _ (mem_entries (by simp) there)).2.2.1
    rw [List.dropLast_concat] at above
    cases found : t.node? l with
    | none => simp [found] at above
    | some node =>
      rw [found] at above
      cases node with
      | directory => rfl
      | file | link => cases above

end Regular

end FileTree
end FlowScript
