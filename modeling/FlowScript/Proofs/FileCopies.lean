import FlowScript.Proofs.FileGrowth

/-! Copies of directories. A copy that succeeds has something in the place of all that the source holds,
and nothing changes but on the ways to these places. -/
namespace FlowScript.FileTree

variable {t t' : FileTree} {d e l place : Location} {rest names rel : List String} {name : String}
  {followLast : Bool}
  {reach : Location → FileNode → Prop} {p q source target : Path} {node : FileNode}

/-! ### What directories hold -/

theorem mem_entries_iff (sound : t.Sound) (nonempty : l ≠ []) :
    (l, node) ∈ t.entries ↔ t.node? l = some node := by
  have find : ∀ entries : List (Location × FileNode), (entries.map Prod.fst).Nodup →
      ((l, node) ∈ entries ↔ entries.lookup l = Option.some node) := by
    intro entries distinct
    induction entries with
    | nil => simp
    | cons entry entries ih =>
      obtain ⟨place, other⟩ := entry
      obtain ⟨first, distinct⟩ := List.nodup_cons.1 distinct
      by_cases same : l = place
      · subst same
        have absent : (l, node) ∉ entries := fun member => first (List.mem_map.2 ⟨_, member, rfl⟩)
        simp [absent, eq_comm]
      · simp [same, List.lookup_cons, beq_false_of_ne same, ih distinct]
  rw [node?, if_neg nonempty, find _ sound.distinct]

theorem mem_below (sound : t.Sound) : (rel, node) ∈ t.below l ↔
    rel ≠ [] ∧ t.node? (l ++ rel) = some node := by
  simp only [below, List.mem_mergeSort, List.mem_filterMap]
  constructor
  · rintro ⟨⟨place, other⟩, member, chosen⟩
    split at chosen
    · next inside =>
      obtain ⟨rfl, rfl⟩ := Prod.mk.inj (Option.some.inj chosen)
      simp only [Bool.and_eq_true, List.isPrefixOf_iff_prefix, bne_iff_ne, ne_eq] at inside
      obtain ⟨⟨rest, rfl⟩, differs⟩ := inside
      have some : rest ≠ [] := by
        rintro rfl
        simp at differs
      rw [List.drop_left]
      exact ⟨some, (mem_entries_iff sound (by simp [some])).1 member⟩
    · exact nomatch chosen
  · rintro ⟨some, there⟩
    refine ⟨(l ++ rel, node), (mem_entries_iff sound (by simp [some])).2 there, ?_⟩
    simp [some]

/-- The path of names, one below the other. -/
def pathOfNames (names : List String) : Path := ⟨Text.join "/" names⟩

/-- Names that can be written as a path. -/
structure Writable (names : List String) : Prop where
  nonempty : names ≠ []
  plain : ∀ name ∈ names, IsPlain name
  noSlash : ∀ name ∈ names, '/' ∉ name.toList

theorem Writable.of_below (sound : t.Sound) (member : (rel, node) ∈ t.below l) : Writable rel := by
  obtain ⟨some, there⟩ := (mem_below sound).1 member
  have names := sound.isName there
  exact ⟨some, fun name inside => (names name (List.mem_append_right l inside)).1.toIsPlain,
    fun name inside => (names name (List.mem_append_right l inside)).2.noSlash⟩

namespace Writable

theorem parts (writable : Writable names) : (pathOfNames names).parts = names :=
  Text.split_join writable.nonempty writable.noSlash

theorem relative (writable : Writable names) : (pathOfNames names).isAbsolute = false := by
  refine Bool.eq_false_iff.2 fun absolute => ?_
  have head : (pathOfNames names).parts.head? = Option.some "" := by
    obtain ⟨cs, chars⟩ : ∃ cs, (pathOfNames names).text.toList = '/' :: cs := by
      cases chars : (pathOfNames names).text.toList with
      | nil => simp [Path.isAbsolute, chars] at absolute
      | cons c cs =>
        obtain rfl : c = '/' := by simpa [Path.isAbsolute, chars] using absolute
        exact ⟨cs, rfl⟩
    simp [Path.parts, Text.split, chars, Text.splitChars]
  rw [writable.parts] at head
  exact (writable.plain "" (List.mem_of_head? head)).some rfl

theorem join_parts (writable : Writable names) (p : Path) :
    (p.join (pathOfNames names)).parts = p.trunk ++ names := by
  rw [Path.parts_join writable.relative, writable.parts]

theorem join_start (writable : Writable names) (t : FileTree) (p : Path) :
    t.start (p.join (pathOfNames names)) = t.start p := by
  simp only [start, Path.isAbsolute_join writable.relative]

theorem begins_join (writable : Writable names) (begins : t.Begins p) :
    t.Begins (p.join (pathOfNames names)) := by
  rwa [Begins, writable.join_start]

theorem join_some (writable : Writable names) (p : Path) : (p.join (pathOfNames names)).text ≠ "" := by
  intro empty
  have parts := writable.join_parts p
  obtain ⟨before, last, rfl⟩ := (List.eq_nil_or_concat' names).resolve_left writable.nonempty
  rw [Path.parts, empty, ← List.append_assoc] at parts
  have last_empty : [""] = (p.trunk ++ before) ++ [last] := parts
  have : last = "" := by simpa using (congrArg List.getLast? last_empty).symm
  exact (writable.plain last (by simp)).some this

theorem last (writable : Writable names) (p : Path) :
    (p.join (pathOfNames names)).parts.getLast? ≠ Option.some "" := by
  obtain ⟨before, last, rfl⟩ := (List.eq_nil_or_concat' names).resolve_left writable.nonempty
  rw [writable.join_parts, ← List.append_assoc, List.getLast?_concat]
  exact fun empty => (writable.plain last (by simp)).some (Option.some.inj empty)

theorem join_trunk (writable : Writable names) (p : Path) :
    (p.join (pathOfNames names)).trunk = p.trunk ++ names := by
  rw [Path.trunk_eq (writable.last p), writable.join_parts]

theorem append (first : Writable names) (second : Writable rel) : Writable (names ++ rel) where
  nonempty := by simp [first.nonempty]
  plain := List.forall_mem_append.2 ⟨first.plain, second.plain⟩
  noSlash := List.forall_mem_append.2 ⟨first.noSlash, second.noSlash⟩

/-- Names behind names are names behind the path. -/
theorem join_join (first : Writable names) (second : Writable rel) (p : Path) :
    (p.join (pathOfNames names)).join (pathOfNames rel) = p.join (pathOfNames (names ++ rel)) := by
  have text :
    (pathOfNames (names ++ rel)).text = (pathOfNames names).text ++ "/" ++ (pathOfNames rel).text :=
    Text.join_append first.nonempty second.nonempty
  have outer : (p.join (pathOfNames names)).join (pathOfNames rel) =
      ⟨(p.join (pathOfNames names)).text ++ "/" ++ (pathOfNames rel).text⟩ := by
    rw [Path.join, if_neg, if_neg]
    · simpa using Path.last_ne_slash (first.last p)
    · simp [second.relative, first.join_some p]
  rw [outer, Path.join, Path.join, first.relative, (first.append second).relative]
  cases p.text.isEmpty with
  | true => exact congrArg Path.mk text.symm
  | false =>
    simp only [Bool.or_false, Bool.false_eq_true, if_false]
    split <;> simp [text, String.append_assoc]

theorem ofPart?_isSome (plain : IsPlain name) : (Path.Component.ofPart? name).isNone = false := by
  unfold Path.Component.ofPart?
  split
  · exact absurd rfl plain.some
  · exact absurd rfl plain.notHere
  · rfl
  · rfl

/-- Above a name behind names there is the path of the names. -/
theorem parent?_join (writable : Writable names) (last : Writable [name]) (p : Path) :
    (p.join (pathOfNames (names ++ [name]))).parent? = some (p.join (pathOfNames names)) := by
  have parts : (p.join (pathOfNames (names ++ [name]))).parts = (p.trunk ++ names) ++ [name] := by
    rw [(writable.append last).join_parts, List.append_assoc]
  have text : (p.join (pathOfNames names)) = ⟨Text.join "/" (p.trunk ++ names)⟩ := by
    rw [← writable.join_parts, Path.parts, Text.join_split]
  obtain ⟨before, next, rfl⟩ := (List.eq_nil_or_concat' names).resolve_left writable.nonempty
  have shows := ofPart?_isSome (last.plain name (by simp))
  have next_shows := ofPart?_isSome (writable.plain next (by simp))
  rw [← List.append_assoc] at parts text
  unfold Path.parent?
  rw [text, parts]
  cases p.trunk ++ before with
  | nil =>
    have some : next.isEmpty = false := by simpa using (writable.plain next (by simp)).some
    simp [shows, Path.ofParts, some, Text.join]
  | cons first more =>
    simp [shows, next_shows, Path.ofParts]

end Writable

/-- A name made of one plain part or several, one below the other. -/
def PlainName (name : String) : Prop := ∀ part ∈ Text.split '/' name, IsPlain part

theorem PlainName.writable (plain : PlainName name) : Writable (Text.split '/' name) :=
  ⟨Text.split_ne_nil _ _, plain, fun _ => Text.separator_not_mem⟩

theorem joinName_eq (p : Path) (name : String) :
    p.joinName name = p.join (pathOfNames (Text.split '/' name)) := by
  rw [pathOfNames, Text.join_split, Path.joinName]

/-! ### Directories below directories -/

/-- What is written behind the path is looked up in the directory. -/
structure Reaches (t : FileTree) (p : Path) (d : Location) : Prop where
  clean : '\x00' ∉ p.text.toList
  walk : t.walk true maxLinks (t.start p) p.trunk = .ok (.taken d .directory)

theorem walk_trunk (got : t.walk true n d p.parts = .ok (.taken e .directory)) :
    t.walk true n d p.trunk = .ok (.taken e .directory) := by
  rcases p.parts_eq_trunk with same | blank
  · rwa [same] at got
  · rw [blank] at got
    obtain ⟨e', front⟩ := walk_prefix got
    obtain ⟨m, ahead⟩ : ∃ m, t.walk true n d (p.trunk ++ [""]) = t.walk true m e' [""] :=
      walk_append front (.inl rfl)
    rw [ahead, walk_skip (.inl rfl), walk_nil] at got
    rwa [← (Place.taken.inj (Except.ok.inj got)).1]

theorem reaches_of_directory? (there : t.directory? p = some d) : t.Reaches p d := by
  obtain ⟨clean, -, walked⟩ := resolve_eq_ok.1 (directory?_eq_some.1 there)
  exact ⟨clean, walk_trunk walked⟩

theorem walk_names (isName : ∀ name ∈ names, IsName name)
    (there : ∀ m, m <+: names → m ≠ [] → t.node? (d ++ m) = some .directory) :
    t.walk followLast n d (names ++ rest) = t.walk followLast n (d ++ names) rest := by
  induction names generalizing d with
  | nil => rw [List.nil_append, List.append_nil]
  | cons name names ih =>
    obtain ⟨first, others⟩ := List.forall_mem_cons.1 isName
    rw [List.cons_append, walk_name first, there [name] (by simp) (by simp)]
    simp only
    rw [ih others fun m front nonempty => ?_, List.append_assoc, List.singleton_append]
    rw [List.append_assoc]
    exact there (name :: m) (List.cons_prefix_cons.2 ⟨rfl, front⟩) (List.cons_ne_nil _ _)

theorem Writable.text_clean (writable : Writable names) (clean : ∀ name ∈ names, IsClean name)
    (first : '\x00' ∉ p.text.toList) : '\x00' ∉ (p.join (pathOfNames names)).text.toList := by
  rw [Path.mem_text_join writable.relative (by decide), not_or]
  refine ⟨first, fun inside => ?_⟩
  obtain ⟨name, member, inside⟩ := Text.of_mem_join inside (by decide)
  exact (clean name member).noNull inside

/-- Above a directory that is got to there are directories that are got to. -/
theorem reaches_of_join (writable : Writable names)
    (there : t.directory? (p.join (pathOfNames names)) = some l) : ∃ d, t.Reaches p d := by
  obtain ⟨clean, -, walked⟩ := resolve_eq_ok.1 (directory?_eq_some.1 there)
  rw [writable.join_start, writable.join_parts] at walked
  obtain ⟨d, front⟩ := walk_prefix walked
  exact ⟨d, fun inside => clean ((Path.mem_text_join writable.relative (by decide)).2 (.inl inside)), front⟩

namespace Reaches

theorem resolve_join (reaches : t.Reaches p d) (writable : Writable names)
    (clean : ∀ name ∈ names, IsClean name)
    (followLast : Bool) :
    ∃ m, t.resolve followLast (p.join (pathOfNames names)) = t.walk followLast m d names := by
  obtain ⟨m, ahead⟩ :
    ∃ m, t.walk followLast maxLinks (t.start p) (p.trunk ++ names) = t.walk followLast m d names :=
    walk_append reaches.walk (.inr writable.nonempty)
  refine ⟨m, ?_⟩
  rw [resolve, if_neg (by simpa using writable.text_clean clean reaches.clean),
    if_neg (by simpa using writable.join_some p), writable.join_parts]
  exact (congrArg (fun e => t.walk followLast maxLinks e _) (writable.join_start t p)).trans ahead

theorem directory?_join (reaches : t.Reaches p d) (writable : Writable names)
    (isName : ∀ name ∈ names, IsName name ∧ IsClean name)
    (below : ∀ m, m <+: names → m ≠ [] → t.node? (d ++ m) = some .directory) :
    t.directory? (p.join (pathOfNames names)) = some (d ++ names) := by
  obtain ⟨m, ahead⟩ := reaches.resolve_join writable (fun name member => (isName name member).2) true
  have walked : t.walk true m d (names ++ []) = t.walk true m (d ++ names) [] :=
    walk_names (fun name member => (isName name member).1) below
  rw [List.append_nil, walk_nil] at walked
  exact directory?_eq_some.2 (ahead.trans walked)

/-- What is found by names, all but the last one of which are those of directories. -/
theorem resolve_names (reaches : t.Reaches p d) (writable : Writable (names ++ [name]))
    (isName : ∀ part ∈ names ++ [name], IsName part ∧ IsClean part)
    (above : ∀ m, m <+: names → m ≠ [] → t.node? (d ++ m) = some .directory)
    (plain : ∀ target, t.node? (d ++ (names ++ [name])) = some (.link target) → followLast = false) :
    t.resolve followLast (p.join (pathOfNames (names ++ [name]))) =
      match t.node? (d ++ (names ++ [name])) with
      | none => .ok (.free (d ++ (names ++ [name])))
      | some node => .ok (.taken (d ++ (names ++ [name])) node) := by
  obtain ⟨m, ahead⟩ := reaches.resolve_join writable (fun part member => (isName part member).2) followLast
  obtain ⟨isNames, last⟩ := List.forall_mem_append.1 isName
  rw [ahead, walk_names (fun part member => (isNames part member).1) above,
    walk_name (last name (by simp)).1,
    List.append_assoc]
  cases there : t.node? (d ++ (names ++ [name])) with
  | none => simp
  | some node =>
    cases node with
    | directory | file => simp
    | link target => simp [plain target there]

/-- What is found by a name in a directory. -/
theorem resolve_child (reaches : t.Reaches p d) (isName : IsName name) (clean : IsClean name) :
    t.resolve false (p.joinName name) =
      match t.node? (d ++ [name]) with
      | none => .ok (.free (d ++ [name]))
      | some node => .ok (.taken (d ++ [name]) node) := by
  have writable : Writable ([] ++ [name]) :=
    ⟨by simp, by simpa using isName.toIsPlain, by simpa using clean.noSlash⟩
  have found : t.resolve false (p.join (pathOfNames ([] ++ [name]))) = _ :=
    reaches.resolve_names writable (by simpa using ⟨isName, clean⟩) (by simp) fun _ _ => rfl
  exact found

theorem begins (reaches : t.Reaches p d) (begins : t.Begins p) (sound : t.Sound) :
    t.node? d = some .directory := by
  obtain ⟨e, left, gets, arrives⟩ := walk_finds reaches.walk
  cases arrives with
  | directory => exact sound.gets gets begins

theorem leads_trunk (reaches : t.Reaches p d) : t.Leads (t.start p) p.trunk d := by
  obtain ⟨e, left, gets, arrives⟩ := walk_finds reaches.walk
  cases arrives with
  | directory => exact gets.comes

theorem leads (reaches : t.Reaches p d) : t.Leads (t.start p) p.parts d := by
  rcases p.parts_eq_trunk with same | blank
  · rw [same]
    exact reaches.leads_trunk
  · rw [blank]
    exact leads_blank.2 reaches.leads_trunk

end Reaches

/-! ### Ways below a path -/

/-- The way of the path, and the ways of all that has its names below it. -/
def WithinWay (t : FileTree) (p : Path) (l : Location) : Prop :=
  ∃ names, (∀ name ∈ names, IsPlain name) ∧ t.Passes (t.start p) (p.trunk ++ names) l

theorem OnWay.within (onWay : t.OnWay p l) : t.WithinWay p l := by
  refine ⟨[], nofun, ?_⟩
  rw [List.append_nil]
  rcases p.parts_eq_trunk with same | blank
  · exact same ▸ onWay
  · rw [OnWay, blank, passes_blank] at onWay
    exact onWay

theorem OnWay.within_join (writable : Writable names) (onWay : t.OnWay (p.join (pathOfNames names)) l) :
    t.WithinWay p l := by
  rw [OnWay, writable.join_start, writable.join_parts] at onWay
  exact ⟨names, writable.plain, onWay⟩

theorem Grows.within_iff (grows : Grows reach t t') : t'.WithinWay p l ↔ t.WithinWay p l := by
  simp only [WithinWay, grows.start, grows.passes_iff]

/-- What is on the ways below names behind a path is on ways below the path. -/
theorem WithinWay.of_join (writable : Writable names)
    (within : t.WithinWay (p.join (pathOfNames names)) l) :
    t.WithinWay p l := by
  obtain ⟨more, plain, passes⟩ := within
  rw [writable.join_start, writable.join_trunk, List.append_assoc] at passes
  exact ⟨names ++ more, List.forall_mem_append.2 ⟨writable.plain, plain⟩, passes⟩

/-- Directories come on the ways below the path, and files only where names below it lead. -/
def FillsWay (t : FileTree) (p : Path) (l : Location) (node : FileNode) : Prop :=
  t.WithinWay p l ∧ (node = .directory ∨ ∃ names, Writable names ∧ t.Leads (t.start p) (p.trunk ++ names) l)

theorem PavesWay.fills (paves : t.PavesWay p l node) : t.FillsWay p l node :=
  ⟨OnWay.within paves.1, .inl paves.2⟩

theorem PavesWay.fills_join (writable : Writable names) (paves : t.PavesWay (p.join (pathOfNames names)) l node) :
    t.FillsWay p l node := ⟨OnWay.within_join writable paves.1, .inl paves.2⟩

theorem Grows.fills_iff (grows : Grows reach t t') : t'.FillsWay p l node ↔ t.FillsWay p l node := by
  simp only [FillsWay, grows.within_iff, grows.start, grows.leads_iff]

/-! ### Copying files -/

theorem truncate_ok (sound : t.Sound) (begins : t.Begins p) (opened : t.truncate p = .ok (t', l)) :
    t' = t.put l (.file .empty) ∧ t.Leads (t.start p) p.parts l ∧
      Raises (t.node? l) (some (.file .empty)) ∧ (t.node? l = none → t.Vacant l) := by
  unfold truncate at opened
  split at opened
  · next place content found =>
    obtain ⟨rfl, rfl⟩ := Prod.mk.inj (Except.ok.inj opened)
    have there := resolve_file found
    exact ⟨rfl, resolve_leads found, there ▸ .content, by simp [there]⟩
  · exact nomatch opened
  · next place found =>
    split at opened
    · exact nomatch opened
    · obtain ⟨rfl, rfl⟩ := Prod.mk.inj (Except.ok.inj opened)
      obtain ⟨vacant, leads⟩ := resolve_free sound begins found
      exact ⟨rfl, leads, vacant.none ▸ .file, fun _ => vacant⟩
  · exact nomatch opened

theorem truncate_grows (sound : t.Sound) (begins : t.Begins p) (opened : t.truncate p = .ok (t', l)) :
    Grows (fun l _ => t.Leads (t.start p) p.parts l) t t' := by
  obtain ⟨rfl, leads, raises, vacant⟩ := truncate_ok sound begins opened
  exact .put leads raises fun _ => vacant

theorem copyFile_grows (sound : t.Sound) (source : Path) (begins : t.Begins target) :
    Grows (fun l _ => t.Leads (t.start target) target.parts l) t (t.copyFile source target).1 := by
  unfold copyFile
  split
  · exact .refl _ t
  · exact .refl _ t
  · split
    · exact .refl _ t
    · next t₁ place opened =>
      have grows := truncate_grows sound begins opened
      obtain ⟨rfl, leads, raises, -⟩ := truncate_ok sound begins opened
      split
      · next content there =>
        have filled : (t.put place (.file .empty)).node? place = some (.file .empty) := by
          rw [node?_put t raises.ne_nil, if_pos rfl]
        exact grows.trans (.put leads (filled ▸ .content) fun _ absent => nomatch filled.symm.trans absent)
      · exact grows
  · exact .refl _ t

/-- A copied file stands where the path of the copy leads. Its content is that of the source, unless that
is the very same file. -/
theorem copyFile_ok (sound : t.Sound) (begins : t.Begins target)
    (copied : t.copyFile source target = (t', .ok ())) :
    ∃ origin before place content, t.resolve true source = .ok (.taken origin (.file before)) ∧
      t.Leads (t.start target) target.parts place ∧ t'.node? place = some (.file content) ∧
      (origin ≠ place → content = before) ∧ ∀ l, l ≠ place → t'.node? l = t.node? l := by
  unfold copyFile at copied
  split at copied
  · exact nomatch (Prod.mk.inj copied).2
  · exact nomatch (Prod.mk.inj copied).2
  · next origin before found =>
    have there := resolve_file found
    split at copied
    · exact nomatch (Prod.mk.inj copied).2
    · next t₁ place opened =>
      obtain ⟨rfl, leads, raises, -⟩ := truncate_ok sound begins opened
      have opened_node : ∀ l, (t.put place (.file .empty)).node? l =
          if l = place then some (.file .empty) else t.node? l :=
        node?_put t raises.ne_nil _
      split at copied
      · next content read =>
        obtain ⟨rfl, -⟩ := Prod.mk.inj copied
        refine ⟨origin, before, place, content, found, leads, ?_, ?_, ?_⟩
        · rw [node?_put _ raises.ne_nil, if_pos rfl]
        · intro apart
          rw [opened_node, if_neg apart, there] at read
          exact (FileNode.file.inj (Option.some.inj read)).symm
        · intro l apart
          rw [node?_put _ raises.ne_nil, if_neg apart, opened_node, if_neg apart]
      · next unread =>
        rw [opened_node] at unread
        split at unread
        · exact absurd rfl (unread _)
        · exact absurd there (unread _)
  · exact nomatch (Prod.mk.inj copied).2

/-! ### Copying entries -/

section
attribute [local irreducible] makeDirectories copyFile

theorem copyEntry_directory (t : FileTree) (source target : Path) (rel : Location) :
    t.copyEntry source target rel .directory =
      match t.makeDirectories (target.join (pathOfNames rel)) with
      | (t, .ok ()) => (t, .ok 0)
      | (t, .error e) => (t, .error ⟨target.join (pathOfNames rel), e⟩) := rfl

theorem copyEntry_file (t : FileTree) (source target : Path) (rel : Location) (file : node ≠ .directory) :
    t.copyEntry source target rel node =
      let parent := (target.join (pathOfNames rel)).parent?.getD (target.join (pathOfNames rel))
      match t.makeDirectories parent with
      | (t, .error e) => (t, .error ⟨parent, e⟩)
      | (t, .ok ()) =>
        match t.copyFile (source.join (pathOfNames rel)) (target.join (pathOfNames rel)) with
        | (t, .ok ()) => (t, .ok 1)
        | (t, .error e) => (t, .error ⟨source.join (pathOfNames rel), e⟩) := by
  cases node with
  | directory => exact absurd rfl file
  | file | link => rfl

end

/-- The directory above a path is on its way, if there is any to be made. -/
theorem makeDirectories_parent_grows (sound : t.Sound) (begins : t.Begins p) :
    Grows (t.PavesWay p) t (t.makeDirectories (p.parent?.getD p)).1 := by
  cases above : p.parent? with
  | none => exact makeDirectories_grows sound begins
  | some q => exact paves_parent begins above fun _ begins => makeDirectoriesWithin_grows sound begins _

theorem copyEntry_fills (sound : t.Sound) (writable : Writable rel) (source : Path)
    (begins : t.Begins target)
    (node : FileNode) :
    Grows (t.FillsWay target) t (t.copyEntry source target rel node).1 := by
  have own : ∀ l node, t.PavesWay (target.join (pathOfNames rel)) l node → t.FillsWay target l node :=
    fun l _ => PavesWay.fills_join writable
  by_cases kind : node = .directory
  · subst kind
    have grows := (makeDirectories_grows sound (writable.begins_join begins)).imp own
    rw [copyEntry_directory]
    split
    · next made => rwa [made] at grows
    · next failed => rwa [failed] at grows
  · have above := (makeDirectories_parent_grows sound (writable.begins_join begins)).imp own
    simp only [copyEntry_file t source target rel kind]
    split
    · next failed => rwa [failed] at above
    · next t₁ made =>
      rw [made] at above
      have copies : Grows (t.FillsWay target) t₁ (t₁.copyFile (source.join (pathOfNames rel))
          (target.join (pathOfNames rel))).1 := by
        refine (copyFile_grows (above.sound sound) _ (above.begins (writable.begins_join begins))).imp
          fun l _ leads => ?_
        rw [above.start, above.leads_iff] at leads
        refine ⟨OnWay.within_join writable leads.passes, .inr ⟨rel, writable, ?_⟩⟩
        rwa [writable.join_start, writable.join_parts] at leads
      split
      · next copied =>
        rw [copied] at copies
        exact above.trans copies
      · next failed =>
        rw [failed] at copies
        exact above.trans copies

/-- What a copy has put in the place of a node: a directory, or a file. -/
def Copied (node : FileNode) (now : Option FileNode) : Prop :=
  match node with
  | .directory => now = some .directory
  | .file _ | .link _ => ∃ content, now = some (.file content)

theorem Copied.stays {a b : Option FileNode} (copied : Copied node a) (stays : Stays a b) :
    Copied node b := by
  cases node with
  | directory =>
    obtain rfl : a = some .directory := copied
    exact stays
  | file | link =>
    obtain ⟨content, rfl⟩ := copied
    exact stays

theorem copyEntry_ok (sound : t.Sound) (writable : Writable rel) (begins : t.Begins target)
    (copied : t.copyEntry source target rel node = (t', .ok n)) :
    ∃ place, t.Leads (t.start target) (target.trunk ++ rel) place ∧ Copied node (t'.node? place) := by
  have way : ∀ t : FileTree, ∀ place,
      t.Leads (t.start (target.join (pathOfNames rel))) (target.join (pathOfNames rel)).parts place →
        t.Leads (t.start target) (target.trunk ++ rel) place := by
    intro t place leads
    rwa [writable.join_start, writable.join_parts] at leads
  by_cases kind : node = .directory
  · subst kind
    rw [copyEntry_directory] at copied
    have begins := writable.begins_join begins
    have grows := makeDirectories_grows sound begins
    split at copied
    · next t₁ made =>
      obtain ⟨rfl, -⟩ := Prod.mk.inj copied
      rw [made] at grows
      obtain ⟨place, found⟩ :=
        isDirectory_iff.1 (makeDirectories_ok sound begins (writable.join_some target) made)
      have there := resolve_taken (grows.sound sound) (grows.begins begins) (directory?_eq_some.1 found)
      have leads := resolve_leads (directory?_eq_some.1 found)
      rw [grows.start, grows.leads_iff] at leads
      exact ⟨place, way t place leads, there⟩
    · exact nomatch (Prod.mk.inj copied).2
  · simp only [copyEntry_file t source target rel kind] at copied
    have begins := writable.begins_join begins
    have above := makeDirectories_parent_grows sound begins
    split at copied
    · exact nomatch (Prod.mk.inj copied).2
    · next t₁ made =>
      rw [made] at above
      split at copied
      · next t₂ done =>
        obtain ⟨rfl, -⟩ := Prod.mk.inj copied
        obtain ⟨_, _, place, content, _, leads, there, _⟩ :=
          copyFile_ok (above.sound sound) (above.begins begins) done
        rw [above.start, above.leads_iff] at leads
        refine ⟨place, way t place leads, ?_⟩
        cases node with
        | directory => exact absurd rfl kind
        | file | link => exact ⟨content, there⟩
      · exact nomatch (Prod.mk.inj copied).2

theorem copyEntries_fills (sound : t.Sound) {listed : List (Location × FileNode)}
    (writable : ∀ e ∈ listed, Writable e.1) (source : Path) (begins : t.Begins target) (n : Nat) :
    Grows (t.FillsWay target) t (copyEntries source target listed n t).1 := by
  induction listed generalizing t n with
  | nil => exact .refl _ t
  | cons entry listed ih =>
    obtain ⟨rel, node⟩ := entry
    obtain ⟨first, others⟩ := List.forall_mem_cons.1 writable
    have grows := copyEntry_fills sound first source begins node
    rw [copyEntries]
    split
    · next t₁ k copied =>
      rw [copied] at grows
      exact grows.trans
        ((ih (grows.sound sound) others (grows.begins begins) (n + k)).imp fun l _ => grows.fills_iff.1)
    · next failed => rwa [failed] at grows

theorem copyEntries_grows (sound : t.Sound) {listed : List (Location × FileNode)}
    (writable : ∀ e ∈ listed, Writable e.1) (source : Path) (begins : t.Begins target) (n : Nat) :
    Grows (fun l _ => t.WithinWay target l) t (copyEntries source target listed n t).1 :=
  (copyEntries_fills sound writable source begins n).imp fun _ _ => And.left

theorem copyEntries_ok (sound : t.Sound) {listed : List (Location × FileNode)}
    (writable : ∀ e ∈ listed, Writable e.1) (begins : t.Begins target)
    (copied : copyEntries source target listed n t = (t', .ok k)) :
    ∀ rel node, (rel, node) ∈ listed →
      ∃ place, t.Leads (t.start target) (target.trunk ++ rel) place ∧ Copied node (t'.node? place) := by
  induction listed generalizing t n with
  | nil => exact fun _ _ member => nomatch member
  | cons entry listed ih =>
    obtain ⟨rel, node⟩ := entry
    obtain ⟨first, others⟩ := List.forall_mem_cons.1 writable
    have grows := copyEntry_fills sound first source begins node
    rw [copyEntries] at copied
    split at copied
    · next t₁ k' done =>
      rw [done] at grows
      have sound₁ := grows.sound sound
      intro rel' node' member
      rcases List.mem_cons.1 member with same | member
      · obtain ⟨rfl, rfl⟩ := Prod.mk.inj same
        obtain ⟨place, leads, there⟩ := copyEntry_ok sound first begins done
        have later := copyEntries_grows sound₁ others source (grows.begins begins) (n + k')
        rw [copied] at later
        exact ⟨place, leads, there.stays (later.stays place)⟩
      · obtain ⟨place, leads, there⟩ := ih sound₁ others (grows.begins begins) copied rel' node' member
        rw [grows.start, grows.leads_iff] at leads
        exact ⟨place, leads, there⟩
    · exact nomatch (Prod.mk.inj copied).2

/-! ### Copying directories -/

theorem locate_eq_ok : t.locate p = .ok l ↔ ∃ node, t.resolve true p = .ok (.taken l node) := by
  unfold locate
  split
  · next found => simp [found]
  · next found => simp [found]
  · next found => simp [found]

theorem copyTree_fills (sound : t.Sound) (source : Path) (begins : t.Begins target) :
    Grows (t.FillsWay target) t (t.copyTree source target).1 := by
  have made := (makeDirectories_grows sound begins).imp fun l _ => PavesWay.fills
  unfold copyTree
  split
  · next failed => rwa [failed] at made
  · next t₁ ok =>
    rw [ok] at made
    split
    · exact made
    · have sound₁ := made.sound sound
      exact made.trans
        ((copyEntries_fills sound₁ (fun _ member => .of_below sound₁ member) _ (made.begins begins) _).imp
        fun l _ => made.fills_iff.1)

theorem copyTree_grows (sound : t.Sound) (source : Path) (begins : t.Begins target) :
    Grows (fun l _ => t.WithinWay target l) t (t.copyTree source target).1 :=
  (copyTree_fills sound source begins).imp fun _ _ => And.left

/-- A copy that succeeds has made the target, and has put something in the place of all that the source
holds. -/
theorem copyTree_ok (sound : t.Sound) (begins : t.Begins target)
    (copied : t.copyTree source target = (t', .ok n)) :
    ∃ t₁ l, t.makeDirectories target = (t₁, .ok ()) ∧ t₁.locate source = .ok l ∧
      ∀ rel node, rel ≠ [] → t₁.node? (l ++ rel) = some node →
        ∃ place, t.Leads (t.start target) (target.trunk ++ rel) place ∧ Copied node (t'.node? place) := by
  have made := makeDirectories_grows sound begins
  unfold copyTree at copied
  split at copied
  · exact nomatch (Prod.mk.inj copied).2
  · next t₁ ok =>
    rw [ok] at made
    split at copied
    · exact nomatch (Prod.mk.inj copied).2
    · next l located =>
      have sound₁ := made.sound sound
      refine ⟨t₁, l, ok, located, fun rel node nonempty there => ?_⟩
      obtain ⟨place, leads, there⟩ :=
        copyEntries_ok sound₁ (fun _ member => .of_below sound₁ member) (made.begins begins) copied
        rel node ((mem_below sound₁).2 ⟨nonempty, there⟩)
      rw [made.start, made.leads_iff] at leads
      exact ⟨place, leads, there⟩

end FlowScript.FileTree
