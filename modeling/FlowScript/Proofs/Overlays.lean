import FlowScript.Proofs.StoreCopies

/-! Copies over what is there already. A copy that succeeds puts all that its source holds in the same place
below its target, with the same bytes. Directories may come on the way there; nothing else changes. -/
namespace FlowScript

namespace Path

/-- A part that says something. -/
def leadsOn (part : String) : Bool := part != "" && part != "."

theorem leadsOn_iff : leadsOn part = true ↔ ¬(part = "" ∨ part = ".") := by simp [leadsOn]

/-- The parts that say something. -/
def steps (p : Path) : List String := p.parts.filter leadsOn

/-- The path is made of names, and of one at least. -/
def Normal (p : Path) : Prop := p.components ≠ [] ∧ ∀ c ∈ p.components, ∃ name, c = .name name

theorem steps_of_names {parts : List String}
    (names : ∀ c ∈ parts.filterMap Component.ofPart?, ∃ name, c = .name name) :
    parts.filterMap Component.ofPart? = (parts.filter leadsOn).map Component.name ∧
      ∀ name ∈ parts.filter leadsOn, IsPlain name := by
  induction parts with
  | nil => exact ⟨rfl, nofun⟩
  | cons part parts ih =>
    rw [List.filterMap_cons] at names ⊢
    by_cases blank : part = "" ∨ part = "."
    · have none : Component.ofPart? part = none := by rcases blank with rfl | rfl <;> rfl
      rw [none] at names ⊢
      rw [List.filter_cons_of_neg (mt leadsOn_iff.1 (not_not_intro blank))]
      exact ih names
    · obtain ⟨some, notHere⟩ := not_or.1 blank
      rw [List.filter_cons_of_pos (leadsOn_iff.2 blank)]
      by_cases up : part = ".."
      · subst up
        obtain ⟨name, is⟩ := names .up List.mem_cons_self
        cases is
      · have named : Component.ofPart? part = Option.some (.name part) := by
          unfold Component.ofPart?
          split
          · exact absurd rfl some
          · exact absurd rfl notHere
          · exact absurd rfl up
          · rfl
        rw [named] at names ⊢
        obtain ⟨same, plain⟩ := ih (List.forall_mem_cons.1 names).2
        exact ⟨by rw [List.map_cons, same], List.forall_mem_cons.2 ⟨⟨some, notHere, up⟩, plain⟩⟩

theorem join_nonempty {p q : Path} (relative : q.isAbsolute = false) (some : p.text ≠ "" ∨ q.text ≠ "") :
    (p.join q).text ≠ "" := by
  unfold join
  split
  · next alone =>
    have empty : p.text = "" := by simpa [relative] using alone
    exact some.resolve_left (not_not_intro empty)
  · next both =>
    have some : p.text ≠ "" := fun empty => both (by simp [empty])
    split <;> simp [some]

namespace Normal
variable {p : Path}

/-- A path of names is relative, and its parts are names and such as say nothing. -/
theorem spec (normal : p.Normal) :
    p.isAbsolute = false ∧ p.steps ≠ [] ∧ (∀ name ∈ p.steps, IsPlain name) ∧
      p.components = p.steps.map Component.name := by
  obtain ⟨some, names⟩ := normal
  cases parts : p.parts with
  | nil => exact absurd parts (Text.split_ne_nil _ _)
  | cons first rest =>
    have relative : p.isAbsolute = false := by
      refine Bool.eq_false_iff.2 fun absolute => ?_
      obtain ⟨name, is⟩ := names .root (by simp [components, parts, absolute])
      cases is
    have notHere : first ≠ "." := by
      rintro rfl
      obtain ⟨name, is⟩ := names .here (by simp [components, parts, relative])
      cases is
    have whole : p.components = p.parts.filterMap Component.ofPart? := by
      rw [parts, components, parts]
      simp only [relative, notHere, Bool.false_eq_true, if_false, List.filterMap_cons]
      cases Component.ofPart? first <;> rfl
    rw [whole] at names some
    obtain ⟨same, plain⟩ := steps_of_names names
    refine ⟨relative, fun none => some ?_, plain, whole.trans same⟩
    rw [same]
    exact List.map_eq_nil_iff.2 none

theorem relative (normal : p.Normal) : p.isAbsolute = false := normal.spec.1

theorem nonempty (normal : p.Normal) : p.steps ≠ [] := normal.spec.2.1

theorem plain (normal : p.Normal) : ∀ name ∈ p.steps, IsPlain name := normal.spec.2.2.1

theorem some (normal : p.Normal) : p.text ≠ "" := fun empty =>
  normal.nonempty (by rw [steps, parts, empty]; rfl)

end Normal
end Path

namespace FileTree

variable {t t' : FileTree} {p q : Path} {a b d l A B : Location} {part : String} {rest rel names parts : List String}
  {reach reach' : Location → FileNode → Prop} {node : FileNode}

/-! ### Parts that say nothing -/

theorem leads_skipped (blank : part = "" ∨ part = ".") : t.Leads d [part] l ↔ l = d := by
  have skips : t.Leads d [part] d := .single (.skip blank)
  exact ⟨fun leads => leads.unique skips, fun same => same ▸ skips⟩

theorem passes_skipped (blank : part = "" ∨ part = ".") (passes : t.Passes d [part] l) : l = d := by
  obtain ⟨e, left, comes, here⟩ := passes
  rcases Relation.ReflTransGen.cases_head comes with same | ⟨x, moves, comes⟩
  · obtain ⟨rfl, rfl⟩ := Prod.mk.inj same
    rcases here with rfl | ⟨next, more, same, isName, rfl⟩
    · rfl
    · obtain ⟨rfl, -⟩ := List.cons.inj same
      exact absurd blank isName.not_blank
  · obtain rfl := moves.unique (.skip blank)
    obtain ⟨rfl, rfl⟩ := Prod.mk.inj (comes_nil comes)
    rcases here with rfl | ⟨next, more, same, -⟩
    · rfl
    · cases same

theorem leads_append : t.Leads d (parts ++ rest) l ↔ ∃ e, t.Leads d parts e ∧ t.Leads e rest l :=
  ⟨Leads.of_append, fun ⟨_, first, second⟩ => first.append second⟩

theorem leads_cons : t.Leads d (part :: rest) l ↔ ∃ e, t.Leads d [part] e ∧ t.Leads e rest l := by
  rw [← List.singleton_append, leads_append]

theorem passes_append :
    t.Passes d (parts ++ rest) l ↔ t.Passes d parts l ∨ ∃ e, t.Leads d parts e ∧ t.Passes e rest l := by
  refine ⟨Passes.of_append, ?_⟩
  rintro (first | ⟨e, leads, behind⟩)
  · exact first.append rest
  · exact leads.passes_append behind

theorem passes_cons :
    t.Passes d (part :: rest) l ↔ t.Passes d [part] l ∨ ∃ e, t.Leads d [part] e ∧ t.Passes e rest l := by
  rw [← List.singleton_append, passes_append]

/-- Parts lead where those of them lead that say something. -/
theorem leads_steps : t.Leads d p.parts l ↔ t.Leads d p.steps l := by
  unfold Path.steps
  generalize p.parts = parts
  induction parts generalizing d with
  | nil => rfl
  | cons part parts ih =>
    rw [leads_cons]
    by_cases blank : part = "" ∨ part = "."
    · rw [List.filter_cons_of_neg (mt Path.leadsOn_iff.1 (not_not_intro blank)), ← ih]
      simp [leads_skipped blank]
    · rw [List.filter_cons_of_pos (Path.leadsOn_iff.2 blank), leads_cons]
      simp only [ih]

theorem passes_steps : t.Passes d p.parts l ↔ t.Passes d p.steps l := by
  unfold Path.steps
  generalize p.parts = parts
  induction parts generalizing d with
  | nil => rfl
  | cons part parts ih =>
    by_cases blank : part = "" ∨ part = "."
    · rw [List.filter_cons_of_neg (mt Path.leadsOn_iff.1 (not_not_intro blank)), ← ih, passes_cons]
      simp only [leads_skipped blank, exists_eq_left]
      refine or_iff_right_of_imp fun passes => ?_
      obtain rfl := passes_skipped blank passes
      exact .here t l parts
    · rw [List.filter_cons_of_pos (Path.leadsOn_iff.2 blank)]
      refine passes_cons.trans (.trans (or_congr_right ?_) passes_cons.symm)
      simp only [ih]

theorem leads_trunk : t.Leads d p.trunk l ↔ t.Leads d p.parts l := by
  rcases p.parts_eq_trunk with same | blank
  · rw [same]
  · rw [blank, leads_blank]

/-! ### Names behind a path and a word -/

/-- A relative path has its place below a word behind a path. -/
theorem join_word (word : IsPlain name ∧ IsClean name) (relative : q.isAbsolute = false) :
    t.start ((p.joinName name).join q) = t.start p ∧
      ((p.joinName name).join q).parts = p.trunk ++ ([name] ++ q.parts) := by
  have writable := writable_word word
  have trunk : (p.joinName name).trunk = p.trunk ++ [name] := writable.join_trunk p
  refine ⟨?_, ?_⟩
  · rw [start, Path.isAbsolute_join relative]
    exact writable.join_start t p
  · rw [Path.parts_join relative, trunk, List.append_assoc]

theorem leads_word (word : IsPlain name ∧ IsClean name) (normal : q.Normal)
    (leads : ∀ l, t.Leads (t.start p) p.parts l → l = d) (linkless : t.Linkless d (name :: q.steps))
    (here : t.Leads (t.start ((p.joinName name).join q)) ((p.joinName name).join q).parts l) :
    l = d ++ name :: q.steps := by
  obtain ⟨begins, parts⟩ := join_word (t := t) (p := p) word normal.relative
  rw [begins, parts, leads_append] at here
  obtain ⟨e, first, second⟩ := here
  obtain rfl := leads e (leads_trunk.1 first)
  obtain ⟨e', third, fourth⟩ := second.of_append
  have whole : t.Leads e ([name] ++ q.steps) l := third.append (leads_steps.1 fourth)
  obtain ⟨m, same, rfl⟩ := comes_names (List.forall_mem_cons.2 ⟨word.1, normal.plain⟩) linkless whole
  rw [List.append_nil] at same
  rw [← same]

theorem onWay_word (word : IsPlain name ∧ IsClean name) (normal : q.Normal)
    (leads : ∀ l, t.Leads (t.start p) p.parts l → l = d) (linkless : t.Linkless d (name :: q.steps))
    (onWay : t.OnWay ((p.joinName name).join q) l) :
    t.OnWay p l ∨ ∃ m, m <+: q.steps ∧ l = d ++ name :: m := by
  obtain ⟨begins, parts⟩ := join_word (t := t) (p := p) word normal.relative
  rw [OnWay, begins, parts, passes_append] at onWay
  rcases onWay with front | ⟨e, first, behind⟩
  · exact .inl (passes_trunk.1 front)
  · obtain rfl := leads e (leads_trunk.1 first)
    simp only [passes_append, passes_steps] at behind
    obtain ⟨m, front, rfl⟩ :=
      passes_names (List.forall_mem_cons.2 ⟨word.1, normal.plain⟩) linkless (passes_cons.2 behind)
    cases m with
    -- The place of the path itself is on the way that leads there.
    | nil =>
      rw [List.append_nil]
      exact .inl (passes_trunk.1 first.passes)
    | cons first' m =>
      obtain ⟨rfl, inside⟩ := List.cons_prefix_cons.1 front
      exact .inr ⟨m, inside, rfl⟩

/-! ### A copy from one place to another -/

theorem Grows.refine (grows : Grows reach t t')
    (finer : ∀ l node, t'.node? l = some node → Raises (t.node? l) (some node) → reach l node → reach' l node) :
    Grows reach' t t' where
  working := grows.working
  node l := (grows.node l).imp_right fun ⟨node, there, here, raises⟩ =>
    ⟨node, there, finer l node there raises here, raises⟩
  sound := grows.sound

theorem Grows.none_before (grows : Grows reach t t') (none : t'.node? l = none) : t.node? l = Option.none := by
  have stays := grows.stays l
  rw [none] at stays
  cases before : t.node? l with
  | none => rfl
  | some node =>
    rw [before] at stays
    cases node <;> simp [Stays] at stays

/-- Directories come where the way leads, and below one place what is below another. -/
def Mirrors (t : FileTree) (way : Location → Prop) (a b : Location) (l : Location) (node : FileNode) : Prop :=
  way l ∧ node = .directory ∨ ∃ rel, l = b ++ rel ∧ t.node? (a ++ rel) = some node

/-- Directories come on the way of the target, and each node of the source in its place. -/
def Receives (t : FileTree) (a : Location) (q : Path) (b : Location) (l : Location) (node : FileNode) : Prop :=
  t.PavesWay q l node ∨ ∃ rel, rel ≠ [] ∧ l = b ++ rel ∧ t.node? (a ++ rel) = some node

/-- The paths lead to places apart from one another. There are no links in the source, nor in the places that
its nodes are copied to. -/
structure Copying (t : FileTree) (p q : Path) (a b : Location) : Prop where
  sound : t.Sound
  begins : t.Begins q
  source : ∀ l, t.Leads (t.start p) p.parts l → l = a
  target : ∀ l, t.Leads (t.start q) q.parts l → l = b
  way : ∀ l, t.OnWay q l → t.node? l = none → ¬a <+: l
  above : ¬a <+: b
  below : ¬b <+: a
  unlinked : t.Unlinked a
  clear : ∀ rel node, t.node? (a ++ rel) = some node → t.Linkless b rel

theorem Raises.none_of_directory (raises : Raises before (some .directory)) : before = none := by
  cases raises
  rfl

theorem not_both (above : ¬a <+: b) (below : ¬b <+: a) (rel names : List String) : a ++ rel ≠ b ++ names := by
  intro same
  have first : a <+: b ++ names := same ▸ List.prefix_append a rel
  rcases List.prefix_or_prefix_of_prefix first (List.prefix_append b names) with front | front
  · exact above front
  · exact below front

theorem apart_below (above : ¬a <+: b) (below : ¬b <+: a) (rel names : List String) : ¬a ++ rel <+: b ++ names := by
  rintro ⟨rest, same⟩
  rw [List.append_assoc] at same
  exact not_both above below _ _ same

/-- While nodes come at their places the source stays the same. -/
theorem Grows.source_same {way : Location → Prop} (grows : Grows (t.Mirrors way a b) t t')
    (aside : ∀ l, way l → t.node? l = none → ¬a <+: l) (above : ¬a <+: b) (below : ¬b <+: a) (rel : List String) :
    t'.node? (a ++ rel) = t.node? (a ++ rel) := by
  rcases grows.node (a ++ rel) with same | ⟨node, -, ⟨onWay, rfl⟩ | ⟨rel', same, -⟩, raises⟩
  · exact same
  · exact absurd (List.prefix_append a rel) (aside _ onWay raises.none_of_directory)
  · exact absurd same (not_both above below rel rel')

/-- A node that is in its place stays there. -/
theorem Grows.place_stays {way : Location → Prop} (grows : Grows (t.Mirrors way a b) t t')
    (origin : t.node? (a ++ rel) = some node) (there : t.node? (b ++ rel) = some node) :
    t'.node? (b ++ rel) = some node := by
  rcases grows.node (b ++ rel) with same | ⟨node', came, ⟨-, rfl⟩ | ⟨rel', same, copied⟩, raises⟩
  · rw [same, there]
  · cases raises.none_of_directory.symm.trans there
  · obtain rfl := List.append_cancel_left same
    rw [came, ← copied, origin]

theorem Receives.mirrors (receives : t.Receives a q b l node) : t.Mirrors (t.OnWay q) a b l node :=
  receives.imp_right fun ⟨rel, _, here⟩ => ⟨rel, here⟩

namespace Copying

theorem writable (c : t.Copying p q a b) (some : rel ≠ []) (there : t.node? (a ++ rel) = Option.some node) :
    Writable rel :=
  .of_below c.sound ((mem_below c.sound).2 ⟨some, there⟩)

theorem leads_source (c : t.Copying p q a b) (writable : Writable rel)
    (leads : t.Leads (t.start (p.join (pathOfNames rel))) (p.join (pathOfNames rel)).parts l) : l = a ++ rel := by
  rw [writable.join_start, writable.join_parts] at leads
  obtain ⟨e, first, second⟩ := leads.of_append
  obtain rfl := c.source e (leads_trunk.1 first)
  obtain ⟨m, same, rfl⟩ := comes_names writable.plain (fun m _ _ => c.unlinked m) second
  rw [same, List.append_nil]

theorem leads_target (c : t.Copying p q a b) (writable : Writable rel)
    (there : t.node? (a ++ rel) = some node)
    (leads : t.Leads (t.start (q.join (pathOfNames rel))) (q.join (pathOfNames rel)).parts l) : l = b ++ rel := by
  rw [writable.join_start, writable.join_parts] at leads
  obtain ⟨e, first, second⟩ := leads.of_append
  obtain rfl := c.target e (leads_trunk.1 first)
  obtain ⟨m, same, rfl⟩ := comes_names writable.plain (c.clear rel node there) second
  rw [same, List.append_nil]

/-- What comes on the way of a node of the source is on the way of the target, or above the place of the node. -/
theorem paves (c : t.Copying p q a b) (writable : Writable rel) (there : t.node? (a ++ rel) = some node)
    (paves : t.PavesWay (q.join (pathOfNames rel)) l node') :
    t.Receives a q b l node' ∨ l = b ++ rel := by
  obtain ⟨onWay, rfl⟩ := paves
  rw [OnWay, writable.join_start, writable.join_parts] at onWay
  rcases onWay.of_append with front | ⟨e, first, behind⟩
  · exact .inl (.inl ⟨passes_trunk.1 front, rfl⟩)
  · have atTarget := leads_trunk.1 first
    obtain rfl := c.target e atTarget
    obtain ⟨m, ⟨rest, rfl⟩, rfl⟩ := passes_names writable.plain (c.clear rel node there) behind
    by_cases whole : rest = []
    · subst whole
      exact .inr (by rw [List.append_nil])
    · by_cases top : m = []
      · subst top
        rw [List.append_nil]
        exact .inl (.inl ⟨atTarget.passes, rfl⟩)
      · exact .inl (.inr ⟨m, top, rfl, c.sound.above there whole⟩)

theorem same (c : t.Copying p q a b) (grows : Grows (t.Receives a q b) t t') (rel : List String) :
    t'.node? (a ++ rel) = t.node? (a ++ rel) :=
  (grows.imp fun _ _ => Receives.mirrors).source_same c.way c.above c.below rel

theorem receives_iff (c : t.Copying p q a b) (grows : Grows (t.Receives a q b) t t') :
    t'.Receives a q b l node ↔ t.Receives a q b l node := by
  simp only [Receives, PavesWay, grows.onWay_iff, c.same grows]

theorem later (c : t.Copying p q a b) (grows : Grows (t.Receives a q b) t t') : t'.Copying p q a b where
  sound := grows.sound c.sound
  begins := grows.begins c.begins
  source l leads := c.source l (by rwa [grows.start, grows.leads_iff] at leads)
  target l leads := c.target l (by rwa [grows.start, grows.leads_iff] at leads)
  way l onWay none := c.way l (grows.onWay_iff.1 onWay) (grows.none_before none)
  above := c.above
  below := c.below
  unlinked := grows.unlinked c.unlinked
  clear rel node there m front some target link := by
    rw [c.same grows] at there
    exact c.clear rel node there m front some target ((grows.link_iff _ target).1 link)

theorem copyEntry_directory (c : t.Copying p q a b) (some : rel ≠ [])
    (there : t.node? (a ++ rel) = Option.some .directory)
    (made : t.makeDirectories (q.join (pathOfNames rel)) = (t', .ok ())) :
    Grows (t.Receives a q b) t t' ∧ t'.node? (b ++ rel) = Option.some .directory := by
  have writable := c.writable some there
  have begins := writable.begins_join c.begins
  have grows := makeDirectories_grows c.sound begins
  rw [made] at grows
  obtain ⟨place, found⟩ := isDirectory_iff.1 (makeDirectories_ok c.sound begins (writable.join_some q) made)
  have stands := resolve_taken (grows.sound c.sound) (grows.begins begins) (directory?_eq_some.1 found)
  have leads := resolve_leads (directory?_eq_some.1 found)
  rw [grows.start, grows.leads_iff] at leads
  obtain rfl := c.leads_target writable there leads
  refine ⟨grows.refine fun l node _ _ paves => ?_, stands⟩
  rcases c.paves writable there paves with receives | rfl
  · exact receives
  · obtain ⟨-, rfl⟩ := paves
    exact .inr ⟨rel, some, rfl, there⟩

theorem copyEntry_file (c : t.Copying p q a b) (some : rel ≠ [])
    (there : t.node? (a ++ rel) = Option.some (.file content))
    (above : Grows (t.PavesWay (q.join (pathOfNames rel))) t t₁)
    (copied : t₁.copyFile (p.join (pathOfNames rel)) (q.join (pathOfNames rel)) = (t', .ok ())) :
    Grows (t.Receives a q b) t t' ∧ t'.node? (b ++ rel) = Option.some (.file content) := by
  have writable := c.writable some there
  have sound := above.sound c.sound
  have begins := above.begins (writable.begins_join c.begins)
  obtain ⟨origin, before, place, content', found, leads, stands, whole, elsewhere⟩ :=
    copyFile_ok sound begins copied
  have filled := copyFile_grows sound (p.join (pathOfNames rel)) begins
  rw [copied] at filled
  -- The ways are those of the tree before.
  have from_ := resolve_leads found
  rw [above.start, above.leads_iff] at from_ leads
  obtain rfl := c.leads_source writable from_
  obtain rfl := c.leads_target writable there leads
  have kept : t₁.node? (a ++ rel) = Option.some (.file content) := by
    rcases above.node (a ++ rel) with same | ⟨node, -, ⟨-, rfl⟩, raises⟩
    · rw [same, there]
    · cases raises.none_of_directory.symm.trans there
  obtain rfl : before = content := FileNode.file.inj (Option.some.inj ((resolve_file found).symm.trans kept))
  obtain rfl := whole (not_both c.above c.below rel rel)
  have grows : Grows (fun l node => t.PavesWay (q.join (pathOfNames rel)) l node ∨ l = b ++ rel) t t' := by
    refine (above.imp fun _ _ => .inl).trans (filled.imp fun l _ leads => .inr ?_)
    rw [above.start, above.leads_iff] at leads
    exact c.leads_target writable there leads
  refine ⟨grows.refine fun l node here _ way => ?_, stands⟩
  have own : l = b ++ rel → t.Receives a q b l node := by
    rintro rfl
    obtain rfl := Option.some.inj (here.symm.trans stands)
    exact .inr ⟨rel, some, rfl, there⟩
  rcases way with paves | here
  · exact (c.paves writable there paves).elim id own
  · exact own here

theorem copyEntry (c : t.Copying p q a b) (some : rel ≠ []) (there : t.node? (a ++ rel) = Option.some node)
    (copied : t.copyEntry p q rel node = (t', .ok n)) :
    Grows (t.Receives a q b) t t' ∧ t'.node? (b ++ rel) = Option.some node := by
  have writable := c.writable some there
  cases node with
  | directory =>
    rw [FileTree.copyEntry_directory] at copied
    split at copied
    · next made =>
      obtain ⟨rfl, -⟩ := Prod.mk.inj copied
      exact c.copyEntry_directory some there made
    · cases (Prod.mk.inj copied).2
  | link target => exact absurd there (c.unlinked rel target)
  | file content =>
    have plain : FileNode.file content ≠ .directory := nofun
    simp only [FileTree.copyEntry_file t p q rel plain] at copied
    have above := makeDirectories_parent_grows c.sound (writable.begins_join c.begins)
    split at copied
    · cases (Prod.mk.inj copied).2
    · next made =>
      rw [made] at above
      split at copied
      · next done =>
        obtain ⟨rfl, -⟩ := Prod.mk.inj copied
        exact c.copyEntry_file some there above done
      · cases (Prod.mk.inj copied).2

theorem copyEntries (c : t.Copying p q a b) {listed : List (Location × FileNode)}
    (there : ∀ e ∈ listed, e.1 ≠ [] ∧ t.node? (a ++ e.1) = some e.2)
    (copied : copyEntries p q listed n t = (t', .ok k)) :
    Grows (t.Receives a q b) t t' ∧ ∀ e ∈ listed, t'.node? (b ++ e.1) = some e.2 := by
  induction listed generalizing t n with
  | nil =>
    obtain ⟨rfl, -⟩ := Prod.mk.inj copied
    exact ⟨.refl _ t, nofun⟩
  | cons entry listed ih =>
    obtain ⟨rel, node⟩ := entry
    obtain ⟨⟨some, origin⟩, others⟩ := List.forall_mem_cons.1 there
    rw [FileTree.copyEntries] at copied
    split at copied
    · next t₁ k' done =>
      obtain ⟨first, stands⟩ := c.copyEntry some origin done
      have c₁ := c.later first
      obtain ⟨rest, all⟩ :=
        ih c₁ (fun e member => ⟨(others e member).1, (c.same first _).trans (others e member).2⟩) copied
      refine ⟨first.trans (rest.imp fun l _ => (c.receives_iff first).1),
        List.forall_mem_cons.2 ⟨?_, all⟩⟩
      have stays := rest.imp fun _ _ => Receives.mirrors
      exact stays.place_stays ((c.same first rel).trans origin) stands
    · cases (Prod.mk.inj copied).2

/-- A copy that succeeds has each node of its source in place. -/
theorem copyTree (c : t.Copying p q a b) (some : q.text ≠ "") (copied : t.copyTree p q = (t', .ok n)) :
    Grows (t.Receives a q b) t t' ∧ t'.node? b = Option.some .directory ∧
      ∀ rel node, rel ≠ [] → t.node? (a ++ rel) = Option.some node → t'.node? (b ++ rel) = Option.some node := by
  have paves := makeDirectories_grows c.sound c.begins
  unfold FileTree.copyTree at copied
  split at copied
  · cases (Prod.mk.inj copied).2
  · next t₁ made =>
    rw [made] at paves
    have first : Grows (t.Receives a q b) t t₁ := paves.imp fun _ _ => .inl
    have c₁ := c.later first
    obtain ⟨place, found⟩ := isDirectory_iff.1 (makeDirectories_ok c.sound c.begins some made)
    have stands := resolve_taken c₁.sound c₁.begins (directory?_eq_some.1 found)
    obtain rfl := c₁.target place (resolve_leads (directory?_eq_some.1 found))
    split at copied
    · cases (Prod.mk.inj copied).2
    · next l located =>
      obtain ⟨_, resolved⟩ := locate_eq_ok.1 located
      obtain rfl := c₁.source l (resolve_leads resolved)
      obtain ⟨rest, all⟩ := c₁.copyEntries (fun e member => (mem_below c₁.sound).1 member) copied
      refine ⟨first.trans (rest.imp fun l _ => (c.receives_iff first).1), rest.directory stands,
        fun rel node below there => ?_⟩
      exact all (rel, node) ((mem_below c₁.sound).2 ⟨below, (c.same first rel).trans there⟩)

end Copying

/-! ### Copies of several names -/

/-- What has these names below a path is copied to below another path, one after the other. -/
inductive Copies (source target : Path) : FileTree → List String → FileTree → Prop where
  | nil {t : FileTree} : Copies source target t [] t
  | cons {t t₁ t' : FileTree} {name : String} {names : List String} {n : Nat} :
      t.copyTree (source.joinName name) (target.joinName name) = (t₁, .ok n) →
        Copies source target t₁ names t' → Copies source target t (name :: names) t'

theorem Copies.grows (copies : Copies p q t names t') (sound : t.Sound) (begins : t.Begins q) :
    Grows (fun _ _ => True) t t' := by
  induction copies with
  | nil => exact .refl _ _
  | @cons t _ _ name _ _ copied _ ih =>
    have begins_copy : t.Begins (q.joinName name) := begins_join begins _
    have grows := (copyTree_grows sound (p.joinName name) begins_copy).imp fun _ _ _ => trivial
    rw [copied] at grows
    exact grows.trans (ih (grows.sound sound) (grows.begins begins))

/-- The steps of a name that is written as a path. -/
abbrev stepsOf (name : String) : List String := (Path.mk name).steps

/-- The names lead from one place to what is below it, and from the other one just so. -/
structure Transfer (t : FileTree) (source target : Path) (A B : Location) (names : List String) : Prop where
  sound : t.Sound
  begins : t.Begins target
  normal : ∀ name ∈ names, (Path.mk name).Normal
  origin : ∀ name ∈ names, ∀ l, t.Leads (t.start (source.joinName name)) (source.joinName name).parts l →
    l = A ++ stepsOf name
  place : ∀ name ∈ names, ∀ l, t.Leads (t.start (target.joinName name)) (target.joinName name).parts l →
    l = B ++ stepsOf name
  way : ∀ name ∈ names, ∀ l, t.OnWay (target.joinName name) l → t.node? l = none → ¬A <+: l
  above : ¬A <+: B
  below : ¬B <+: A
  unlinked : t.Unlinked A
  clear : ∀ name ∈ names, ∀ rel node, t.node? (A ++ (stepsOf name ++ rel)) = some node →
    t.Linkless B (stepsOf name ++ rel)

/-- Nodes come in the places of the names, or directories on the way there. -/
def ReceivesSome (t : FileTree) (A : Location) (target : Path) (B : Location) (names : List String)
    (l : Location) (node : FileNode) : Prop :=
  ∃ name ∈ names, t.Receives (A ++ stepsOf name) (target.joinName name) (B ++ stepsOf name) l node

theorem ReceivesSome.mirrors {target : Path} (receives : t.ReceivesSome A target B names l node) :
    t.Mirrors (fun l => ∃ name ∈ names, t.OnWay (target.joinName name) l) A B l node := by
  obtain ⟨name, member, ⟨onWay, rfl⟩ | ⟨rel, -, rfl, origin⟩⟩ := receives
  · exact .inl ⟨⟨name, member, onWay⟩, rfl⟩
  · rw [List.append_assoc] at origin ⊢
    exact .inr ⟨_, rfl, origin⟩

namespace Transfer
variable {source target : Path}

theorem copying (x : t.Transfer source target A B names) (member : name ∈ names) :
    t.Copying (source.joinName name) (target.joinName name) (A ++ stepsOf name) (B ++ stepsOf name) where
  sound := x.sound
  begins := begins_join x.begins _
  source := x.origin name member
  target := x.place name member
  way l onWay none inside := x.way name member l onWay none ((List.prefix_append A _).trans inside)
  above := apart_below x.above x.below _ _
  below := apart_below x.below x.above _ _
  unlinked m target there := by
    rw [List.append_assoc] at there
    exact x.unlinked _ target there
  clear rel node there m front some target link := by
    rw [List.append_assoc] at there link
    refine x.clear name member rel node there _ ((List.prefix_append_right_inj _).2 front) ?_ target link
    simp [some]

theorem tail (x : t.Transfer source target A B (name :: names)) : t.Transfer source target A B names where
  sound := x.sound
  begins := x.begins
  normal other member := x.normal other (List.mem_cons_of_mem _ member)
  origin other member := x.origin other (List.mem_cons_of_mem _ member)
  place other member := x.place other (List.mem_cons_of_mem _ member)
  way other member := x.way other (List.mem_cons_of_mem _ member)
  above := x.above
  below := x.below
  unlinked := x.unlinked
  clear other member := x.clear other (List.mem_cons_of_mem _ member)

/-- What stands below a word in one place goes below a word in another place. -/
theorem of_words {x y : String} (wordX : IsPlain x ∧ IsClean x) (wordY : IsPlain y ∧ IsClean y)
    (normal : ∀ name ∈ names, (Path.mk name).Normal) (sound : t.Sound) (begins : t.Begins q)
    (origin : ∀ l, t.Leads (t.start p) p.parts l → l = a) (place : ∀ l, t.Leads (t.start q) q.parts l → l = b)
    (way : ∀ l, t.OnWay q l → t.node? l = none → ¬a ++ [x] <+: l) (above : ¬a <+: b) (below : ¬b <+: a)
    (unlinked : t.Unlinked (a ++ [x])) (open_ : ∀ name ∈ names, t.Linkless b (y :: stepsOf name))
    (clear : ∀ name ∈ names, ∀ rel node, t.node? (a ++ x :: (stepsOf name ++ rel)) = some node →
      t.Linkless b (y :: (stepsOf name ++ rel))) :
    t.Transfer (p.joinName x) (q.joinName y) (a ++ [x]) (b ++ [y]) names where
  sound := sound
  begins := (writable_word wordY).begins_join begins
  normal := normal
  origin name member l leads := by
    rw [List.append_assoc]
    exact leads_word wordX (normal name member) origin (unlinked.linkless _) leads
  place name member l leads := by
    rw [List.append_assoc]
    exact leads_word wordY (normal name member) place (open_ name member) leads
  way name member l onWay none inside := by
    rcases onWay_word wordY (normal name member) place (open_ name member) onWay with front | ⟨m, -, rfl⟩
    · exact way l front none inside
    · obtain ⟨rest, same⟩ := (List.prefix_append a [x]).trans inside
      exact not_both above below rest _ same
  above := apart_below above below _ _
  below := apart_below below above _ _
  unlinked := unlinked
  clear name member rel node there := by
    rw [List.append_assoc] at there
    exact (clear name member rel node there).tail

theorem same (x : t.Transfer source target A B names) (grows : Grows (t.ReceivesSome A target B names) t t')
    (rel : List String) : t'.node? (A ++ rel) = t.node? (A ++ rel) :=
  (grows.imp fun _ _ => ReceivesSome.mirrors).source_same
    (fun l ⟨name, member, onWay⟩ => x.way name member l onWay) x.above x.below rel

theorem receives_iff (x : t.Transfer source target A B names) (grows : Grows (t.ReceivesSome A target B names) t t')
    (some : List String) : t'.ReceivesSome A target B some l node ↔ t.ReceivesSome A target B some l node := by
  simp only [ReceivesSome, Receives, PavesWay, grows.onWay_iff, List.append_assoc, x.same grows]

theorem later (x : t.Transfer source target A B names) (grows : Grows (t.ReceivesSome A target B names) t t') :
    t'.Transfer source target A B names where
  sound := grows.sound x.sound
  begins := grows.begins x.begins
  normal := x.normal
  origin name member l leads := x.origin name member l (by rwa [grows.start, grows.leads_iff] at leads)
  place name member l leads := x.place name member l (by rwa [grows.start, grows.leads_iff] at leads)
  way name member l onWay none := x.way name member l (grows.onWay_iff.1 onWay) (grows.none_before none)
  above := x.above
  below := x.below
  unlinked := grows.unlinked x.unlinked
  clear name member rel node there m front some target link := by
    rw [x.same grows] at there
    exact x.clear name member rel node there m front some target ((grows.link_iff _ target).1 link)

/-- Copies that succeed have all that has one of the names in place. -/
theorem copies (x : t.Transfer source target A B names) (copied : Copies source target t names t') :
    Grows (t.ReceivesSome A target B names) t t' ∧ ∀ name ∈ names,
      t'.node? (B ++ stepsOf name) = some .directory ∧
        ∀ rel node, rel ≠ [] → t.node? (A ++ (stepsOf name ++ rel)) = some node →
          t'.node? (B ++ (stepsOf name ++ rel)) = some node := by
  induction copied with
  | nil => exact ⟨.refl _ _, nofun⟩
  | @cons t t₁ t' name names n done rest ih =>
    have c := x.copying List.mem_cons_self
    have normal := x.normal name List.mem_cons_self
    obtain ⟨first, made, all⟩ := c.copyTree (Path.join_nonempty normal.relative (.inr normal.some)) done
    have grows : Grows (t.ReceivesSome A target B (name :: names)) t t₁ :=
      first.imp fun l node receives => ⟨name, List.mem_cons_self, receives⟩
    have x₁ := x.later grows
    obtain ⟨behind, others⟩ := ih x₁.tail
    have later : Grows (t₁.ReceivesSome A target B (name :: names)) t₁ t' :=
      behind.imp fun l node ⟨other, member, receives⟩ => ⟨other, List.mem_cons_of_mem _ member, receives⟩
    refine ⟨grows.trans (later.imp fun l _ => (x.receives_iff grows _).1), List.forall_mem_cons.2 ⟨⟨?_, ?_⟩, ?_⟩⟩
    · exact later.directory made
    · intro rel node some there
      refine (later.imp fun _ _ => ReceivesSome.mirrors).place_stays ((x.same grows _).trans there) ?_
      rw [← List.append_assoc]
      exact all rel node some (by rwa [List.append_assoc])
    · intro other member
      refine ⟨(others other member).1, fun rel node some there => ?_⟩
      exact (others other member).2 rel node some ((x.same grows _).trans there)

end Transfer

end FileTree
end FlowScript
