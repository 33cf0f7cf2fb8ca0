import FlowScript.Proofs.PathParts
import FlowScript.Proofs.Surveying

/-! The partition of a classpath. What stands below the directory of a run is the run's own, and lies in the
library with the longest path around it, if it lies in one; all else is shared. The partition keeps to this
for all locations of files and libraries that are named by relative paths. It asks neither for the scheme of
a location nor for where a name leads. -/
namespace FlowScript

namespace Path
variable {p q : Path}

theorem components_eq (parts : p.parts = first :: rest) :
    p.components =
      (if p.isAbsolute then [.root] else if first = "." then [.here] else (Component.ofPart? first).toList) ++
        rest.filterMap Component.ofPart? := by
  simp only [components, parts]

/-- A relative path behind another one adds its components to those of the other, but for a `.` at its
beginning. -/
theorem components_join (relative : q.isAbsolute = false) (some : p.trunk ≠ []) (same : p.trunk = p.parts) :
    (p.join q).components = p.components ++ q.parts.filterMap Component.ofPart? := by
  cases parts : p.parts with
  | nil => exact absurd (same.trans parts) some
  | cons first rest =>
    have whole : (p.join q).parts = first :: (rest ++ q.parts) := by
      rw [parts_join relative, same, parts, List.cons_append]
    rw [components_eq whole, components_eq parts, isAbsolute_join relative, List.filterMap_append,
      List.append_assoc]

theorem trunk_joinName (plain : name ≠ "") (no_slash : '/' ∉ name.toList) (p : Path) :
    (p.joinName name).trunk = (p.joinName name).parts ∧ (p.joinName name).trunk ≠ [] := by
  have relative : Path.isAbsolute ⟨name⟩ = false := by
    cases chars : name.toList with
    | nil => simp [isAbsolute, chars]
    | cons c cs =>
      have : c ≠ '/' := by
        rintro rfl
        simp [chars] at no_slash
      simp [isAbsolute, chars, this]
  have parts : (p.joinName name).parts = p.trunk ++ [name] := by
    rw [joinName, parts_join relative, Path.parts, Text.split_of_not_mem no_slash]
  have trunk := trunk_eq (p := p.joinName name) (by simp [parts, plain])
  exact ⟨trunk, by simp [trunk, parts]⟩

theorem startsWith_iff : p.startsWith q = true ↔ q.components <+: p.components :=
  List.isPrefixOf_iff_prefix

theorem startsWith_join (relative : q.isAbsolute = false) (some : p.trunk ≠ []) (same : p.trunk = p.parts) :
    (p.join q).startsWith p = true := by
  rw [startsWith_iff, components_join relative some same]
  exact List.prefix_append _ _

end Path

namespace Placement
variable {url : Url} {root file : Path} {names : List String} {name : String}

/-- Where the library of a name has its place in a run. -/
def place (root : Path) (name : String) : Path := (root.joinName "libs").joinName name

/-- How far down that is. -/
def depth (root : Path) (name : String) : Nat := (place root name).components.length

/-- The location is spelled as a file, and the file stands below the directory of the run. -/
def LiesIn (url : Url) (root file : Path) : Prop := url.filePath? = some file ∧ file.startsWith root = true

/-- A declared library has the file in it, and no other one with the file in it lies further down; of those
that lie as far down it is the last one. -/
def Houses (root file : Path) (names : List String) (name : String) : Prop :=
  ∃ before after, names = before ++ name :: after ∧ file.startsWith (place root name) = true ∧
    (∀ other ∈ before, file.startsWith (place root other) = true → depth root other ≤ depth root name) ∧
    ∀ other ∈ after, file.startsWith (place root other) = true → depth root other < depth root name

namespace Houses

theorem declared (houses : Houses root file names name) : name ∈ names := by
  obtain ⟨before, after, rfl, -⟩ := houses
  simp

theorem contains (houses : Houses root file names name) : file.startsWith (place root name) = true := by
  obtain ⟨before, after, -, contains, -⟩ := houses
  exact contains

theorem deepest (houses : Houses root file names name) (other : String) (declared : other ∈ names)
    (contains : file.startsWith (place root other) = true) : depth root other ≤ depth root name := by
  obtain ⟨before, after, rfl, -, earlier, later⟩ := houses
  rcases List.mem_append.1 declared with member | member
  · exact earlier other member contains
  · rcases List.mem_cons.1 member with rfl | member
    · exact Nat.le_refl _
    · exact Nat.le_of_lt (later other member contains)

/-- Where a declared library has the file in it, one houses it. -/
theorem exists_of_contains (declared : name ∈ names) (contains : file.startsWith (place root name) = true) :
    ∃ name, Houses root file names name := by
  induction names generalizing name with
  | nil => exact nomatch declared
  | cons first rest ih =>
    by_cases behind : ∃ name ∈ rest, file.startsWith (place root name) = true
    · obtain ⟨name', member, contains'⟩ := behind
      obtain ⟨best, housed⟩ := ih member contains'
      by_cases wins : file.startsWith (place root first) = true ∧ depth root best < depth root first
      · refine ⟨first, [], rest, rfl, wins.1, nofun, fun other member contains => ?_⟩
        exact Nat.lt_of_le_of_lt (housed.deepest other member contains) wins.2
      · obtain ⟨before, after, rfl, contains, earlier, later⟩ := housed
        refine ⟨best, first :: before, after, rfl, contains, fun other member inside => ?_, later⟩
        rcases List.mem_cons.1 member with rfl | member
        · exact Nat.le_of_not_lt fun deeper => wins ⟨inside, deeper⟩
        · exact earlier other member inside
    · have here : name = first := by
        rcases List.mem_cons.1 declared with here | member
        · exact here
        · exact absurd ⟨name, member, contains⟩ behind
      subst here
      exact ⟨name, [], rest, rfl, contains, nofun,
        fun other member inside => absurd ⟨other, member, inside⟩ behind⟩

end Houses

/-! ### The search for the longest path -/

theorem longest_append (best : Option (String × Path)) (front back : List (String × Path)) :
    longest best (front ++ back) = longest (longest best front) back := by
  induction front generalizing best with
  | nil => cases best <;> rfl
  | cons candidate front ih => cases best <;> exact ih _

theorem longest_le {bound : Nat} {best : Option (String × Path)} {candidates : List (String × Path)}
    (first : ∀ b ∈ best, b.2.components.length ≤ bound)
    (others : ∀ c ∈ candidates, c.2.components.length ≤ bound) :
    ∀ b ∈ longest best candidates, b.2.components.length ≤ bound := by
  intro b found
  rcases longest_mem found with same | member
  · exact first b same
  · exact others b member

/-- A candidate wins against shorter ones behind it. -/
theorem longest_of_shorter {best : String × Path} {candidates : List (String × Path)}
    (shorter : ∀ c ∈ candidates, c.2.components.length < best.2.components.length) :
    longest (some best) candidates = some best := by
  induction candidates with
  | nil => rfl
  | cons candidate candidates ih =>
    obtain ⟨first, others⟩ := List.forall_mem_cons.1 shorter
    rw [longest, if_pos first]
    exact ih others

theorem longest_eq {best : String × Path} {before after : List (String × Path)}
    (earlier : ∀ c ∈ before, c.2.components.length ≤ best.2.components.length)
    (later : ∀ c ∈ after, c.2.components.length < best.2.components.length) :
    longest none (before ++ best :: after) = some best := by
  rw [longest_append]
  have bounded : ∀ b ∈ longest none before, b.2.components.length ≤ best.2.components.length :=
    longest_le nofun earlier
  cases found : longest none before with
  | none => exact longest_of_shorter later
  | some b =>
    have : ¬best.2.components.length < b.2.components.length := Nat.not_lt.2 (bounded b found)
    rw [longest, if_neg this]
    exact longest_of_shorter later

/-- The libraries that have the file in them, with their places. -/
theorem candidates_append (before after : List String) (contains : file.startsWith (place root name) = true) :
    (((before ++ name :: after).map fun name => (name, place root name)).filter
        fun candidate => file.startsWith candidate.2) =
      ((before.map fun name => (name, place root name)).filter fun candidate => file.startsWith candidate.2) ++
        (name, place root name) ::
          ((after.map fun name => (name, place root name)).filter fun candidate => file.startsWith candidate.2) := by
  simp [contains]

theorem Houses.longest (houses : Houses root file names name) :
    Placement.longest none ((names.map fun name => (name, place root name)).filter
      fun candidate => file.startsWith candidate.2) = some (name, place root name) := by
  obtain ⟨before, after, rfl, contains, earlier, later⟩ := houses
  rw [candidates_append before after contains]
  apply longest_eq
  · intro candidate member
    obtain ⟨listed, inside⟩ := List.mem_filter.1 member
    obtain ⟨other, declared, rfl⟩ := List.mem_map.1 listed
    exact earlier other declared inside
  · intro candidate member
    obtain ⟨listed, inside⟩ := List.mem_filter.1 member
    obtain ⟨other, declared, rfl⟩ := List.mem_map.1 listed
    exact later other declared inside

/-! ### What a location is taken for -/

theorem classify_external (outside : ∀ file, ¬LiesIn url root file) :
    classify url root names = .ok .external := by
  unfold classify
  cases spelled : url.filePath? with
  | none => rfl
  | some file =>
    have : file.startsWith root = false := Bool.eq_false_iff.2 fun inside => outside file ⟨spelled, inside⟩
    simp [this]

theorem classify_of_houses (inside : LiesIn url root file) (houses : Houses root file names name) :
    classify url root names = .ok (.library name (place root name)) := by
  have found := houses.longest
  unfold place at found ⊢
  simp only [classify, inside.1, inside.2, Bool.not_true, Bool.false_eq_true, if_false, found]

theorem classify_unhoused (inside : LiesIn url root file)
    (none : ∀ name ∈ names, file.startsWith (place root name) = false) :
    classify url root names = .error (.notALibrary file) := by
  have found : ((names.map fun name => (name, place root name)).filter
      fun candidate => file.startsWith candidate.2) = [] := by
    simpa [List.filter_eq_nil_iff] using none
  unfold place at found
  simp only [classify, inside.1, inside.2, Bool.not_true, Bool.false_eq_true, if_false, found, longest]

/-- What a location is taken for, and why. -/
inductive Found (url : Url) (root : Path) (names : List String) : Except CacheError Placement → Prop where
  | external (outside : ∀ file, ¬LiesIn url root file) : Found url root names (.ok .external)
  | library {file : Path} {name : String} (inside : LiesIn url root file)
      (houses : Houses root file names name) : Found url root names (.ok (.library name (place root name)))
  | unhoused {file : Path} (inside : LiesIn url root file)
      (none : ∀ name ∈ names, file.startsWith (place root name) = false) :
      Found url root names (.error (.notALibrary file))

theorem found_classify (url : Url) (root : Path) (names : List String) :
    Found url root names (classify url root names) := by
  by_cases inside : ∃ file, LiesIn url root file
  · obtain ⟨file, inside⟩ := inside
    by_cases contained : ∃ name ∈ names, file.startsWith (place root name) = true
    · obtain ⟨name, declared, contains⟩ := contained
      obtain ⟨name, houses⟩ := Houses.exists_of_contains declared contains
      exact classify_of_houses inside houses ▸ .library inside houses
    · have none : ∀ name ∈ names, file.startsWith (place root name) = false :=
        fun name declared => Bool.eq_false_iff.2 fun contains => contained ⟨name, declared, contains⟩
      exact classify_unhoused inside none ▸ .unhoused inside none
  · have outside : ∀ file, ¬LiesIn url root file := fun file lies => inside ⟨file, lies⟩
    rw [classify_external outside]
    exact .external outside

theorem Found.unique (found : Found url root names answer) : answer = classify url root names := by
  cases found with
  | external outside => exact (classify_external outside).symm
  | library inside houses => exact (classify_of_houses inside houses).symm
  | unhoused inside none => exact (classify_unhoused inside none).symm

theorem classify_eq_iff : classify url root names = answer ↔ Found url root names answer :=
  ⟨fun same => same ▸ found_classify url root names, fun found => found.unique.symm⟩

/-! ### The rule -/

/-- The rule of the partition. Only files below the directory of the run are its own; each has to lie in a
declared library that has its place below `libs`, and belongs to one with no other further down. -/
inductive ByRule (url : Url) (root : Path) (names : List String) : Except CacheError Placement → Prop where
  | external (outside : ¬∃ file, url.scheme = "file" ∧ LiesIn url root file) :
      ByRule url root names (.ok .external)
  | library {file : Path} {name : String} (isFile : url.scheme = "file") (inside : LiesIn url root file)
      (declared : name ∈ names)
      (below : (place root name).startsWith (root.joinName "libs") = true)
      (contains : file.startsWith (place root name) = true)
      (deepest : ∀ other ∈ names, (place root other).startsWith (root.joinName "libs") = true →
        file.startsWith (place root other) = true → depth root other ≤ depth root name) :
      ByRule url root names (.ok (.library name (place root name)))
  | unhoused {file : Path} (isFile : url.scheme = "file") (inside : LiesIn url root file)
      (none : ∀ name ∈ names, (place root name).startsWith (root.joinName "libs") = true →
        file.startsWith (place root name) = false) :
      ByRule url root names (.error (.notALibrary file))

/-- A library that is named by a relative path has its place below `libs`. -/
theorem place_below (relative : Path.isAbsolute ⟨name⟩ = false) :
    (place root name).startsWith (root.joinName "libs") = true := by
  have libs : "libs" ≠ "" := by decide
  obtain ⟨same, some⟩ := Path.trunk_joinName libs (by decide) root
  exact Path.startsWith_join relative some same

/-- The rule is kept but for what is taken for a file without being one, and for a library whose name leads
out of `libs`. -/
theorem byRule_classify_iff :
    ByRule url root names (classify url root names) ↔
      ∀ file, LiesIn url root file → url.scheme = "file" ∧
        ∀ name path, classify url root names = .ok (.library name path) →
          path.startsWith (root.joinName "libs") = true := by
  constructor
  · intro rule file inside
    cases answered : classify url root names with
    | error e =>
      rw [answered] at rule
      cases rule with
      | unhoused isFile => exact ⟨isFile, nofun⟩
    | ok placed =>
      rw [answered] at rule
      cases rule with
      | external outside =>
        -- A file below the directory of the run is never taken for shared.
        cases classify_eq_iff.1 answered with
        | external outside' => exact absurd inside (outside' file)
      | library isFile _ _ below =>
        refine ⟨isFile, fun name path same => ?_⟩
        obtain ⟨rfl, rfl⟩ := Placement.library.inj (Except.ok.inj same)
        exact below
  · intro kept
    cases answered : classify url root names with
    | error e =>
      cases classify_eq_iff.1 answered with
      | unhoused inside none => exact .unhoused (kept _ inside).1 inside fun name declared _ => none name declared
    | ok placed =>
      cases classify_eq_iff.1 answered with
      | external outside => exact .external fun ⟨file, _, inside⟩ => outside file inside
      | library inside houses =>
        obtain ⟨isFile, below⟩ := kept _ inside
        exact .library isFile inside houses.declared (below _ _ answered) houses.contains
          fun other declared _ => houses.deepest other declared

end Placement
open Placement

/-- The partition of a classpath, for each location, directory of a run and declared names. A location is
shared just when it does not spell a file below the directory of the run. It is taken for part of a library,
at the place of the name under `libs`, just when that one has the file in it with no other one further down,
and is the last of those as far down. Else no declared name has the file in it, and just then there is an
error, with the file. This is as the rule has it just when the location is one of a file and the library, if
there is one, has its place below `libs`; so it is for all files and all names that are relative paths. -/
theorem partition_of_classpath (url : Url) (root : Path) (names : List String) :
    (classify url root names = .ok .external ↔ ∀ file, ¬LiesIn url root file) ∧
    (∀ name path, classify url root names = .ok (.library name path) ↔
      path = place root name ∧ ∃ file, LiesIn url root file ∧ Houses root file names name) ∧
    (∀ e, classify url root names = .error e ↔
      ∃ file, e = .notALibrary file ∧ LiesIn url root file ∧
        ∀ name ∈ names, file.startsWith (place root name) = false) ∧
    (ByRule url root names (classify url root names) ↔
      ∀ file, LiesIn url root file → url.scheme = "file" ∧
        ∀ name path, classify url root names = .ok (.library name path) →
          path.startsWith (root.joinName "libs") = true) ∧
    (url.scheme = "file" → (∀ name ∈ names, Path.isAbsolute ⟨name⟩ = false) →
      ByRule url root names (classify url root names)) := by
  refine ⟨⟨fun answered => ?_, classify_external⟩, fun name path => ⟨fun answered => ?_, ?_⟩,
    fun e => ⟨fun answered => ?_, ?_⟩, byRule_classify_iff, fun isFile relative => ?_⟩
  · cases classify_eq_iff.1 answered with
    | external outside => exact outside
  · cases classify_eq_iff.1 answered with
    | library inside houses => exact ⟨rfl, _, inside, houses⟩
  · rintro ⟨rfl, file, inside, houses⟩
    exact classify_of_houses inside houses
  · cases classify_eq_iff.1 answered with
    | unhoused inside none => exact ⟨_, rfl, inside, none⟩
  · rintro ⟨file, rfl, inside, none⟩
    exact classify_unhoused inside none
  · refine byRule_classify_iff.2 fun file _ => ⟨isFile, fun name path answered => ?_⟩
    obtain ⟨declared, rfl⟩ := classify_library answered
    exact place_below (relative name declared)

/-- What another scheme spells is taken for part of a library, and so is a file outside `libs` where an
absolute path is declared. -/
theorem partition_asks_for_no_scheme :
    let page : Url :=
      ⟨"http", some ⟨"", some (.name "localhost"), none⟩, .segments ["runs", "1", "libs", "shared", "src", ""],
        none, none⟩
    let classes := Url.ofSegments ["runs", "1", "workspace", "classes", ""]
    (classify page ⟨"/runs/1"⟩ ["shared"] = .ok (.library "shared" ⟨"/runs/1/libs/shared"⟩) ∧
      ¬ByRule page ⟨"/runs/1"⟩ ["shared"] (classify page ⟨"/runs/1"⟩ ["shared"])) ∧
    classify classes ⟨"/runs/1"⟩ ["/runs/1/workspace"] =
        .ok (.library "/runs/1/workspace" ⟨"/runs/1/workspace"⟩) ∧
      ¬ByRule classes ⟨"/runs/1"⟩ ["/runs/1/workspace"] (classify classes ⟨"/runs/1"⟩ ["/runs/1/workspace"]) := by
  intro page classes
  have shared : classify page ⟨"/runs/1"⟩ ["shared"] = .ok (.library "shared" ⟨"/runs/1/libs/shared"⟩) := by
    decide +kernel
  have outside : classify classes ⟨"/runs/1"⟩ ["/runs/1/workspace"] =
      .ok (.library "/runs/1/workspace" ⟨"/runs/1/workspace"⟩) := by
    decide +kernel
  refine ⟨⟨shared, fun rule => ?_⟩, outside, fun rule => ?_⟩
  · have inside : LiesIn page ⟨"/runs/1"⟩ ⟨"/runs/1/libs/shared/src/"⟩ := by
      constructor <;> decide +kernel
    exact absurd (byRule_classify_iff.1 rule _ inside).1 (by decide)
  · have inside : LiesIn classes ⟨"/runs/1"⟩ ⟨"/runs/1/workspace/classes/"⟩ := by
      constructor <;> decide +kernel
    have below := (byRule_classify_iff.1 rule _ inside).2 _ _ outside
    exact absurd below (by decide +kernel)

end FlowScript
