import FlowScript.Config
import FlowScript.Proofs.Decoding
import FlowScript.Proofs.Enclosure

/-! Where the settings put the store of library copies. The name of the store is joined to the root directory as
it stands: it can be blank, climb above that directory, or replace it. -/
namespace FlowScript

namespace Path

variable {d m R : Location} {part q r : String} {a b parts rest : List String} {p other : Path}

/-- Where the parts lead from a location where there are no links. -/
def lands : Location → List String → Location
  | d, [] => d
  | d, part :: rest =>
    if !leadsOn part then lands d rest
    else if part = ".." then lands d.dropLast rest
    else lands (d ++ [part]) rest

@[simp] theorem lands_nil (d : Location) : lands d [] = d := rfl

theorem lands_blank (blank : part = "" ∨ part = ".") : lands d (part :: rest) = lands d rest := by
  have blank : leadsOn part = false := Bool.eq_false_iff.2 (mt leadsOn_iff.1 (not_not_intro blank))
  simp [lands, blank]

theorem lands_up : lands d (".." :: rest) = lands d.dropLast rest := by
  have up : leadsOn ".." = true := by decide
  simp [lands, up]

theorem lands_plain (plain : IsPlain part) : lands d (part :: rest) = lands (d ++ [part]) rest := by
  simp [lands, leadsOn_iff.2 plain.not_blank, plain.notUp]

/-- A part is blank, leads up, or is a name. -/
theorem part_cases (part : String) : (part = "" ∨ part = ".") ∨ part = ".." ∨ IsPlain part := by
  by_cases blank : part = "" ∨ part = "."
  · exact .inl blank
  · by_cases up : part = ".."
    · exact .inr (.inl up)
    · exact .inr (.inr ⟨(not_or.1 blank).1, (not_or.1 blank).2, up⟩)

theorem lands_append (d : Location) (a b : List String) : lands d (a ++ b) = lands (lands d a) b := by
  induction a generalizing d with
  | nil => rfl
  | cons part a ih =>
    rw [List.cons_append]
    rcases part_cases part with blank | rfl | plain
    · rw [lands_blank blank, lands_blank blank, ih]
    · rw [lands_up, lands_up, ih]
    · rw [lands_plain plain, lands_plain plain, ih]

theorem lands_trunk (d : Location) (p : Path) : lands d p.trunk = lands d p.parts := by
  rcases p.parts_eq_trunk with same | blank
  · rw [same]
  · rw [blank, lands_append, lands_blank (.inl rfl), lands_nil]

/-- Parts that stay below a location lead to the same names below any other one. -/
theorem lands_behind (stays : staysBelow m.length parts = true) : lands (R ++ m) parts = R ++ lands m parts := by
  induction parts generalizing m with
  | nil => rfl
  | cons part rest ih =>
    rcases part_cases part with blank | rfl | plain
    · rw [staysBelow_blank blank] at stays
      rw [lands_blank blank, lands_blank blank, ih stays]
    · obtain ⟨deep, stays⟩ := (staysBelow_up _ _).1 stays
      have some : m ≠ [] := by simpa using deep
      rw [lands_up, lands_up, List.dropLast_append_of_ne_nil some]
      exact ih (by rwa [List.length_dropLast])
    · rw [staysBelow_plain plain] at stays
      rw [lands_plain plain, lands_plain plain, List.append_assoc]
      exact ih (by rwa [List.length_append])

theorem lands_below (stays : staysBelow 0 parts = true) (R : Location) : lands R parts = R ++ lands [] parts := by
  have behind := lands_behind (R := R) (m := []) stays
  rwa [List.append_nil] at behind

/-- Parts that lead above a location forget its name. -/
theorem lands_climbing (climbs : staysBelow m.length parts = false) :
    lands (q :: m) parts = lands (r :: m) parts := by
  induction parts generalizing m with
  | nil => cases climbs
  | cons part rest ih =>
    rcases part_cases part with blank | rfl | plain
    · rw [staysBelow_blank blank] at climbs
      rw [lands_blank blank, lands_blank blank, ih climbs]
    · rw [lands_up, lands_up]
      cases m with
      | nil => rfl
      | cons first m =>
        rw [List.dropLast_cons_cons, List.dropLast_cons_cons]
        refine ih (Bool.eq_false_iff.2 fun stays => Bool.eq_false_iff.1 climbs ?_)
        exact (staysBelow_up _ _).2 ⟨by simp, by simpa using stays⟩
    · rw [staysBelow_plain plain] at climbs
      rw [lands_plain plain, lands_plain plain, List.cons_append, List.cons_append]
      exact ih (by rwa [List.length_append])

/-- The location that a path names, seen from the working directory. -/
def landing (d : Location) (p : Path) : Location := lands (if p.isAbsolute then [] else d) p.parts

theorem landing_join (relative : other.isAbsolute = false) (d : Location) (p : Path) :
    landing d (p.join other) = lands (landing d p) other.parts := by
  rw [landing, isAbsolute_join relative, parts_join relative, lands_append, lands_trunk, landing]

end Path

namespace CacheConfig
open FlowScript.Path

variable {temporary : Path} {c given : CacheConfig} {environment : Entries String} {document : Option String}
  {d : Location} {name : String}

/-! ### Stores below the root directory -/

/-- As the paths read from the working directory, the store is strictly below the root directory, and it neither
is the directory for the runs nor holds it. -/
structure Nests (c : CacheConfig) (d : Location) : Prop where
  below : landing d c.rootDirectory <+: landing d c.libraryRoot
  strict : landing d c.libraryRoot ≠ landing d c.rootDirectory
  apart : ¬landing d c.libraryRoot <+: landing d c.runsRoot

/-- The names that lead from the root directory to the store. -/
def innerNames (name : String) : Location := lands [] (Path.mk name).parts

/-- A name that puts the store below any root directory, and not in the place of the runs. -/
structure Fits (name : String) : Prop where
  inward : (Path.mk name).Inward
  nonempty : innerNames name ≠ []
  apart : innerNames name ≠ ["executions"]

example : Fits "parse-cache-libraries" := ⟨by decide +kernel, by decide +kernel, by decide +kernel⟩

theorem landing_runsRoot (c : CacheConfig) (d : Location) :
    landing d c.runsRoot = landing d c.rootDirectory ++ ["executions"] := by
  have relative : (Path.mk "executions").isAbsolute = false := by decide +kernel
  have parts : (Path.mk "executions").parts = ["executions"] := by decide +kernel
  have plain : IsPlain "executions" := ⟨by decide, by decide, by decide⟩
  rw [runsRoot, joinName, landing_join relative, parts, lands_plain plain, lands_nil]

theorem landing_libraryRoot (inward : (Path.mk c.storeName).Inward) (d : Location) :
    landing d c.libraryRoot = landing d c.rootDirectory ++ innerNames c.storeName :=
  (landing_join inward.1 d c.rootDirectory).trans (lands_below inward.2 _)

theorem Fits.nests (fits : Fits c.storeName) (d : Location) : c.Nests d := by
  have place := landing_libraryRoot fits.inward d
  constructor
  case below => exact place ▸ List.prefix_append _ _
  case strict =>
    rw [place]
    exact fun same => fits.nonempty (by simpa using same)
  case apart =>
    rw [place, landing_runsRoot, List.prefix_append_right_inj]
    intro inside
    rcases List.prefix_cons_iff.1 inside with none | ⟨rest, is, inside⟩
    · exact fits.nonempty none
    · rw [List.prefix_nil.1 inside] at is
      exact fits.apart is

/-- A name that does not fit puts the store elsewhere below some root directory. -/
theorem fits_of_nests (nests : ∀ root d, Nests { c with rootDirectory := root } d) : Fits c.storeName := by
  have relative : (Path.mk c.storeName).isAbsolute = false := by
    -- An absolute name takes the place of the root directory, and names that directory itself.
    by_contra absolute
    rw [Bool.not_eq_false] at absolute
    have whole : libraryRoot { c with rootDirectory := ⟨c.storeName⟩ } = ⟨c.storeName⟩ := by
      simp [libraryRoot, joinName, join, absolute]
    exact (nests ⟨c.storeName⟩ []).strict (by rw [whole])
  have stays : staysBelow 0 (Path.mk c.storeName).parts = true := by
    -- A name that climbs leads to one place, which is not below two directories.
    by_contra climbs
    rw [Bool.not_eq_true] at climbs
    have place : ∀ root : Path, landing [] (libraryRoot { c with rootDirectory := root }) =
        lands (landing [] root) (Path.mk c.storeName).parts := fun root => landing_join relative [] root
    have first := (nests ⟨"/a"⟩ []).below
    have second := (nests ⟨"/b"⟩ []).below
    have a : landing [] ⟨"/a"⟩ = ["a"] := by decide +kernel
    have b : landing [] ⟨"/b"⟩ = ["b"] := by decide +kernel
    rw [place] at first second
    simp only [a, b] at first second
    rw [lands_climbing (q := "a") (r := "b") (m := []) climbs] at first
    obtain ⟨rest, same⟩ := first
    obtain ⟨rest', same'⟩ := second
    simpa using congrArg List.head? (same.trans same'.symm)
  have inward : (Path.mk c.storeName).Inward := ⟨relative, stays⟩
  have nested := nests c.rootDirectory []
  have place := landing_libraryRoot inward []
  refine ⟨inward, fun none => nested.strict ?_, fun runs => nested.apart ?_⟩
  · exact place.trans (by rw [none, List.append_nil])
  · rw [landing_runsRoot]
    exact (place.trans (by rw [runs])) ▸ List.prefix_rfl

/-! ### Settings that are accepted -/

/-- The settings before variables are looked at: those of a document, or the defaults. -/
def ofSource (temporary : Path) : Option String → Except ConfigError CacheConfig
  | none => .ok (default temporary)
  | some text => ofDocument temporary text

/-- What a document says in a field. -/
def stated (document : Option String) (name : String) : Option Toml :=
  document.bind fun text => (Toml.read? text).bind fun fields => Entries.find? fields name

/-- The name of the store that a document gives, or the default. -/
def statedName (document : Option String) : String :=
  match stated document "namespace" with
  | some (.string s) => s
  | _ => "parse-cache-libraries"

theorem field_eq_some {fields : Toml.Fields} {absent v : α} {read : Toml → Option α}
    (found : field fields name absent read = some v) :
    (fields.find? name = none ∧ v = absent) ∨ ∃ said, fields.find? name = some said ∧ read said = some v := by
  unfold field at found
  split at found
  · next missing => exact .inl ⟨missing, (Option.some.inj found).symm⟩
  · next said there => exact .inr ⟨said, there, found⟩

theorem withFields_eq_some {fields : Toml.Fields} (set : given.withFields fields = some c) :
    field fields "janitor_period_secs" given.janitorPeriod asPeriod = some c.janitorPeriod ∧
      field fields "namespace" given.storeName asText = some c.storeName := by
  simp only [withFields, Option.bind_eq_bind, Option.bind_eq_some_iff, Option.pure_def, Option.some.injEq] at set
  obtain ⟨enabled, -, capacityHint, -, period, stated, rootDirectory, -, storeName, named, rfl⟩ := set
  exact ⟨stated, named⟩

theorem ofDocument_eq_ok {text : String} (accepted : ofDocument temporary text = .ok c) :
    ∃ fields, Toml.read? text = some fields ∧ (default temporary).withFields fields = some c := by
  unfold ofDocument at accepted
  cases read : (Toml.read? text).bind (default temporary).withFields with
  | none =>
    rw [read] at accepted
    cases accepted
  | some c' =>
    rw [read] at accepted
    obtain rfl := Except.ok.inj accepted
    exact Option.bind_eq_some_iff.1 read

theorem asPeriod_eq_zero {v : Toml} (read : asPeriod v = some n) : n = 0 ↔ v = .int 0 := by
  cases v with
  | int i =>
    simp only [asPeriod, asCount, Option.map_eq_some_iff, Option.ite_none_right_eq_some, Option.some.injEq] at read
    obtain ⟨seconds, ⟨nonneg, rfl⟩, rfl⟩ := read
    rw [Toml.int.injEq]
    omega
  | bool | float | dateTime | string | array | table | tables => cases read

/-- A field of a document is read, and what it does not say is as it is by default. -/
theorem ofSource_eq_ok (accepted : ofSource temporary document = .ok c) :
    ((stated document "janitor_period_secs" = none ∧ c.janitorPeriod = (default temporary).janitorPeriod) ∨
      ∃ said, stated document "janitor_period_secs" = some said ∧ asPeriod said = some c.janitorPeriod) ∧
    ((stated document "namespace" = none ∧ c.storeName = (default temporary).storeName) ∨
      ∃ said, stated document "namespace" = some said ∧ asText said = some c.storeName) := by
  cases document with
  | none =>
    obtain rfl := Except.ok.inj accepted
    exact ⟨.inl ⟨rfl, rfl⟩, .inl ⟨rfl, rfl⟩⟩
  | some text =>
    obtain ⟨fields, read, set⟩ := ofDocument_eq_ok accepted
    have here : stated (some text) = fields.find? := by
      funext name
      simp [stated, read]
    rw [here]
    exact (withFields_eq_some set).imp field_eq_some field_eq_some

/-- A period of zero is taken from a document as it stands there. -/
theorem ofSource_period (accepted : ofSource temporary document = .ok c) :
    0 < c.janitorPeriod ↔ stated document "janitor_period_secs" ≠ some (.int 0) := by
  rw [Nat.pos_iff_ne_zero]
  refine not_congr ?_
  rcases (ofSource_eq_ok accepted).1 with ⟨missing, same⟩ | ⟨said, there, period⟩
  · rw [missing, same]
    exact ⟨nofun, nofun⟩
  · rw [there, asPeriod_eq_zero period, Option.some.injEq]

theorem ofSource_storeName (accepted : ofSource temporary document = .ok c) :
    c.storeName = statedName document := by
  unfold statedName
  rcases (ofSource_eq_ok accepted).2 with ⟨missing, same⟩ | ⟨said, there, named⟩
  · rw [missing, same]
    rfl
  · rw [there]
    cases said with
    | string s => exact (Option.some.inj named).symm
    | bool | int | float | dateTime | array | table | tables => cases named

theorem readPeriod_pos {raw : String} (read : readPeriod name raw = .ok n) : 0 < n := by
  unfold readPeriod at read
  cases count : readCount name raw with
  | error e =>
    rw [count] at read
    cases read
  | ok seconds =>
    rw [count] at read
    cases seconds with
    | zero => cases read
    | succ seconds =>
      obtain rfl := Except.ok.inj read
      omega

/-- What variables do to settings: they never name the store, and they never set the period to zero. -/
structure Overrides (environment : Entries String) (given c : CacheConfig) : Prop where
  storeName : c.storeName = given.storeName
  period : 0 < c.janitorPeriod ↔ environment.find? periodVariable ≠ none ∨ 0 < given.janitorPeriod

theorem withOverrides_ok (accepted : given.withOverrides environment = .ok c) : Overrides environment given c := by
  unfold withOverrides at accepted
  simp only [Json.bind_eq_ok] at accepted
  obtain ⟨enabled, -, capacityHint, -, period, overridden, rootDirectory, -, made⟩ := accepted
  obtain rfl := Except.ok.inj made
  refine ⟨rfl, ?_⟩
  unfold override at overridden
  split at overridden
  · next missing =>
    obtain rfl := Except.ok.inj overridden
    simp [missing]
  · next raw there => simp [there, readPeriod_pos overridden]

theorem withOverrides_root (c : CacheConfig) (root : Path) :
    c.withOverrides [(rootVariable, root.text)] = .ok { c with rootDirectory := root } := rfl

end CacheConfig
end FlowScript
