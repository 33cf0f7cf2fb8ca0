import FlowScript.Cache.Store

/-! Which locations of a classpath are shared, and in which libraries the others lie. -/
namespace FlowScript

namespace Execution

/-- A location of the classpath that is the same for all runs. -/
def shares (e : Execution) (names : List String) (url : Url) : Bool :=
  match Placement.classify url e.root names with
  | .ok .external => true
  | _ => false

/-- The classpath lies in the library of that name, among others. -/
def PointsInto (e : Execution) (names : List String) (name : String) : Prop :=
  ∃ url ∈ e.classpath, ∃ path, Placement.classify url e.root names = .ok (.library name path)

/-- Each location of the classpath is shared or lies in a library. -/
def Housed (e : Execution) (names : List String) : Prop :=
  ∀ url ∈ e.classpath, ∃ place, Placement.classify url e.root names = .ok place

end Execution

namespace Placement

theorem longest_mem {best : Option (String × Path)} {candidates : List (String × Path)}
    (found : longest best candidates = some winner) : best = some winner ∨ winner ∈ candidates := by
  induction candidates generalizing best with
  | nil =>
    cases best with
    | none => exact nomatch found
    | some b => exact .inl found
  | cons candidate rest ih =>
    cases best with
    | none =>
      rcases ih found with same | member
      · exact .inr (Option.some.inj same ▸ List.mem_cons_self)
      · exact .inr (List.mem_cons_of_mem _ member)
    | some b =>
      rcases ih found with same | member
      · split at same
        · exact .inl same
        · exact .inr (Option.some.inj same ▸ List.mem_cons_self)
      · exact .inr (List.mem_cons_of_mem _ member)

/-- A location that lies in a library lies in one that is declared, at its place in the run. -/
theorem classify_library (placed : classify url root names = .ok (.library name path)) :
    name ∈ names ∧ path = (root.joinName "libs").joinName name := by
  unfold classify at placed
  split at placed
  · exact nomatch placed
  · split at placed
    · exact nomatch placed
    · simp only at placed
      split at placed
      · next found =>
        obtain ⟨rfl, rfl⟩ := Placement.library.inj (Except.ok.inj placed)
        have member := (longest_mem found).resolve_left nofun
        obtain ⟨declared, here, same⟩ := List.mem_map.1 (List.mem_filter.1 member).1
        obtain ⟨rfl, rfl⟩ := Prod.mk.inj same
        exact ⟨here, rfl⟩
      · exact nomatch placed

end Placement

theorem Survey.mem_libraries {names : List String} {urls : List Url}
    (member : library ∈ (Survey.ofClasspath root names urls).libraries) :
    library.1 ∈ names ∧ library.2 = (root.joinName "libs").joinName library.1 := by
  induction urls with
  | nil => exact nomatch member
  | cons url urls ih =>
    simp only [ofClasspath] at member
    split at member
    · exact nomatch member
    · exact ih member
    · next placed =>
      rcases List.mem_cons.1 member with rfl | member
      · exact Placement.classify_library placed
      · exact ih (List.mem_filter.1 member).1

/-- A survey without an error has found a place for each location. -/
theorem Survey.ofClasspath_ok (e : Execution) (names : List String) (urls : List Url)
    (none : (ofClasspath e.root names urls).error = none) :
    (∀ url ∈ urls, ∃ place, Placement.classify url e.root names = .ok place) ∧
      (ofClasspath e.root names urls).urls = urls.filter (e.shares names) ∧
      ∀ name, name ∈ (ofClasspath e.root names urls).libraries.map Prod.fst ↔
        ∃ url ∈ urls, ∃ path, Placement.classify url e.root names = .ok (.library name path) := by
  induction urls with
  | nil => exact ⟨nofun, rfl, fun name => by simp [ofClasspath]⟩
  | cons url urls ih =>
    simp only [ofClasspath] at none ⊢
    rcases placed : Placement.classify url e.root names with e' | _ | ⟨library, path⟩
    · simp [placed] at none
    · simp only [placed] at none ⊢
      obtain ⟨housed, shared, libraries⟩ := ih none
      refine ⟨?_, ?_, fun name => ?_⟩
      · exact List.forall_mem_cons.2 ⟨⟨_, placed⟩, housed⟩
      · rw [List.filter_cons_of_pos (by simp [Execution.shares, placed]), shared]
      · simp [libraries, placed]
    · simp only [placed] at none ⊢
      obtain ⟨housed, shared, libraries⟩ := ih none
      refine ⟨?_, ?_, fun name => ?_⟩
      · exact List.forall_mem_cons.2 ⟨⟨_, placed⟩, housed⟩
      · rw [List.filter_cons_of_neg (by simp [Execution.shares, placed]), shared]
      · by_cases same : name = library
        · subst same
          simp [placed]
        · have elsewhere : ¬ ∃ path', Placement.classify url e.root names = .ok (.library name path') := by
            rintro ⟨path', there⟩
            obtain ⟨rfl, -⟩ := Placement.library.inj (Except.ok.inj (placed.symm.trans there))
            exact same rfl
          have others :
            name ∈ (((ofClasspath e.root names urls).libraries.filter (·.1 != library)).map Prod.fst) ↔
              name ∈ (ofClasspath e.root names urls).libraries.map Prod.fst := by
            simp [List.mem_filter, same]
          rw [List.map_cons, List.mem_cons, or_iff_right same, others, libraries]
          simp only [List.mem_cons, exists_eq_or_imp, or_iff_right elsewhere]

end FlowScript
