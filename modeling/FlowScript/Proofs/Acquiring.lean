import FlowScript.Cache
import FlowScript.Proofs.Ownership

/-! What a call of the cache comes to: a script from the entry of the key, or what the producer makes. The
work on files and on the record of the run has no part in this. -/
namespace FlowScript

/-- The record of a run without what loading a script adds to it. -/
def Execution.bare (e : Execution) : Execution := { e with classpath := [], actions := [], log := [] }

theorem Execution.id_eq {e e' : Execution} (same : e'.bare = e.bare) : e'.id = e.id :=
  (Execution.mk.inj same).1

/-- The scopes are the same, and so is the bare record of the run. -/
structure Workspace.Same (w w' : Workspace) : Prop where
  heap : w'.heap = w.heap
  bare : w'.execution.bare = w.execution.bare

namespace Workspace.Same
variable {w w' w'' : Workspace}

theorem refl (w : Workspace) : w.Same w := ⟨rfl, rfl⟩

theorem trans (first : w.Same w') (second : w'.Same w'') : w.Same w'' :=
  ⟨second.heap.trans first.heap, second.bare.trans first.bare⟩

theorem println (w : Workspace) (line : String) : w.Same (w.println line) := ⟨rfl, rfl⟩

end Workspace.Same

/-- The scopes are the same, and so is the record of the run but for its lines. -/
structure Workspace.Prints (w w' : Workspace) : Prop where
  heap : w'.heap = w.heap
  silent : { w'.execution with log := [] } = { w.execution with log := [] }

namespace Workspace.Prints
variable {w w' w'' : Workspace}

theorem refl (w : Workspace) : w.Prints w := ⟨rfl, rfl⟩

theorem trans (first : w.Prints w') (second : w'.Prints w'') : w.Prints w'' :=
  ⟨second.heap.trans first.heap, second.silent.trans first.silent⟩

theorem println (w : Workspace) (line : String) : w.Prints (w.println line) := ⟨rfl, rfl⟩

theorem files (w : Workspace) (files : FileTree) : w.Prints { w with files } := ⟨rfl, rfl⟩

theorem same (prints : w.Prints w') : w.Same w' := by
  have bare := congrArg Execution.bare prints.silent
  exact ⟨prints.heap, bare⟩

theorem root (prints : w.Prints w') : w'.execution.root = w.execution.root := (Execution.mk.inj prints.silent).2.2.1

theorem classpath (prints : w.Prints w') : w'.execution.classpath = w.execution.classpath :=
  (Execution.mk.inj prints.silent).2.2.2.1

theorem actions (prints : w.Prints w') : w'.execution.actions = w.execution.actions :=
  (Execution.mk.inj prints.silent).2.2.2.2.1

end Workspace.Prints

namespace LibraryStore

section
attribute [local irreducible] resourceUrls FileTree.copyTree

-- Unfolding by name would look into the copying of the files.
theorem copyLibraries_cons (target : Path) (name : String) (path : Path) (rest : List (String × Path))
    (w : Workspace) :
    copyLibraries target ((name, path) :: rest) w =
      let copy := target.joinName name
      let w := w.println ("Cache library " ++ path.text ++ " to " ++ copy.text)
      match w.files.copyTree path copy with
      | (files, .error fault) => ({ w with files }, .error (.io fault))
      | (files, .ok _) => copyLibraries target rest { w with files } := rfl

theorem extractFrom_cons (source : Path) (name : String) (rest : List String) (urls : List Url)
    (w : Workspace) :
    extractFrom source (name :: rest) urls w =
      let kept := source.joinName name
      let target := w.execution.libraryRoot.joinName name
      let w := w.println ("Extract cached library from " ++ kept.text ++ " to " ++ target.text)
      match w.files.copyTree kept target with
      | (files, .error fault) => ({ w with files }, .error (.io fault))
      | (files, .ok _) =>
        match resourceUrls files target with
        | .error e => ({ w with files }, .error e)
        | .ok found => extractFrom source rest (urls ++ found) { w with files } := rfl

end

theorem copyLibraries_prints (target : Path) (libraries : List (String × Path)) (w : Workspace) :
    w.Prints (copyLibraries target libraries w).1 := by
  induction libraries generalizing w with
  | nil => exact .refl w
  | cons library libraries ih =>
    obtain ⟨name, path⟩ := library
    simp only [copyLibraries_cons]
    split
    · exact (Workspace.Prints.println w _).trans (.files _ _)
    · exact ((Workspace.Prints.println w _).trans (.files _ _)).trans (ih _)

theorem harvest_prints (s : LibraryStore) (libraries : List String) (w : Workspace) :
    w.Prints (s.harvest libraries w).2.1 := by
  have copied := copyLibraries_prints (s.directory s.nextId)
    (Survey.ofClasspath w.execution.root libraries w.execution.classpath).libraries w
  simp only [harvest]
  generalize Survey.ofClasspath w.execution.root libraries w.execution.classpath = survey at copied ⊢
  generalize copyLibraries (s.directory s.nextId) survey.libraries w = result at copied ⊢
  obtain ⟨w', answer⟩ := result
  cases answer with
  | error e => exact copied
  | ok _ => cases survey.error <;> exact copied

theorem extractFrom_prints (source : Path) (names : List String) (urls : List Url) (w : Workspace) :
    w.Prints (extractFrom source names urls w).1 := by
  induction names generalizing urls w with
  | nil => exact .refl w
  | cons name names ih =>
    simp only [extractFrom_cons]
    generalize w.println _ = w₁, Workspace.Prints.println w _ = printed
    split
    · exact printed.trans (.files _ _)
    · split
      · exact printed.trans (.files _ _)
      · exact (printed.trans (.files _ _)).trans (ih _ _)

theorem extract_prints (s : LibraryStore) (kept : CachedLibraries) (w : Workspace) :
    w.Prints (s.extract kept w).1 := by
  unfold extract
  cases kept.directory with
  | none => exact .refl w
  | some id =>
    simp only
    split
    · exact extractFrom_prints _ _ _ w
    · exact .println w _

end LibraryStore

namespace Execution

theorem bare_addActions (actions : List RunAction) (e : Execution) :
    (actions.foldl addAction e).bare = e.bare := by
  induction actions generalizing e with
  | nil => rfl
  | cons action actions ih => exact ih (e.addAction action)

theorem bare_addClasspaths (urls : List Url) (e : Execution) :
    (urls.foldl addClasspath e).bare = e.bare := by
  induction urls generalizing e with
  | nil => rfl
  | cons url urls ih => exact ih (e.addClasspath url)

end Execution

theorem Template.ofScript_create (name : String) (p : Program) (binding fields : Bindings)
    (execution : Option ExecutionId) (h : Heap) :
    let (h, s) := Script.create name p binding fields execution h
    ofScript s h = ⟨name, p, fields⟩ :=
  congrArg (fun held : Contents => (⟨name, p, held.fields⟩ : Template)) Script.contents_create

/-- A producer whose scripts have scopes of their own. -/
structure Maker (ε : Type) where
  produce : Producer ε
  larger : ∀ w : Workspace, w.heap.Extends (produce w).1.heap
  fresh : ∀ (w : Workspace) s, (produce w).2 = .ok s → s.Fresh w.heap (produce w).1.heap

/-- What a call of the cache has come to. Where the producer is called, the workspace may have been used
before, but not its scopes. -/
inductive Acquired.Of (c : ScriptCache) (key : CacheKey) (binding : Bindings) (w : Workspace)
    (produce : Producer ε) (a : Acquired ε) : Prop where
  | hit (entry : CacheEntry) (s : Script) :
      c.find? key = some entry → a.route = .hit → a.script = .ok s →
      (a.workspace.heap, s) = entry.template.instantiate binding w.execution.id w.heap →
      a.workspace.execution.bare = w.execution.bare →
      (∀ k, a.cache.find? k = c.find? k) → Of c key binding w produce a
  | founded (entry : CacheEntry) (s : Script) :
      c.find? key = none → a.route = .founded → (produce w).2 = .ok s → a.script = .ok s →
      (produce w).1.Same a.workspace → entry.template = .ofScript s (produce w).1.heap →
      (∀ k, a.cache.find? k = if k = key then some entry else c.find? k) → Of c key binding w produce a
  | uncached :
      c.find? key = none → a.route = .uncached → a.script = (produce w).2 →
      (produce w).1.Same a.workspace → (∀ k, a.cache.find? k = c.find? k) → Of c key binding w produce a
  | fallback (entry : CacheEntry) (w' : Workspace) :
      c.find? key = some entry → w.Same w' → a.route = .fallback → a.script = (produce w').2 →
      a.workspace = (produce w').1 → (∀ k, a.cache.find? k = if k = key then none else c.find? k) →
      Of c key binding w produce a

namespace ScriptCache
variable {c : ScriptCache} {key : CacheKey} {w : Workspace}

theorem record_spec (store : LibraryStore) (script : Script) (w : Workspace) :
    w.Same (record store script w).2.1 ∧
      ∀ entry, (record store script w).2.2 = .ok entry → entry.template = .ofScript script w.heap := by
  have printed := Workspace.Same.println w "Create script cache entry"
  simp only [record]
  generalize w.println _ = w₁ at printed
  cases w₁.execution.libraries? with
  | none =>
    refine ⟨printed, ?_⟩
    rintro _ ⟨⟩
    rw [Template.ofScript, printed.heap]
    rfl
  | some names =>
    have harvested := (store.harvest_prints names w₁).same
    simp only
    generalize store.harvest names w₁ = result at harvested
    obtain ⟨store', w₂, e | libraries⟩ := result
    · exact ⟨(printed.trans harvested).trans (.println _ _), nofun⟩
    · refine ⟨printed.trans harvested, ?_⟩
      rintro _ ⟨⟩
      rw [Template.ofScript, printed.heap]
      rfl

theorem miss_of (absent : c.find? key = none) (produce : Producer ε) :
    Acquired.Of c key binding w produce (c.miss key w produce) := by
  simp only [miss, populate]
  rcases made : produce w with ⟨w₁, e | s⟩
  · exact .uncached absent rfl (by rw [made]) (by rw [made]; exact .refl _) fun _ => rfl
  · simp only
    obtain ⟨same, template⟩ := record_spec c.store s w₁
    rcases recorded : record c.store s w₁ with ⟨store, w₂, e | entry⟩
    · rw [recorded] at same
      exact .uncached absent rfl (by rw [made]) (by rw [made]; exact same) fun _ => rfl
    · rw [recorded] at same template
      refine .founded entry s absent rfl (by rw [made]) rfl ?_ ?_ ?_
      · rw [made]
        exact same.trans (.println _ _)
      · rw [made]
        exact template entry rfl
      · intro k
        exact find?_install _ absent entry k

/-- A script is taken from an entry, or the scopes are as they were. -/
theorem extract_cases (store : LibraryStore) (entry : CacheEntry) (binding : Bindings) (w : Workspace) :
    (∃ w' e, extract store entry binding w = (w', .error e) ∧ w.Same w') ∨
      ∃ w' s, extract store entry binding w = (w', .ok s) ∧
        (w'.heap, s) = entry.template.instantiate binding w.execution.id w.heap ∧
        w'.execution.bare = w.execution.bare := by
  have extracted := (store.extract_prints entry.libraries w).same
  unfold extract
  generalize store.extract entry.libraries w = result at extracted
  obtain ⟨⟨files, heap, execution⟩, e | urls⟩ := result
  · exact .inl ⟨_, e, rfl, extracted⟩
  · have bare : (entry.actions.foldl Execution.addAction
        (urls.foldl Execution.addClasspath execution)).bare = w.execution.bare :=
      (Execution.bare_addActions _ _).trans ((Execution.bare_addClasspaths urls execution).trans extracted.bare)
    obtain rfl : heap = w.heap := extracted.heap
    refine .inr ⟨_, _, rfl, ?_, bare⟩
    exact congrArg (fun name => entry.template.instantiate binding name w.heap) (Execution.id_eq bare)

theorem acquire_of (c : ScriptCache) (key : CacheKey) (binding : Bindings) (w : Workspace)
    (produce : Producer ε) : Acquired.Of c key binding w produce (c.acquire key binding w produce) := by
  unfold acquire
  cases found : c.find? key with
  | none => exact miss_of found produce
  | some entry =>
    have printed := Workspace.Same.println w "Extract script from cache"
    rcases extract_cases c.store entry binding (w.println "Extract script from cache") with
      ⟨w', e, extracted, same⟩ | ⟨w', s, extracted, instantiated, bare⟩
    · simp only [extracted]
      exact .fallback entry w' found (printed.trans same) rfl rfl rfl fun k => c.find?_remove key k
    · simp only [extracted]
      exact .hit entry s found rfl rfl instantiated bare fun _ => rfl

/-! ### What holds of all templates -/

/-- What holds of the template of each entry, with its key. -/
def Each (c : ScriptCache) (P : CacheKey → Template → Prop) : Prop :=
  ∀ key entry, c.find? key = some entry → P key entry.template

variable {P : CacheKey → Template → Prop}

theorem each_create (store : LibraryStore) : (create store).Each P := fun _ _ found => nomatch found

theorem Each.evict (each : c.Each P) (key : CacheKey) : (c.evict key).1.Each P := by
  intro k entry found
  rw [ScriptCache.evict, find?_remove] at found
  exact each k entry (Option.ite_none_left_eq_some.1 found).2

/-- A call keeps what holds of all templates, if it holds of those that the producer makes. -/
theorem Each.acquire (each : c.Each P) {produce : Producer ε}
    (made : ∀ s, (produce w).2 = .ok s → P key (.ofScript s (produce w).1.heap)) :
    (c.acquire key binding w produce).cache.Each P := by
  have spec := c.acquire_of key binding w produce
  intro k entry found
  cases spec with
  | hit _ _ _ _ _ _ _ unchanged => exact each k entry ((unchanged k).symm.trans found)
  | uncached _ _ _ _ unchanged => exact each k entry ((unchanged k).symm.trans found)
  | founded installed s absent route ok script same template stored =>
    rw [stored] at found
    by_cases here : k = key
    · rw [if_pos here] at found
      obtain rfl := Option.some.inj found
      rw [here, template]
      exact made s ok
    · rw [if_neg here] at found
      exact each k entry found
  | fallback _ _ _ _ _ _ _ removed =>
    rw [removed] at found
    exact each k entry (Option.ite_none_left_eq_some.1 found).2

end ScriptCache
end FlowScript
