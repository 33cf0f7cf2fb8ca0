import FlowScript.Proofs.EqualKeys
import FlowScript.Proofs.ScriptLife

/-! Scripts over one heap do not see one another. However the runs of scripts are interleaved that come
from one cache, or are copies of such scripts, each script does what it does alone from when it was made. The
scripts that the cache keeps are among them: a template stays as it was installed as long as nobody runs it. -/
namespace FlowScript

/-- A script that has been handed out, or is kept for an entry of the cache, with what it has held at
first and what has been done with its runs. -/
structure Member where
  script : Script
  born : Contents
  runs : List Standing
  past : List Play

namespace Member

/-- The script of the member, with its scopes alone in a heap. -/
def twin (m : Member) : Script :=
  (Script.create m.script.name m.script.program m.born.binding m.born.fields none .empty).2

/-- What becomes of the script of the member if there are its runs only. -/
def lone (answer : Invocation → Except Failure Value) (m : Member) : Life :=
  m.past.foldl (m.twin.play answer)
    ⟨(Script.create m.script.name m.script.program m.born.binding m.born.fields none .empty).1, []⟩

theorem lone_fits (answer : Invocation → Except Failure Value) (m : Member) :
    (m.lone answer).Fits m.twin.program := by
  unfold lone
  generalize m.past = past
  induction past using List.reverseRecOn with
  | nil => exact fun _ member => nomatch member
  | append_singleton past p ih =>
    rw [List.foldl_append]
    exact ih.play p

theorem lone_play (answer : Invocation → Except Failure Value) (m : Member) (runs : List Standing)
    (p : Play) : ({ m with runs, past := m.past ++ [p] } : Member).lone answer =
      m.twin.play answer (m.lone answer) p := by
  simp only [lone, List.foldl_append]
  rfl

end Member

/-- The entry with what the script holds as its template. -/
def CacheEntry.renew (entry : CacheEntry) (s : Script) (h : Heap) : CacheEntry :=
  { entry with template := .ofScript s h }

/-- The scripts that have come from a cache, and the heap with their scopes. On the shelf are the numbers of
those that are kept for entries, the latest one of a key first. -/
structure Yard where
  heap : Heap
  cache : ScriptCache
  members : List Member
  shelf : List (CacheKey × Nat)

/-- What may be done with the cache and its scripts. Files and executions may be any at each call. -/
inductive YardAct (ε : Type) where
  | acquire (key : CacheKey) (binding : Bindings) (files : FileTree) (execution : Execution)
      (maker : Maker ε)
  | clone (member : Nat) (binding : Bindings) (execution : Option ExecutionId)
  | play (member : Nat) (play : Play)
  | evict (key : CacheKey)

namespace Yard

def opening (h : Heap) (store : LibraryStore) : Yard := ⟨h, .create store, [], []⟩

/-- Takes in a script that has just been made. -/
def take (y : Yard) (h : Heap) (s : Script) (born : Contents) : Yard :=
  { y with heap := h, members := y.members ++ [⟨s, born, [], []⟩] }

/-- A copy of the script that has been made for an entry is kept with it. -/
def keep (y : Yard) (key : CacheKey) (s : Script) : Yard :=
  let (h, template) := s.clone [] none y.heap
  { y.take h template (template.contents h) with shelf := (key, y.members.length) :: y.shelf }

/-- The entry of a key as it is now: its template is what the script holds that is kept for it. -/
def current (y : Yard) (key : CacheKey) (entry : CacheEntry) : CacheEntry :=
  match (y.shelf.lookup key).bind (y.members[·]?) with
  | some member => entry.renew member.script y.heap
  | none => entry

/-- The cache with its entries as they are now. -/
def live (y : Yard) : ScriptCache :=
  { y.cache with entries := y.cache.entries.map fun e => (e.1, y.current e.1 e.2) }

def acquire (y : Yard) (key : CacheKey) (binding : Bindings) (w : Workspace) (produce : Producer ε) :
    Yard :=
  let acquired := y.live.acquire key binding w produce
  let h := acquired.workspace.heap
  let y := { y with cache := acquired.cache }
  match acquired.script with
  | .error _ => { y with heap := h }
  | .ok s =>
    let y := y.take h s (s.contents h)
    match acquired.route with
    | .founded => y.keep key s
    | _ => y

/-- A copy holds at first what the script would hold if it had been alone. -/
def clone (answer : Invocation → Except Failure Value) (y : Yard) (source : Member) (binding : Bindings)
    (execution : Option ExecutionId) : Yard :=
  let (h, s) := source.script.clone binding execution y.heap
  y.take h s ⟨binding, (source.lone answer).heap.locals source.twin.fields⟩

def play (answer : Invocation → Except Failure Value) (y : Yard) (i : Nat) (member : Member) (p : Play) :
    Yard :=
  let life := member.script.play answer ⟨y.heap, member.runs⟩ p
  { y with
    heap := life.heap
    members := y.members.set i { member with runs := life.runs, past := member.past ++ [p] } }

def act (answer : Invocation → Except Failure Value) (y : Yard) : YardAct ε → Yard
  | .acquire key binding files execution maker =>
    y.acquire key binding ⟨files, y.heap, execution⟩ maker.produce
  | .clone i binding execution =>
    match y.members[i]? with
    | some source => y.clone answer source binding execution
    | none => y
  | .play i p =>
    match y.members[i]? with
    | some member => y.play answer i member p
    | none => y
  | .evict key => { y with cache := (y.cache.evict key).1 }

def after (answer : Invocation → Except Failure Value) (y : Yard) (acts : List (YardAct ε)) : Yard :=
  acts.foldl (act answer) y

/-- Every member is like its lone twin, and no two of them have a scope in common. -/
structure Mirrors (answer : Invocation → Except Failure Value) (R : Nat → ScopeId → ScopeId → Prop)
    (y : Yard) : Prop where
  members : ∀ i member, y.members[i]? = some member →
    Life.Alike (R i) member.twin member.script (member.lone answer) ⟨y.heap, member.runs⟩
  apart : Apart y.members.length R

namespace Mirrors
variable {answer : Invocation → Except Failure Value} {R : Nat → ScopeId → ScopeId → Prop} {y : Yard}
variable {h : Heap} {s : Script}

theorem opening (h : Heap) (store : LibraryStore) : Mirrors answer R (opening h store) where
  members i member here := by simp [Yard.opening] at here
  apart i j a b x lt := by simp [Yard.opening] at lt

theorem larger (mirrors : Mirrors answer R y) (larger : y.heap.Extends h) (c : ScriptCache) :
    Mirrors answer R { y with heap := h, cache := c } where
  members i member here := by
    obtain ⟨program, matched, binding, fields, runs⟩ := mirrors.members i member here
    exact ⟨program, larger.matched matched, binding, fields, runs⟩
  apart := mirrors.apart

/-- A script over new scopes has none of those of the others. -/
theorem take (mirrors : Mirrors answer R y) (fresh : s.Fresh y.heap h) (holds : s.contents h = born) :
    ∃ R', Mirrors answer R' (y.take h s born) := by
  let newcomer : Member := ⟨s, born, [], []⟩
  have born_new : ∀ a x, Script.paired newcomer.twin s a x → y.heap.next ≤ x := by
    rintro a x (⟨-, rfl⟩ | ⟨-, rfl⟩)
    · exact fresh.new
    · exact fresh.fields_new
  have unknown : ∀ j < y.members.length, j ≠ y.members.length →
      ∀ a b x, Script.paired newcomer.twin s a x → R j b x → False := by
    intro j lt _ a b x pair other
    have old := (mirrors.members j _ (List.getElem?_eq_getElem lt)).matched.inside b x other
    exact Nat.not_le.2 old.2 (born_new a x pair)
  refine ⟨fun i => if i = y.members.length then Script.paired newcomer.twin s else R i, ?_, ?_⟩
  · intro i member here
    by_cases last : i = y.members.length
    · subst last
      obtain rfl : newcomer = member := by simpa [Yard.take] using here
      simp only [if_true]
      have same : newcomer.twin.contents (newcomer.lone answer).heap = s.contents h := by
        rw [holds]
        exact Script.contents_create
      exact ⟨rfl, Script.matched_paired Script.create_fresh.own fresh.own same, .inl ⟨rfl, rfl⟩,
        .inr ⟨rfl, rfl⟩, .nil⟩
    · have lt : i < y.members.length := by
        have := (List.getElem?_eq_some_iff.1 here).1
        simp [Yard.take] at this
        omega
      rw [Yard.take, List.getElem?_append_left lt] at here
      obtain ⟨program, matched, binding, fields, runs⟩ := mirrors.members i member here
      simp only [if_neg last]
      exact ⟨program, fresh.larger.matched matched, binding, fields, runs⟩
  · refine Apart.update mirrors.apart ?_ unknown
    intro i lt ne
    simp only [Yard.take, List.length_append, List.length_singleton] at lt
    omega

theorem play (mirrors : Mirrors answer R y) {i : Nat} (here : y.members[i]? = some member) (p : Play) :
    ∃ R', Mirrors answer R' (y.play answer i member p) := by
  unfold Yard.play
  obtain ⟨inside, _⟩ := List.getElem?_eq_some_iff.1 here
  obtain ⟨Rᵢ, alike, grows⟩ := (mirrors.members i member here).play (member.lone_fits answer) p
  have others : ∀ j < y.members.length, j ≠ i → ∀ a b x, R i a x → R j b x → False :=
    fun j lt ne a b x => mirrors.apart i j a b x inside lt (Ne.symm ne)
  have newcomers : ∀ j < y.members.length, j ≠ i → ∀ a b x, Rᵢ a x → R j b x → False := by
    intro j lt ne
    exact grows.apart (mirrors.members j _ (List.getElem?_eq_getElem lt)).matched (others j lt ne)
  refine ⟨fun j => if j = i then Rᵢ else R j, ?_, ?_⟩
  · intro j member' there
    by_cases same : j = i
    · subst same
      rw [List.getElem?_set_self inside] at there
      obtain rfl := Option.some.inj there
      simp only [if_true, Member.lone_play]
      exact alike
    · rw [List.getElem?_set_ne (Ne.symm same)] at there
      obtain ⟨lt, _⟩ := List.getElem?_eq_some_iff.1 there
      obtain ⟨program, matched, binding, fields, runs⟩ := mirrors.members j member' there
      simp only [if_neg same]
      refine ⟨program, grows.matched matched ?_, binding, fields, runs⟩
      exact fun a b x other pair => others j lt same b a x pair other
  · exact Apart.update mirrors.apart (fun j lt _ => by simpa using lt) newcomers

theorem clone (mirrors : Mirrors answer R y) (here : source ∈ y.members) (binding : Bindings)
    (execution : Option ExecutionId) :
    ∃ R', Mirrors answer R' (y.clone answer source binding execution) := by
  obtain ⟨i, here⟩ := List.getElem?_of_mem here
  have alike := mirrors.members i source here
  have made : (source.script.clone binding execution y.heap).2.contents
      (source.script.clone binding execution y.heap).1 = ⟨binding, y.heap.locals source.script.fields⟩ :=
    Script.contents_create
  rw [← alike.matched.locals _ _ alike.fields] at made
  exact mirrors.take Script.create_fresh made

theorem keep (mirrors : Mirrors answer R y) (key : CacheKey) (s : Script) :
    ∃ R', Mirrors answer R' (y.keep key s) := by
  obtain ⟨R', kept⟩ := mirrors.take (s := (s.clone [] none y.heap).2) Script.create_fresh rfl
  exact ⟨R', kept.members, kept.apart⟩

theorem acquire (mirrors : Mirrors answer R y) (maker : Maker ε) (w : Workspace) (same : w.heap = y.heap) :
    ∃ R', Mirrors answer R' (y.acquire key binding w maker.produce) := by
  have made : ∀ w' : Workspace, w'.heap = y.heap → ∀ s h, (maker.produce w').2 = .ok s →
      h = (maker.produce w').1.heap → s.Fresh y.heap h := by
    rintro w' same' s _ ok rfl
    exact same' ▸ maker.fresh w' s ok
  have handed : ∀ c h s, s.Fresh y.heap h →
      ∃ R', Mirrors answer R' (({ y with cache := c } : Yard).take h s (s.contents h)) :=
    fun c h s fresh => (mirrors.larger (.refl y.heap) c).take fresh rfl
  have spec := y.live.acquire_of key binding w maker.produce
  simp only [Yard.acquire]
  generalize y.live.acquire key binding w maker.produce = a at spec
  cases spec with
  | hit entry s found route script instantiated _ _ =>
    obtain ⟨heap, rfl⟩ := Prod.mk.inj instantiated
    have fresh : (entry.template.instantiate binding w.execution.id w.heap).2.Fresh y.heap a.workspace.heap := by
      rw [heap, ← same]
      exact Script.create_fresh
    simp only [script, route]
    exact handed a.cache _ _ fresh
  | founded entry s absent route ok script same' template stored =>
    have fresh := made w same s a.workspace.heap ok same'.heap
    obtain ⟨R', mirrors'⟩ := handed a.cache a.workspace.heap s fresh
    simp only [script, route]
    exact mirrors'.keep key s
  | uncached absent route script same' unchanged =>
    cases ok : (maker.produce w).2 with
    | error e =>
      simp only [script, ok]
      refine ⟨R, mirrors.larger ?_ a.cache⟩
      rw [same'.heap, ← same]
      exact maker.larger w
    | ok s =>
      simp only [script, ok, route]
      exact handed a.cache _ s (made w same s _ ok same'.heap)
  | fallback entry w' found same' route script worked removed =>
    have same_heap : w'.heap = y.heap := same'.heap.trans same
    cases ok : (maker.produce w').2 with
    | error e =>
      simp only [script, ok]
      refine ⟨R, mirrors.larger ?_ a.cache⟩
      rw [worked, ← same_heap]
      exact maker.larger w'
    | ok s =>
      simp only [script, ok, route]
      exact handed a.cache _ s (made w' same_heap s _ ok (by rw [worked]))

theorem act (mirrors : Mirrors answer R y) (a : YardAct ε) : ∃ R', Mirrors answer R' (y.act answer a) := by
  cases a with
  | acquire key binding files execution maker => exact mirrors.acquire maker _ rfl
  | clone i binding execution =>
    simp only [Yard.act]
    cases here : y.members[i]? with
    | none => exact ⟨R, mirrors⟩
    | some source => exact mirrors.clone (List.mem_of_getElem? here) binding execution
  | play i p =>
    simp only [Yard.act]
    cases here : y.members[i]? with
    | none => exact ⟨R, mirrors⟩
    | some member => exact mirrors.play here p
  | evict key => exact ⟨R, mirrors.larger (.refl _) _⟩

theorem after (mirrors : Mirrors answer R y) (acts : List (YardAct ε)) :
    ∃ R', Mirrors answer R' (y.after answer acts) := by
  induction acts generalizing y R with
  | nil => exact ⟨R, mirrors⟩
  | cons a acts ih =>
    obtain ⟨R', next⟩ := mirrors.act a
    exact ih next

end Mirrors

/-! ### What others do to a script -/

variable (answer : Invocation → Except Failure Value) {y : Yard} {member : Member} {key : CacheKey}
variable {entry : CacheEntry} {i : Nat}

theorem take_members (h : Heap) (s : Script) (born : Contents) (here : y.members[i]? = some member) :
    (y.take h s born).members[i]? = some member := by
  obtain ⟨inside, _⟩ := List.getElem?_eq_some_iff.1 here
  rw [take, List.getElem?_append_left inside]
  exact here

theorem keep_members (key : CacheKey) (s : Script) (here : y.members[i]? = some member) :
    (y.keep key s).members[i]? = some member :=
  take_members (s.clone [] none y.heap).1 (s.clone [] none y.heap).2 _ here

theorem acquire_members (binding : Bindings) (w : Workspace) (produce : Producer ε)
    (here : y.members[i]? = some member) : (y.acquire key binding w produce).members[i]? = some member := by
  simp only [acquire]
  split
  · exact here
  · split
    · exact keep_members _ _ (take_members _ _ _ here)
    · exact take_members _ _ _ here

/-- Members stay where they are, with their scripts, and those that are not played stay as they are. -/
theorem members_act (a : YardAct ε) (here : y.members[i]? = some member) :
    ∃ member', (y.act answer a).members[i]? = some member' ∧ member'.script = member.script ∧
      ((∀ p, a ≠ .play i p) → member' = member) := by
  cases a with
  | acquire key binding files execution maker =>
    exact ⟨member, acquire_members _ _ _ here, rfl, fun _ => rfl⟩
  | clone j binding execution =>
    refine ⟨member, ?_, rfl, fun _ => rfl⟩
    simp only [act]
    split
    · exact take_members _ _ _ here
    · exact here
  | play j p =>
    by_cases same : j = i
    · subst same
      obtain ⟨inside, _⟩ := List.getElem?_eq_some_iff.1 here
      simp only [act, here, play]
      exact ⟨_, List.getElem?_set_self inside, rfl, fun other => absurd rfl (other p)⟩
    · refine ⟨member, ?_, rfl, fun _ => rfl⟩
      simp only [act]
      split
      · rw [play, List.getElem?_set_ne same]
        exact here
      · exact here
  | evict key => exact ⟨member, here, rfl, fun _ => rfl⟩

theorem members_after (acts : List (YardAct ε)) (here : y.members[i]? = some member) :
    ∃ member', (y.after answer acts).members[i]? = some member' ∧ member'.script = member.script ∧
      ((∀ p, .play i p ∉ acts) → member' = member) := by
  induction acts generalizing y member with
  | nil => exact ⟨member, here, rfl, fun _ => rfl⟩
  | cons a acts ih =>
    obtain ⟨member₁, here₁, script₁, same₁⟩ := members_act answer a here
    obtain ⟨member', here', script', same'⟩ := ih here₁
    refine ⟨member', here', script'.trans script₁, fun others => ?_⟩
    rw [same' fun p played => others p (List.mem_cons_of_mem _ played)]
    exact same₁ fun p is => others p (is ▸ List.mem_cons_self)

variable {answer} in
/-- A script that nobody runs holds what it held, whatever is done with all others. -/
theorem Mirrors.unplayed {R : Nat → ScopeId → ScopeId → Prop} (mirrors : Mirrors answer R y)
    (here : y.members[i]? = some member) (acts : List (YardAct ε)) (others : ∀ p, .play i p ∉ acts) :
    (y.after answer acts).members[i]? = some member ∧
      member.script.contents (y.after answer acts).heap = member.script.contents y.heap := by
  obtain ⟨member', there, -, same⟩ := members_after answer acts here
  rw [same others] at there
  obtain ⟨R', later⟩ := mirrors.after acts
  exact ⟨there, (later.members i member there).contents.symm.trans (mirrors.members i member here).contents⟩

/-! ### Templates -/

theorem find?_live (y : Yard) (key : CacheKey) :
    y.live.find? key = (y.cache.find? key).map (y.current key) := by
  simp only [live, ScriptCache.find?]
  induction y.cache.entries with
  | nil => rfl
  | cons e entries ih =>
    obtain ⟨k, entry⟩ := e
    by_cases same : key = k
    · simp [same]
    · have other : (key == k) = false := by simpa using same
      simpa only [List.map_cons, List.lookup_cons, other] using ih

@[simp] theorem current_actions (y : Yard) (key : CacheKey) (entry : CacheEntry) :
    (y.current key entry).actions = entry.actions := by
  unfold current
  split <;> rfl

@[simp] theorem current_libraries (y : Yard) (key : CacheKey) (entry : CacheEntry) :
    (y.current key entry).libraries = entry.libraries := by
  unfold current
  split <;> rfl

/-- The script is kept for the entry of the key. -/
structure Shelved (y : Yard) (key : CacheKey) (i : Nat) (member : Member) : Prop where
  number : y.shelf.lookup key = some i
  here : y.members[i]? = some member

theorem Shelved.current (shelved : y.Shelved key i member) (entry : CacheEntry) :
    y.current key entry = entry.renew member.script y.heap := by
  simp only [Yard.current, shelved.number, Option.bind_some, shelved.here]

/-- What an act may do to the entry of a key. No call replaces it by another one. -/
inductive Fate (y y' : Yard) (key : CacheKey) : Prop where
  | absent : y'.cache.find? key = none → Fate y y' key
  | stays (entry entry' : CacheEntry) :
      y.cache.find? key = some entry → y'.cache.find? key = some entry' →
      entry'.actions = entry.actions → entry'.libraries = entry.libraries →
      y'.shelf.lookup key = y.shelf.lookup key → Fate y y' key
  | founded (i : Nat) (member : Member) :
      y.cache.find? key = none → y'.Shelved key i member → Fate y y' key

theorem Fate.of_same {y' : Yard} (cache : y'.cache.find? key = y.cache.find? key)
    (shelf : y'.shelf.lookup key = y.shelf.lookup key) : Fate y y' key := by
  cases found : y.cache.find? key with
  | none => exact .absent (cache.trans found)
  | some entry => exact .stays entry entry found (cache.trans found) rfl rfl shelf

theorem Fate.of_live {y' : Yard} (cache : y'.cache.find? key = y.live.find? key)
    (shelf : y'.shelf.lookup key = y.shelf.lookup key) : Fate y y' key := by
  rw [find?_live] at cache
  cases found : y.cache.find? key with
  | none => exact .absent (by rw [cache, found]; rfl)
  | some entry =>
    exact .stays entry (y.current key entry) found (by rw [cache, found]; rfl) (y.current_actions key entry)
      (y.current_libraries key entry) shelf

theorem fate_acquire (key other : CacheKey) (binding : Bindings) (w : Workspace) (produce : Producer ε) :
    Fate y (y.acquire other binding w produce) key := by
  have spec := y.live.acquire_of other binding w produce
  simp only [Yard.acquire]
  generalize y.live.acquire other binding w produce = a at spec
  cases spec with
  | hit entry s found route script _ _ unchanged =>
    simp only [script, route]
    exact .of_live (unchanged key) rfl
  | founded entry s absent route made script same template stored =>
    simp only [script, route]
    by_cases here : key = other
    · subst here
      rw [find?_live, Option.map_eq_none_iff] at absent
      exact .founded (y.members.length + 1) _ absent
        ⟨by simp [keep, take], by simp [keep, take]; rfl⟩
    · have elsewhere : (key == other) = false := by simpa using here
      exact .of_live ((stored key).trans (if_neg here)) (by simp [keep, take, List.lookup_cons, elsewhere])
  | uncached absent route script same unchanged =>
    simp only [route]
    split <;> exact .of_live (unchanged key) rfl
  | fallback entry w' found same route script worked removed =>
    simp only [route]
    by_cases here : key = other
    · split <;> exact .absent ((removed key).trans (if_pos here))
    · split <;> exact .of_live ((removed key).trans (if_neg here)) rfl

theorem fate_act (a : YardAct ε) (key : CacheKey) : Fate y (y.act answer a) key := by
  cases a with
  | acquire other binding files execution maker => exact fate_acquire key other _ _ _
  | clone j binding execution =>
    simp only [act]
    split <;> exact .of_same rfl rfl
  | play j p =>
    simp only [act]
    split <;> exact .of_same rfl rfl
  | evict other =>
    by_cases here : key = other
    · refine .absent ?_
      rw [act, ScriptCache.evict, ScriptCache.find?_remove, if_pos here]
    · refine .of_same ?_ rfl
      rw [act, ScriptCache.evict, ScriptCache.find?_remove, if_neg here]

/-- Each entry has a script that is kept for it. -/
def Stocked (y : Yard) : Prop :=
  ∀ key entry, y.cache.find? key = some entry → ∃ i member, y.Shelved key i member

theorem stocked_opening (h : Heap) (store : LibraryStore) : (opening h store).Stocked :=
  fun _ _ found => nomatch found

theorem Stocked.act (stocked : y.Stocked) (a : YardAct ε) : (y.act answer a).Stocked := by
  intro key entry found
  cases y.fate_act answer a key with
  | absent gone => exact nomatch gone.symm.trans found
  | founded i member _ shelved => exact ⟨i, member, shelved⟩
  | stays before _ found₀ _ _ _ shelf =>
    obtain ⟨i, member, shelved⟩ := stocked key before found₀
    obtain ⟨member', here, -, -⟩ := members_act answer a shelved.here
    exact ⟨i, member', shelf.trans shelved.number, here⟩

theorem Stocked.after (stocked : y.Stocked) (acts : List (YardAct ε)) : (y.after answer acts).Stocked := by
  induction acts generalizing y with
  | nil => exact stocked
  | cons a acts ih => exact ih (stocked.act answer a)

/-- As long as the entry of a key is there, the same script is kept for it, and nothing else of it changes. -/
theorem live_act (shelved : y.Shelved key i member) (found : y.live.find? key = some entry) (a : YardAct ε)
    (there : ((y.act answer a).live.find? key).isSome = true) :
    ∃ member', (y.act answer a).Shelved key i member' ∧ member'.script = member.script ∧
      (y.act answer a).live.find? key = some (entry.renew member.script (y.act answer a).heap) := by
  rw [find?_live, Option.map_eq_some_iff] at found
  obtain ⟨stored, found, rfl⟩ := found
  cases y.fate_act answer a key with
  | absent gone =>
    rw [find?_live, gone] at there
    cases there
  | founded _ _ none _ => exact nomatch none.symm.trans found
  | stays before after found₀ found' actions libraries shelf =>
    obtain rfl := Option.some.inj (found.symm.trans found₀)
    obtain ⟨member', here, script, -⟩ := members_act answer a shelved.here
    have shelved' : (y.act answer a).Shelved key i member' := ⟨shelf.trans shelved.number, here⟩
    refine ⟨member', shelved', script, ?_⟩
    rw [find?_live, found', Option.map_some, shelved'.current, script]
    simp only [CacheEntry.renew, actions, libraries, current_actions, current_libraries]

theorem live_after (shelved : y.Shelved key i member) (found : y.live.find? key = some entry)
    (acts : List (YardAct ε))
    (there : ∀ front, front <+: acts → ((y.after answer front).live.find? key).isSome = true) :
    ∃ member', (y.after answer acts).Shelved key i member' ∧ member'.script = member.script ∧
      (y.after answer acts).live.find? key = some (entry.renew member.script (y.after answer acts).heap) := by
  induction acts generalizing y member entry with
  | nil =>
    refine ⟨member, shelved, rfl, ?_⟩
    rw [find?_live, Option.map_eq_some_iff] at found
    obtain ⟨stored, found, rfl⟩ := found
    rw [show y.after answer [] = y from rfl, find?_live, found, Option.map_some, shelved.current]
    rfl
  | cons a acts ih =>
    obtain ⟨member₁, shelved₁, script₁, found₁⟩ := live_act answer shelved found a (there [a] (by simp))
    obtain ⟨member', shelved', script', found'⟩ := ih shelved₁ found₁ fun front inside =>
      there (a :: front) (List.cons_prefix_cons.2 ⟨rfl, inside⟩)
    refine ⟨member', shelved', script'.trans script₁, ?_⟩
    rw [script₁] at found'
    exact found'

end Yard

/-- Whatever is acquired from a cache, copied, evicted and run, and in whichever order, every script does
what it does alone: in a heap with its own scopes only, which hold at first what they held when the script was
made, and where nothing but the moves of its own runs is made, these runs stand at the same steps or have ended
with the same outcomes, and the scopes hold the same. A script that nobody runs stays as it is. For every entry a
script is kept, of which a hit is a copy, and as long as the entry is there its actions and libraries stay the
same, and its template too while nobody runs that script. -/
theorem scripts_are_isolated (answer : Invocation → Except Failure Value) (h : Heap) (store : LibraryStore)
    (acts : List (YardAct ε)) :
    let y := (Yard.opening h store).after answer acts
    (∀ member ∈ y.members, ∃ R,
      Life.Alike R member.twin member.script (member.lone answer) ⟨y.heap, member.runs⟩) ∧
    (∀ (i : Nat) member, y.members[i]? = some member →
      ∀ more : List (YardAct ε), (∀ p, .play i p ∉ more) →
      (y.after answer more).members[i]? = some member ∧
        member.script.contents (y.after answer more).heap = member.script.contents y.heap) ∧
    ∀ key entry, y.live.find? key = some entry → ∃ i member, y.Shelved key i member ∧
      (∀ binding execution, entry.template.instantiate binding execution y.heap =
        member.script.clone binding (some execution) y.heap) ∧
      ∀ more : List (YardAct ε),
        (∀ front, front <+: more → ((y.after answer front).live.find? key).isSome = true) →
        ∃ entry', (y.after answer more).live.find? key = some entry' ∧
          entry'.actions = entry.actions ∧ entry'.libraries = entry.libraries ∧
          (∃ member', (y.after answer more).Shelved key i member' ∧ member'.script = member.script) ∧
          ((∀ p, .play i p ∉ more) → entry' = entry) := by
  intro y
  have start : Yard.Mirrors answer (fun _ _ _ => False) (Yard.opening h store) := .opening h store
  obtain ⟨R, mirrors⟩ := start.after acts
  have stocked : y.Stocked := (Yard.stocked_opening h store).after answer acts
  refine ⟨?alone, fun i member here => mirrors.unplayed here, ?kept⟩
  case alone =>
    intro member here
    obtain ⟨i, here⟩ := List.getElem?_of_mem here
    exact ⟨R i, mirrors.members i member here⟩
  case kept =>
    intro key entry found
    have live := found
    rw [Yard.find?_live, Option.map_eq_some_iff] at found
    obtain ⟨stored, found, rfl⟩ := found
    obtain ⟨i, member, shelved⟩ := stocked key stored found
    refine ⟨i, member, shelved, fun binding execution => ?_, fun more there => ?_⟩
    · rw [shelved.current]
      rfl
    · obtain ⟨member', shelved', script, found'⟩ := Yard.live_after answer shelved live more there
      refine ⟨_, found', rfl, rfl, ⟨member', shelved', script⟩, fun others => ?_⟩
      obtain ⟨-, same⟩ := mirrors.unplayed shelved.here more others
      have fields := congrArg Contents.fields same
      rw [shelved.current]
      simp only [CacheEntry.renew, Template.ofScript]
      exact congrArg (fun held => (⟨⟨_, _, held⟩, _, _⟩ : CacheEntry)) fields

/-- The number that the first run of a member has completed with. -/
def Yard.completed? (y : Yard) (i : Nat) : Option Int64 := do
  let member ← y.members[i]?
  match member.runs.head? with
  | some (.ended outcome) => outcome.completed?.bind Value.int?
  | _ => none

/-- The number that a field of a member holds. -/
def Yard.field? (y : Yard) (i : Nat) (name : String) : Option Int64 := do
  let member ← y.members[i]?
  let v ← (y.heap.locals member.script.fields).find? name
  v.int?

/-- A copy begins with what its source holds when it is made, so that a run of the source before that shows in
it. The script that is kept for an entry is such a source for hits: a run of it changes its fields, and later hits
begin with these. -/
theorem earlier_runs_show_in_copies :
    let counter : Template :=
      ⟨"Counter", ⟨#[.readVariable "counter", .constant (.int 1), .binary .add 0 1, .assign "counter" 2,
        .readVariable "counter", .sequence [3, 4]], 5⟩, [("counter", .int 0)]⟩
    let hit : YardAct Unit :=
      .acquire ⟨.unrestricted, .ofText "one"⟩ [] .empty (.create 0 "job" ⟨"/r"⟩) (.ofTemplate counter [])
    let copy : YardAct Unit := .clone 0 [] none
    let run i : List (YardAct Unit) := [.play i .start, .play i (.slice 0 100)]
    let after (acts : List (YardAct Unit)) :=
      (Yard.opening .empty (.create ⟨"/s"⟩ fun _ => "d")).after (fun _ => .ok .null) acts
    ((after (hit :: copy :: run 2)).completed? 2 = some 1 ∧
      (after (hit :: run 0 ++ copy :: run 2)).completed? 2 = some 2) ∧
    ((after [hit]).field? 1 "counter" = some 0 ∧ (after (hit :: run 1)).field? 1 "counter" = some 1) ∧
    (after (hit :: hit :: run 2)).completed? 2 = some 1 ∧
      (after (hit :: run 1 ++ hit :: run 2)).completed? 2 = some 2 := by
  decide +kernel

end FlowScript
