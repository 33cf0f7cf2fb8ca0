import FlowScript.Proofs.Acquiring

/-! Calls of the cache with equal keys. Their scripts cannot be told apart if all producers for the key
agree and bind what the caller supplies: a script from the producer is handed out as it is. -/
namespace FlowScript

/-! ### What is seen of a script -/

/-- What a host sees of a run of the script: after each move how the run stands, its own state, and all
that it has been called for. -/
def Script.seen (s : Script) (host : Host σ) (w : World σ) (moves : List Move) :
    List (View × σ × List Invocation) :=
  (s.machine host).logged.history ⟨⟨w.heap, w.host, []⟩, .running s.start⟩ moves

theorem Script.seen_eq {s s' : Script} {h h' : Heap} (own : s.Own h) (own' : s'.Own h')
    (program : s.program = s'.program) (contents : s.contents h = s'.contents h') (host : Host σ) (u : σ)
    {moves : List Move} (play : ∀ mv ∈ moves, mv.plays = true) :
    s.seen host ⟨h, u⟩ moves = s'.seen host ⟨h', u⟩ moves := by
  have same : s'.machine host = s.machine host := by simp only [machine, program]
  have alike : Stage.Alike (paired s s') ⟨⟨h, u, []⟩, .running s.start⟩
      (⟨⟨h', u, []⟩, .running s'.start⟩ : Stage (σ × List Invocation)) := by
    refine ⟨matched_paired own own' contents, rfl, ?_⟩
    rw [start, start, program]
    exact .running (.eval (.inr ⟨rfl, rfl⟩) .nil)
  have fits : (Standing.running s.start).Fits (s.machine host).logged.program := s.start_fits
  unfold seen
  rw [same]
  exact alike.history_eq rfl fits play

/-! ### Histories of a cache -/

/-- What may happen to a cache. Each call may find any files, scopes and executions. -/
inductive CacheAct (ε : Type) where
  | acquire (key : CacheKey) (binding : Bindings) (w : Workspace) (produce : Producer ε)
  | evict (key : CacheKey)
  | clear
  | leases (store : LibraryStore)

namespace ScriptCache

def act (c : ScriptCache) : CacheAct ε → ScriptCache
  | .acquire key binding w produce => (c.acquire key binding w produce).cache
  | .evict key => (c.evict key).1
  | .clear => c.clear
  | .leases store => { c with store }

def after (c : ScriptCache) (acts : List (CacheAct ε)) : ScriptCache := acts.foldl act c

/-- The entry of the key, if there is one, has the template. -/
def Agrees (c : ScriptCache) (key : CacheKey) (t : Template) : Prop :=
  c.Each fun k t' => k = key → t' = t

end ScriptCache

/-- All scripts that the producer returns are made as the template says. -/
def Template.MadeBy (t : Template) (produce : Producer ε) : Prop :=
  ∀ w s, (produce w).2 = .ok s → Template.ofScript s (produce w).1.heap = t

/-- Scripts that are produced for the key are made as the template says. -/
def CacheAct.Agrees (key : CacheKey) (t : Template) : CacheAct ε → Prop
  | .acquire other _ _ produce => other = key → t.MadeBy produce
  | _ => True

/-- The maker returns a script that is made as the template says, and has this in its root scope. -/
def Maker.Makes (maker : Maker ε) (t : Template) (binding : Bindings) : Prop :=
  ∀ w, ∃ s, (maker.produce w).2 = .ok s ∧ Template.ofScript s (maker.produce w).1.heap = t ∧
    (maker.produce w).1.heap.locals s.binding = binding

/-- The script is made as the template says, and has this in its root scope. -/
structure Script.Is (s : Script) (h : Heap) (t : Template) (binding : Bindings) : Prop where
  own : s.Own h
  name : s.name = t.name
  program : s.program = t.program
  contents : s.contents h = ⟨binding, t.fields⟩

namespace ScriptCache
variable {c : ScriptCache} {key : CacheKey} {t : Template} {binding : Bindings} {w : Workspace}

theorem Agrees.acquire (agrees : c.Agrees key t) (made : other = key → t.MadeBy produce) :
    (c.acquire other binding w produce).cache.Agrees key t :=
  Each.acquire agrees fun s ok same => made same w s ok

theorem Agrees.act (agrees : c.Agrees key t) (a : CacheAct ε) (made : a.Agrees key t) :
    (c.act a).Agrees key t := by
  cases a with
  | acquire other binding w produce => exact agrees.acquire made
  | evict other => exact Each.evict agrees other
  | clear => exact fun _ _ found => nomatch found
  | leases store => exact agrees

theorem Agrees.after (agrees : c.Agrees key t) {acts : List (CacheAct ε)}
    (made : ∀ a ∈ acts, a.Agrees key t) : (c.after acts).Agrees key t := by
  induction acts generalizing c with
  | nil => exact agrees
  | cons a acts ih =>
    obtain ⟨first, others⟩ := List.forall_mem_cons.1 made
    exact ih (agrees.act a first) others

/-- However a call comes by its script, the script is the one that the producer would make. -/
theorem Agrees.acquired (agrees : c.Agrees key t) {maker : Maker ε} (makes : maker.Makes t binding)
    (w : Workspace) : ∃ s, (c.acquire key binding w maker.produce).script = .ok s ∧
      s.Is (c.acquire key binding w maker.produce).workspace.heap t binding := by
  have made : ∀ w' : Workspace, ∃ s, (maker.produce w').2 = .ok s ∧
      s.Is (maker.produce w').1.heap t binding := by
    intro w'
    obtain ⟨s, ok, template, root⟩ := makes w'
    subst template
    exact ⟨s, ok, (maker.fresh w' s ok).own, rfl, rfl, by rw [← root]; rfl⟩
  have spec := c.acquire_of key binding w maker.produce
  generalize c.acquire key binding w maker.produce = a at spec
  cases spec with
  | hit entry s found route script instantiated _ _ =>
    obtain ⟨heap, rfl⟩ := Prod.mk.inj instantiated
    obtain rfl := agrees key entry found rfl
    refine ⟨_, script, ?_, rfl, rfl, ?_⟩
    · rw [heap]
      exact Script.create_fresh.own
    · rw [heap]
      exact Script.contents_create
  | founded entry s absent route ok script same _ _ =>
    obtain ⟨s', ok', is⟩ := made w
    obtain rfl := Except.ok.inj (ok.symm.trans ok')
    exact ⟨s, script, same.heap ▸ is⟩
  | uncached absent route script same _ =>
    obtain ⟨s, ok, is⟩ := made w
    exact ⟨s, script.trans ok, same.heap ▸ is⟩
  | fallback entry w' found same route script worked _ =>
    obtain ⟨s, ok, is⟩ := made w'
    exact ⟨s, script.trans ok, worked ▸ is⟩

end ScriptCache

/-! ### Two calls with equal keys -/

/-- A script over fresh scopes that is bound to no execution. -/
def Template.make (t : Template) (binding : Bindings) (h : Heap) : Heap × Script :=
  Script.create t.name t.program binding t.fields none h

theorem Template.make_fresh (t : Template) (binding : Bindings) (h : Heap) :
    (t.make binding h).2.Fresh h (t.make binding h).1 := Script.create_fresh

/-- Makes a script as the template says, and does nothing else. -/
def Maker.ofTemplate (t : Template) (binding : Bindings) : Maker ε where
  produce w := ({ w with heap := (t.make binding w.heap).1 }, .ok (t.make binding w.heap).2)
  larger w := (t.make_fresh binding w.heap).larger
  fresh w s ok := by
    obtain rfl := Except.ok.inj ok
    exact t.make_fresh binding w.heap

theorem Maker.ofTemplate_makes (t : Template) (binding : Bindings) :
    (ofTemplate t binding : Maker ε).Makes t binding := by
  intro w
  have contents : (t.make binding w.heap).2.contents (t.make binding w.heap).1 = ⟨binding, t.fields⟩ :=
    Script.contents_create
  exact ⟨(t.make binding w.heap).2, rfl, Template.ofScript_create .., congrArg Contents.binding contents⟩

theorem Template.madeBy_of_makes {maker : Maker ε} (makes : maker.Makes t binding) : t.MadeBy maker.produce := by
  intro w s ok
  obtain ⟨s', ok', template, _⟩ := makes w
  obtain rfl := Except.ok.inj (ok.symm.trans ok')
  exact template

/-- How the script of a call ends that is run at once. -/
def Acquired.outcome? (a : Acquired ε) (host : Host σ) (u : σ) : Option Outcome :=
  a.script.toOption.map fun s => (s.run host ⟨a.workspace.heap, u⟩).2

end FlowScript
