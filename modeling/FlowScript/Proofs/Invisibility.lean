import FlowScript.CommandLine
import FlowScript.Proofs.Acquiring
import FlowScript.Proofs.Journey

/-! Whether scripts are loaded through the cache is not seen in what a command line does with them. Runtimes
with caching and without it have the same scripts, runs and counts of calls after any history, namely those
that compiling the source at each call would give. They differ in their files and in the notes of their
executions only. -/
namespace FlowScript

/-! ### Hosts that overlook a part of their state -/

/-- What the function changes in the state of the host has no part in the answers, and stays as it is. -/
def Host.Overlooks (f : σ → σ) (host : Host σ) : Prop :=
  ∀ call u, host call (f u) = ((host call u).1, f (host call u).2)

def World.map (f : σ → σ) (w : World σ) : World σ := ⟨w.heap, f w.host⟩

def Stage.map (f : σ → σ) (st : Stage σ) : Stage σ := ⟨st.world.map f, st.standing⟩

namespace Machine
variable {σ : Type} {m : Machine σ} {f : σ → σ}

/-- The machine is akin to itself over what its host overlooks. -/
theorem akin_of_overlooks (overlooks : Host.Overlooks f m.host)
    (cancels : ∀ u, m.isCancelled (f u) = m.isCancelled u) : Akin (fun u v => u = f v) m m where
  program := rfl
  table := rfl
  answer := by
    rintro _ v call rfl
    rw [overlooks call v]
  stays := by
    rintro _ v call rfl
    rw [overlooks call v]
  cancels := by
    rintro _ v rfl
    exact cancels v

theorem move_map (overlooks : Host.Overlooks f m.host)
    (cancels : ∀ u, m.isCancelled (f u) = m.isCancelled u) (st : Stage σ) (mv : Move) :
    m.move (st.map f) mv = (m.move st mv).map f := by
  obtain ⟨⟨heap, host⟩, standing⟩ :=
    ((akin_of_overlooks overlooks cancels).move (a := st.map f) (b := st) ⟨⟨rfl, rfl⟩, rfl⟩ mv).1
  simp only [Stage.map, World.map, ← heap, ← host, ← standing]

end Machine

namespace Invoker
variable {σ : Type} {f : σ → σ} {inner : Invoker σ}

theorem builtin_overlooks (f : σ → σ) : Host.Overlooks f (builtin [] : Invoker σ).invoke := by
  intro call u
  cases call with
  | methodCall receiver => cases receiver <;> rfl
  | getProperty | setProperty | getAttribute | setAttribute => rfl

/-- A layer that records calls overlooks what its record and the host below do not look at. -/
theorem logged_overlooks (types : List String) {record : String → σ → σ}
    (records : ∀ signature u, record signature (f u) = f (record signature u))
    (below : Host.Overlooks f inner.invoke) : Host.Overlooks f (inner.logged types record).invoke := by
  intro call u
  simp only [logged, records]
  split <;> exact below call _

theorem sandboxed_overlooks (policy : Policy) (below : Host.Overlooks f inner.invoke) :
    Host.Overlooks f (inner.sandboxed policy).invoke := by
  intro call u
  simp only [sandboxed]
  split
  · exact below call u
  · rfl

end Invoker

/-- Scripts on the command line see nothing of what loading adds to the record of a run. -/
theorem CommandLine.invoker_overlooks (d : FlowDefinition) (policy : Policy) :
    Host.Overlooks Execution.bare (invoker d policy).invoke := by
  have records : ∀ signature e,
      Execution.recordCall signature (Execution.bare e) = (Execution.recordCall signature e).bare :=
    fun _ _ => rfl
  have recording := Invoker.logged_overlooks Invoker.defaultInternalTypes records
    (Invoker.builtin_overlooks Execution.bare)
  unfold invoker
  split
  · exact Invoker.sandboxed_overlooks policy recording
  · exact recording

/-! ### What a runtime is used for -/

/-- A call for the script of an execution: what has been returned, with what its scopes held. -/
structure LoadCall where
  execution : Nat
  result : Except CompileError (Script × Contents)

/-- A run of a script that has been loaded for an execution. -/
structure CommandRun where
  execution : Nat
  script : Script
  definition : FlowDefinition
  policy : Policy
  standing : Standing

def CommandRun.machine (r : CommandRun) : Machine Execution :=
  r.script.machine (CommandLine.invoker r.definition r.policy).invoke

/-- The executions, the calls for their scripts and the runs of these, in the order in which they came. -/
structure Ledger where
  heap : Heap
  executions : List Execution
  loads : List LoadCall
  runs : List CommandRun

/-- What may happen. The command line runs a script in one slice of `Machine.stepLimit` steps. Files may be
changed by others at any time, also those of the library store. -/
inductive RuntimeAct where
  | enter (execution : Execution)
  | load (key : CacheKey) (execution : Nat)
  | start (load : Nat) (definition : FlowDefinition) (policy : Policy)
  | slice (run budget : Nat)
  | answer (run : Nat) (signal : Signal)
  | sweep
  | evict (key : CacheKey)
  | tamper (change : FileTree → FileTree)

/-- Compiles the source as a script of the execution. -/
def CodeSource.compile (source : CodeSource) (execution : ExecutionId) (h : Heap) :
    Heap × Except CompileError Script :=
  match Script.compile source.name source.text h with
  | .error e => (h, .error e)
  | .ok (h, s) => (h, .ok (s.bind execution))

namespace Ledger

/-- Without the notes of the executions. -/
def bare (l : Ledger) : Ledger := { l with executions := l.executions.map Execution.bare }

/-- Enters what a call for the script of an execution has returned, with the scopes behind it. -/
def returned (l : Ledger) (i : Nat) (e : Execution) (h : Heap) (script : Except CompileError Script) :
    Ledger :=
  { l with
    heap := h
    executions := l.executions.set i e
    loads := l.loads ++ [⟨i, script.map fun s => (s, s.contents h)⟩] }

def start (l : Ledger) (i : Nat) (definition : FlowDefinition) (policy : Policy) : Ledger :=
  match l.loads[i]? with
  | some ⟨execution, .ok (script, _)⟩ =>
    { l with runs := l.runs ++ [⟨execution, script, definition, policy, .running script.start⟩] }
  | _ => l

def move (l : Ledger) (i : Nat) (mv : Move) : Ledger :=
  match l.runs[i]? with
  | none => l
  | some run =>
    match l.executions[run.execution]? with
    | none => l
    | some e =>
      let st := run.machine.move ⟨⟨l.heap, e⟩, run.standing⟩ mv
      { l with
        heap := st.world.heap
        executions := l.executions.set run.execution st.world.host
        runs := l.runs.set i { run with standing := st.standing } }

/-- What happens where there is no cache and no file: each call compiles the source. -/
def act (l : Ledger) : RuntimeAct → Ledger
  | .enter e => { l with executions := l.executions ++ [e] }
  | .load key i =>
    match l.executions[i]? with
    | none => l
    | some e =>
      let (h, script) := key.source.compile e.id l.heap
      l.returned i e h script
  | .start i definition policy => l.start i definition policy
  | .slice i budget => l.move i (.slice budget)
  | .answer i signal => l.move i (.answer signal)
  | .sweep | .evict _ | .tamper _ => l

def after (l : Ledger) (acts : List RuntimeAct) : Ledger := acts.foldl act l

@[simp] theorem bare_bare (l : Ledger) : l.bare.bare = l.bare := by
  simp only [bare, List.map_map]
  rfl

theorem bare_executions_getElem? (l : Ledger) (i : Nat) :
    l.bare.executions[i]? = l.executions[i]?.map Execution.bare := List.getElem?_map

theorem bare_returned (l : Ledger) (i : Nat) (e : Execution) (h : Heap)
    (script : Except CompileError Script) :
    (l.returned i e h script).bare = l.bare.returned i e.bare h script := by
  simp only [bare, returned, List.map_set]

theorem bare_start (l : Ledger) (i : Nat) (definition : FlowDefinition) (policy : Policy) :
    (l.start i definition policy).bare = l.bare.start i definition policy := by
  have loads : l.bare.loads = l.loads := rfl
  unfold start
  rw [loads]
  rcases l.loads[i]? with _ | ⟨execution, e | script⟩ <;> rfl

theorem bare_move (l : Ledger) (i : Nat) (mv : Move) :
    (l.move i mv).bare = l.bare.move i mv := by
  have runs : l.bare.runs = l.runs := rfl
  unfold move
  rw [runs]
  cases l.runs[i]? with
  | none => rfl
  | some run =>
    simp only [bare_executions_getElem?]
    cases l.executions[run.execution]? with
    | none => rfl
    | some e =>
      -- The record of the run is the state of its host, which overlooks the notes.
      have overlooks := CommandLine.invoker_overlooks run.definition run.policy
      have moved := run.machine.move_map overlooks (fun _ => rfl) ⟨⟨l.heap, e⟩, run.standing⟩ mv
      simp only [Stage.map, World.map] at moved
      simp only [Option.map_some, bare, moved, List.map_set]

/-- The notes of the executions have no part in what happens. -/
theorem bare_act (l : Ledger) (a : RuntimeAct) : (l.act a).bare = (l.bare.act a).bare := by
  cases a with
  | enter e =>
    simp only [act, bare, List.map_append, List.map_map]
    rfl
  | load key i =>
    simp only [act, bare_executions_getElem?]
    cases l.executions[i]? with
    | none => exact l.bare_bare.symm
    | some e =>
      simp only [Option.map_some, bare_returned, bare_bare]
      rfl
  | start i definition policy => simp only [act, bare_start, bare_bare]
  | slice i budget => rw [act, act, bare_move, bare_move l.bare, bare_bare]
  | answer i signal => rw [act, act, bare_move, bare_move l.bare, bare_bare]
  | sweep | evict | tamper => exact l.bare_bare.symm

theorem act_of_bare {l l' : Ledger} (same : l.bare = l'.bare) {a : RuntimeAct} :
    (l.act a).bare = (l'.act a).bare := by
  rw [bare_act l, same, ← bare_act l']

end Ledger

/-! ### Loading scripts -/

section
variable {source : CodeSource} {execution : ExecutionId} {h : Heap} {p : Program}

theorem CodeSource.compile_of_error (refused : Program.compile source.text = .error e) :
    source.compile execution h = (h, .error e) := by
  simp only [compile, Script.compile, refused, Except.map]

/-- A source gives what the template gives that has its program and no fields. -/
theorem CodeSource.compile_of_ok (ok : Program.compile source.text = .ok p) :
    source.compile execution h =
      let (h, s) := (⟨source.name, p, []⟩ : Template).instantiate [] execution h
      (h, .ok s) := by
  simp only [compile, Script.compile, ok, Except.map]
  rfl

theorem CommandLine.compile_eq (source : CodeSource) (w : Workspace) :
    CommandLine.compile source w =
      ({ w with heap := (source.compile w.execution.id w.heap).1 },
        (source.compile w.execution.id w.heap).2) := by
  unfold CommandLine.compile CodeSource.compile
  cases Script.compile source.name source.text w.heap <;> rfl

end

/-- Each entry holds what its source gives when it is compiled. -/
def ScriptCache.Compiled (c : ScriptCache) : Prop :=
  c.Each fun key t => ∃ p, Program.compile key.source.text = .ok p ∧ t = ⟨key.source.name, p, []⟩

/-- The call leaves the scopes and the script that compiling the source gives. -/
structure LoadsAfresh (source : CodeSource) (w w' : Workspace) (script : Except CompileError Script) :
    Prop where
  compiled : (w'.heap, script) = source.compile w.execution.id w.heap
  bare : w'.execution.bare = w.execution.bare

/-- It does not matter what has been done with the files and the notes before and after compiling. -/
theorem LoadsAfresh.of_compile (before : w.Same w₁) (after : (CommandLine.compile source w₁).1.Same w₂) :
    LoadsAfresh source w w₂ (CommandLine.compile source w₁).2 := by
  rw [CommandLine.compile_eq] at after ⊢
  refine ⟨?_, after.bare.trans before.bare⟩
  rw [after.heap, Execution.id_eq before.bare, before.heap]

namespace ScriptCache
variable {c : ScriptCache} {key : CacheKey} {w : Workspace}

/-- The template of a script that has been compiled just now. -/
theorem template_of_compile (ok : (CommandLine.compile source w).2 = .ok s) :
    ∃ p, Program.compile source.text = .ok p ∧
      Template.ofScript s (CommandLine.compile source w).1.heap = ⟨source.name, p, []⟩ := by
  rw [CommandLine.compile_eq] at ok ⊢
  cases compiled : Program.compile source.text with
  | error e =>
    rw [CodeSource.compile_of_error compiled] at ok
    exact nomatch ok
  | ok p =>
    rw [CodeSource.compile_of_ok compiled] at ok ⊢
    obtain rfl := Except.ok.inj ok
    exact ⟨p, rfl, Template.ofScript_create ..⟩

theorem Compiled.acquire_afresh (sound : c.Compiled) (key : CacheKey) (w : Workspace) :
    let a := c.acquire key [] w (CommandLine.compile key.source)
    LoadsAfresh key.source w a.workspace a.script := by
  intro a
  have spec := c.acquire_of key [] w (CommandLine.compile key.source)
  cases spec with
  | hit entry s found route script instantiated bare unchanged =>
    -- The entry was made by an earlier call, and scripts may have run since; its template is what it was.
    obtain ⟨p, ok, template⟩ := sound key entry found
    refine ⟨?_, bare⟩
    rw [script, CodeSource.compile_of_ok ok, ← template, ← instantiated]
  | founded entry s absent route ok script same template stored =>
    rw [script, ← ok]
    exact .of_compile (.refl w) same
  | uncached absent route script same unchanged =>
    rw [script]
    exact .of_compile (.refl w) same
  | fallback entry w' found same route script worked removed =>
    rw [script, worked]
    exact .of_compile same (.refl _)

end ScriptCache

/-- With caching or without it, a call gives what compiling gives. -/
theorem ScriptLoader.load_afresh (l : ScriptLoader) (sound : l.cache.Compiled) (key : CacheKey)
    (w : Workspace) :
    let loaded := l.load key [] w (CommandLine.compile key.source)
    LoadsAfresh key.source w loaded.2.1 loaded.2.2.2 ∧ loaded.1.cache.Compiled := by
  simp only [load]
  split
  · exact ⟨sound.acquire_afresh key w, sound.acquire fun s => ScriptCache.template_of_compile⟩
  · exact ⟨.of_compile (.refl w) (.refl _), sound⟩

/-! ### Runtimes -/

/-- A loader over some files, with what it has been used for. -/
structure Runtime where
  loader : ScriptLoader
  files : FileTree
  ledger : Ledger

namespace Runtime

def create (config : CacheConfig) (ids : Nat → String) (files : FileTree) : Runtime :=
  ⟨.create config ids, files, ⟨.empty, [], [], []⟩⟩

/-- Loads a script as the command line does. -/
def load (r : Runtime) (key : CacheKey) (i : Nat) : Runtime :=
  match r.ledger.executions[i]? with
  | none => r
  | some e =>
    let (loader, w, _, script) :=
      r.loader.load key [] ⟨r.files, r.ledger.heap, e⟩ (CommandLine.compile key.source)
    ⟨loader, w.files, r.ledger.returned i w.execution w.heap script⟩

/-- Where caching is disabled there is no entry to evict. -/
def act (r : Runtime) : RuntimeAct → Runtime
  | .load key i => r.load key i
  | .sweep => { r with files := (r.loader.sweep r.files).1 }
  | .evict key =>
    if r.loader.config.enabled then
      { r with loader := { r.loader with cache := (r.loader.cache.evict key).1 } }
    else r
  | .tamper change => { r with files := change r.files }
  | a => { r with ledger := r.ledger.act a }

def after (r : Runtime) (acts : List RuntimeAct) : Runtime := acts.foldl act r

/-- The ledger, but for notes, is the one that the history leaves where there is no cache. -/
structure Follows (r : Runtime) (l : Ledger) : Prop where
  ledger : r.ledger.bare = l.bare
  sound : r.loader.cache.Compiled

namespace Follows
variable {r : Runtime} {l : Ledger}

theorem create (config : CacheConfig) (ids : Nat → String) (files : FileTree) :
    (create config ids files).Follows ⟨.empty, [], [], []⟩ :=
  ⟨rfl, ScriptCache.each_create _⟩

theorem load (follows : r.Follows l) (key : CacheKey) (i : Nat) :
    (r.load key i).Follows (l.act (.load key i)) := by
  -- It is enough to compare the call with compiling on the ledger of the runtime itself.
  have plain := Ledger.act_of_bare follows.ledger (a := .load key i)
  unfold Runtime.load
  simp only [Ledger.act] at plain ⊢
  cases here : r.ledger.executions[i]? with
  | none =>
    rw [here] at plain
    exact ⟨plain, follows.sound⟩
  | some e =>
    obtain ⟨⟨compiled, bare⟩, sound⟩ := r.loader.load_afresh follows.sound key ⟨r.files, r.ledger.heap, e⟩
    refine ⟨?_, sound⟩
    rw [← plain, here]
    simp only [← compiled, Ledger.bare_returned, bare]

theorem act (follows : r.Follows l) (a : RuntimeAct) : (r.act a).Follows (l.act a) := by
  cases a with
  | load key i => exact follows.load key i
  | sweep => exact ⟨follows.ledger, follows.sound⟩
  | tamper change => exact ⟨follows.ledger, follows.sound⟩
  | evict key =>
    simp only [Runtime.act]
    split
    · exact ⟨follows.ledger, follows.sound.evict key⟩
    · exact follows
  | enter | start | slice | answer =>
    exact ⟨Ledger.act_of_bare follows.ledger, follows.sound⟩

theorem after (follows : r.Follows l) (acts : List RuntimeAct) : (r.after acts).Follows (l.after acts) := by
  induction acts generalizing r l with
  | nil => exact follows
  | cons a acts ih => exact ih (follows.act a)

end Follows
end Runtime

/-- The cache is not seen in what is executed. After any history of calls for scripts, over any sources,
policies and executions, with runs of the scripts in between, sweeps, evictions and changes to the files
by others, a runtime with caching and one without have answered the same to each call for a script: the
same error, or the same script, bound to the same execution, with the same in its scopes. All runs stand
the same, all scopes hold the same, and each execution has counted the same internal calls. -/
theorem cache_is_invisible (config : CacheConfig) (ids : Nat → String) (files : FileTree)
    (acts : List RuntimeAct) :
    let cached := ((Runtime.create { config with enabled := true } ids files).after acts).ledger
    let plain := ((Runtime.create { config with enabled := false } ids files).after acts).ledger
    cached.loads = plain.loads ∧ cached.runs = plain.runs ∧ cached.heap = plain.heap ∧
      cached.executions.map Execution.bare = plain.executions.map Execution.bare := by
  intro cached plain
  have same : cached.bare = plain.bare :=
    ((Runtime.Follows.create _ ids files).after acts).ledger.trans
      ((Runtime.Follows.create _ ids files).after acts).ledger.symm
  obtain ⟨heap, executions, loads, runs⟩ := Ledger.mk.inj same
  exact ⟨loads, runs, heap, executions⟩

end FlowScript
