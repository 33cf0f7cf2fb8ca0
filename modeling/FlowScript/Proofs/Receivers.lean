import FlowScript.HostDesk
import FlowScript.Proofs.Confinement
import FlowScript.Proofs.Mediation

/-! Where the receivers of calls come from. A call has the null receiver if its block names none, and
otherwise what the receiver of its block has delivered. The functions of the host are the methods of null,
so they answer calls of both kinds. -/
namespace FlowScript

/-! ### The origin of a receiver -/

/-- Frames without the numbers of their scopes, which change when a run is restored. -/
abbrev Shape := List (ResumePoint × Captured)

def Continuation.shape (k : Continuation) : Shape := k.map fun f => (f.point, f.captured)

/-- The step is still above the frames. -/
def Step.Inside (below : Shape) (s : Step) : Prop := below.length < s.rest.length

/-- Among the steps, a call block of the method is evaluated over the frames, and its receiver is known
since: null if the block names none, and otherwise the value that has come to the frame behind the block of
the receiver. All steps since the evaluation of the call block are above the frames, so they belong to it. -/
inductive Received (p : Program) (steps : List Step) (method : String) (args : List BlockId)
    (below : Shape) : Option BlockId → Value → Prop where
  | script {b : BlockId} {e : ScopeId} {k : Continuation} (before since : List Step) :
      p.block? b = some (.call none method args) → k.shape = below →
      steps = before ++ .eval b e k :: since → (∀ s ∈ since, s.Inside below) →
      Received p steps method args below none .null
  | delivered {b r : BlockId} {e e' : ScopeId} {k k' : Continuation} {v : Value}
      (before waiting since : List Step) :
      p.block? b = some (.call (some r) method args) → k.shape = below → k'.shape = below →
      steps = before ++ .eval b e k :: .evalFor r e .callReceiver (.call method args none []) k ::
        (waiting ++ .resume (.value v) (⟨.callReceiver, e', .call method args none []⟩ :: k') :: since) →
      (∀ s ∈ waiting ++ since, s.Inside below) →
      Received p steps method args below (some r) v

/-- A frame over others and how it has come there: a call waits for its receiver or for an argument. -/
inductive Awaits (p : Program) (steps : List Step) : ResumePoint × Captured → Shape → Prop where
  | receiver {b r : BlockId} {method : String} {args : List BlockId} {e : ScopeId} {k : Continuation}
      (before since : List Step) :
      p.block? b = some (.call (some r) method args) → k.shape = below →
      steps = before ++ .eval b e k ::
        .evalFor r e .callReceiver (.call method args none []) k :: since →
      (∀ s ∈ since, s.Inside below) →
      Awaits p steps (.callReceiver, .call method args none []) below
  | argument : Received p steps method args below receiver v →
      Awaits p steps (.callArgument, .call method args (some v) evaluated) below
  | other : captured.Confined (fun _ => False) True → Awaits p steps (point, captured) below

/-- All frames have come there in the steps. -/
def Traced (p : Program) (steps : List Step) : Shape → Prop
  | [] => True
  | f :: below => Awaits p steps f below ∧ Traced p steps below

/-- After the steps before it, the step calls a method only on a receiver of known origin. -/
structure Accounted (p : Program) (before : List Step) (s : Step) : Prop where
  frames : Traced p (before ++ [s]) s.rest.shape
  call : ∀ receiver method values k, s = .invoke (.methodCall receiver method values) k →
    ∃ origin args, Received p before method args k.shape origin receiver

variable {p : Program} {steps before : List Step} {s : Step} {k : Continuation}

@[simp] theorem Continuation.length_shape (k : Continuation) : k.shape.length = k.length := by
  simp [shape]

@[simp] theorem Continuation.shape_append (top k : Continuation) :
    shape (top ++ k) = top.shape ++ k.shape := by simp [shape]

theorem Received.snoc (received : Received p steps method args below origin v) (inside : s.Inside below) :
    Received p (steps ++ [s]) method args below origin v := by
  cases received with
  | @script b e k before since block here run later =>
    have longer : steps ++ [s] = before ++ .eval b e k :: (since ++ [s]) := by simp [run]
    refine .script before (since ++ [s]) block here longer ?_
    exact List.forall_mem_append.2 ⟨later, List.forall_mem_singleton.2 inside⟩
  | @delivered b r e e' k k' _ before waiting since block here here' run later =>
    have longer : steps ++ [s] = before ++ .eval b e k ::
        .evalFor r e .callReceiver (.call method args none []) k ::
        (waiting ++ .resume (.value v) (⟨.callReceiver, e', .call method args none []⟩ :: k') ::
          (since ++ [s])) := by simp [run]
    refine .delivered before waiting (since ++ [s]) block here here' longer ?_
    rw [← List.append_assoc, List.forall_mem_append]
    exact ⟨later, List.forall_mem_singleton.2 inside⟩

theorem Awaits.snoc (awaits : Awaits p steps f below) (inside : s.Inside below) :
    Awaits p (steps ++ [s]) f below := by
  cases awaits with
  | @receiver _ b r method args e k before since block here run later =>
    have longer : steps ++ [s] = before ++ .eval b e k ::
        .evalFor r e .callReceiver (.call method args none []) k :: (since ++ [s]) := by simp [run]
    refine .receiver before (since ++ [s]) block here longer ?_
    exact List.forall_mem_append.2 ⟨later, List.forall_mem_singleton.2 inside⟩
  | argument received => exact .argument (received.snoc inside)
  | other confined => exact .other confined

theorem Traced.snoc {below : Shape} (traced : Traced p steps below) (high : below.length ≤ s.rest.length) :
    Traced p (steps ++ [s]) below := by
  induction below with
  | nil => trivial
  | cons f below ih =>
    have inside : below.length < s.rest.length := high
    exact ⟨traced.1.snoc inside, ih traced.2 (Nat.le_of_lt inside)⟩

theorem Traced.append {top : Continuation} (confined : top.Confined (fun _ => False) True)
    (traced : Traced p steps below) : Traced p steps (top.shape ++ below) := by
  induction top with
  | nil => exact traced
  | cons f top ih =>
    obtain ⟨first, others⟩ := List.forall_mem_cons.1 confined
    exact ⟨.other first, ih others⟩

theorem Step.Confined.rest {s : Step} (confined : s.Confined methods requests) :
    s.rest.Confined methods requests := by
  cases confined with
  | eval frames | resume frames | invoke _ frames | yield _ frames => exact frames

/-- A step that brings up no calls has nothing to account for but the frames that it stands on. -/
theorem Accounted.of_confined {s : Step} (traced : Traced p steps k.shape)
    (confined : s.Confined (fun _ => False) True) : Accounted p steps (s.onto k) where
  frames := by
    rw [Step.rest_onto, Continuation.shape_append]
    exact Traced.append confined.rest (traced.snoc (by simp))
  call := by
    intro receiver method values k' is
    cases confined with
    | invoke none =>
      obtain ⟨rfl, _⟩ := Step.invoke.inj is
      exact none.elim
    | eval | resume | yield => exact nomatch is

/-- A call whose receiver is known goes on to its next argument, or is made. -/
theorem Accounted.of_received (received : Received p steps method args k.shape origin v)
    (traced : Traced p steps k.shape) :
    Accounted p steps (.nextArgument method args v evaluated e k) := by
  unfold Step.nextArgument
  split
  · refine ⟨traced.snoc (by simp [Step.rest]), ?_⟩
    rintro receiver method values k' is
    obtain ⟨same, rfl⟩ := Step.invoke.inj is
    obtain ⟨rfl, rfl, -⟩ := Invocation.methodCall.inj same
    exact ⟨_, _, received⟩
  · next arg _ =>
    refine ⟨⟨.argument (received.snoc ?_), traced.snoc ?_⟩, nofun⟩
    · simp [Step.Inside, Step.evalFor, Step.rest]
    · simp [Step.evalFor, Step.rest]

/-! ### Steps -/

/-- The value that has come to the frame of a receiver is the receiver. -/
theorem Received.of_resumed {f : Frame} {since : List Step}
    (block : p.block? b = some (.call (some r) method args)) (here : k₀.shape = k.shape)
    (run : before ++ [.resume (.value v) (f :: k)] = first ++ .eval b e k₀ ::
      .evalFor r e .callReceiver (.call method args none []) k₀ :: since)
    (later : ∀ s ∈ since, s.Inside k.shape)
    (frame : f = ⟨.callReceiver, e', .call method args none []⟩) :
    Received p (before ++ [.resume (.value v) (f :: k)]) method args k.shape (some r) v := by
  subst frame
  rcases List.eq_nil_or_concat since with rfl | ⟨waiting, last, rfl⟩
  · have ends := congrArg List.getLast? run
    simp [Step.evalFor] at ends
  · rw [List.concat_eq_append] at run later
    have ends := run.trans (List.append_assoc first
      (.eval b e k₀ :: .evalFor r e .callReceiver (.call method args none []) k₀ :: waiting) [last]).symm
    obtain rfl := List.singleton_inj.1 (List.append_inj' ends rfl).2
    refine .delivered first waiting [] block here rfl run ?_
    simpa using (List.forall_mem_append.1 later).1

namespace Machine
variable {σ : Type} {m : Machine σ} {w w' : World σ}

theorem evaluate_accounted (traced : Traced p (before ++ [.eval b e k]) k.shape) (h : Heap) :
    Accounted p (before ++ [.eval b e k]) (p.evaluate h b e k).2 := by
  unfold Program.evaluate
  cases found : p.block? b with
  | none => exact .of_confined (s := .thrown _ []) traced Step.confined_thrown
  | some block =>
    -- Only call blocks bring up calls, so only they are looked at one by one.
    by_cases confined : block.Confined (fun _ => False) True
    · have stacked : block.evaluate h e k = _ := block.evaluate_append (k := [])
      change Accounted _ _ (block.evaluate h e k).2
      rw [stacked]
      exact .of_confined traced (Block.confined_evaluate confined h e)
    · cases block with
      | call receiver method args =>
        cases receiver with
        | none => exact .of_received (.script before [] found rfl rfl nofun) traced
        | some r =>
          have run : before ++ [.eval b e k] ++ [.evalFor r e .callReceiver (.call method args none []) k] =
              before ++ .eval b e k :: .evalFor r e .callReceiver (.call method args none []) k :: [] :=
            List.append_assoc ..
          change Accounted _ _ (.evalFor r e .callReceiver (.call method args none []) k)
          refine ⟨⟨.receiver before [] found rfl run nofun, traced.snoc ?_⟩, nofun⟩
          simp [Step.evalFor, Step.rest]
      | _ => exact absurd trivial confined

theorem resume_accounted {f : Frame}
    (traced : Traced p (before ++ [.resume signal (f :: k)]) (Continuation.shape (f :: k)))
    (resumed : f.resume signal k = .ok go) (h : Heap) :
    Accounted p (before ++ [.resume signal (f :: k)]) (go h).2 := by
  obtain ⟨awaits, below⟩ := traced
  obtain ⟨point, e, captured⟩ := f
  cases awaits with
  | receiver first since block here run later =>
    obtain rfl := Except.ok.inj resumed
    cases signal with
    | value v => exact .of_received (.of_resumed block here run later rfl) below
    | thrown failure => exact .of_confined (s := .thrown _ []) below Step.confined_thrown
  | argument received =>
    obtain rfl := Except.ok.inj resumed
    cases signal with
    | value v => exact .of_received received below
    | thrown failure => exact .of_confined (s := .thrown _ []) below Step.confined_thrown
  | other confined =>
    have stacked : Frame.resume ⟨point, e, captured⟩ signal k = _ := Frame.resume_append (k := []) _ signal
    cases alone : Frame.resume ⟨point, e, captured⟩ signal [] with
    | error problem => simp [stacked, alone, Except.map] at resumed
    | ok go' =>
      rw [stacked, alone] at resumed
      obtain rfl := Except.ok.inj resumed
      exact .of_confined below (Frame.confined_resume confined alone h)

theorem Leads.accounted (leads : m.Leads w s w' s') (accounted : Accounted m.program before s) :
    Accounted m.program (before ++ [s]) s' := by
  have traced := accounted.frames
  cases leads with
  | eval => exact evaluate_accounted traced w.heap
  | passed => exact .of_confined (s := .resume _ []) traced.2 (.resume Continuation.confined_nil)
  | resumed resumed => exact resume_accounted traced resumed w.heap
  | @invoked call k =>
    have stacked : Frame.ofResult (m.host call w.host).1 k = _ := Frame.ofResult_append (k := [])
    rw [stacked]
    exact .of_confined traced Frame.confined_ofResult

end Machine

/-! ### Runs -/

/-- Every one of the further steps is accounted for after those before it. -/
def Walk (p : Program) : List Step → List Step → Prop
  | _, [] => True
  | before, s :: steps => Accounted p before s ∧ Walk p (before ++ [s]) steps

theorem Walk.append (first : Walk p before steps) (second : Walk p (before ++ steps) others) :
    Walk p before (steps ++ others) := by
  induction steps generalizing before with
  | nil => simpa using second
  | cons s steps ih => exact ⟨first.1, ih first.2 (by simpa using second)⟩

theorem Walk.accounted (walk : Walk p before (steps ++ s :: others)) : Accounted p (before ++ steps) s := by
  induction steps generalizing before with
  | nil => simpa using walk.1
  | cons s₁ steps ih => simpa using ih walk.2

/-- Where a run stands that has taken the steps. -/
def Standing.Traced (p : Program) (taken : List Step) : Standing → Prop
  | .running s => Accounted p taken s
  | .parked x => FlowScript.Traced p taken x.k.shape
  | .ended _ => True

namespace Machine
variable {σ : Type} {m : Machine σ}

theorem path_walks (n : Nat) {w : World σ} (accounted : Accounted m.program before s) :
    Walk m.program before ((m.path n w s).map Prod.snd) ∧
      (Standing.ofOutcome (m.run n w s).2).Traced m.program
        (before ++ (m.path n w s).map Prod.snd) := by
  induction n generalizing before w s with
  | zero =>
    simp only [Machine.run, path]
    split
    · exact ⟨trivial, trivial⟩
    · exact ⟨trivial, (List.append_nil before).symm ▸ accounted⟩
  | succ n ih =>
    cases cancelled : m.isCancelled w.host with
    | true =>
      rw [run_cancelled cancelled, path_cancelled cancelled]
      exact ⟨trivial, trivial⟩
    | false =>
      rcases step : m.step w s with ⟨w₁, s₁ | outcome⟩
      · rw [run_next cancelled step, path_next cancelled step]
        obtain ⟨walk, stands⟩ := ih ((leads_of_step step).accounted accounted)
        exact ⟨⟨accounted, walk⟩, by simpa using stands⟩
      · rw [run_ended cancelled step, path_ended cancelled step]
        refine ⟨⟨accounted, trivial⟩, ?_⟩
        rcases step_ended step with ⟨x, rfl, rfl, rfl⟩ | ⟨v, rfl, _⟩ | ⟨f, rfl, _⟩
        · exact accounted.frames
        · trivial
        · trivial

theorem move_walks {st : Stage σ} (stands : st.standing.Traced m.program before) (mv : Move) :
    Walk m.program before ((m.stretch st mv).map Prod.snd) ∧
      (m.move st mv).standing.Traced m.program (before ++ (m.stretch st mv).map Prod.snd) := by
  obtain ⟨w, standing⟩ := st
  match mv, standing with
  | .slice budget, .running s => exact path_walks budget stands
  | .answer signal, .parked x =>
    have resumed : Accounted m.program before (.resume signal x.k) :=
      ⟨Traced.snoc stands (Nat.le_of_eq x.k.length_shape), nofun⟩
    exact ⟨trivial, (List.append_nil before).symm ▸ resumed⟩
  | .persist into, .parked x =>
    -- Restoring gives the scopes other numbers, which a shape leaves out.
    have parked : Traced m.program before x.k.shape := stands
    have restored : Traced m.program before
        (Continuation.shape (x.k.map ((Recorded.ofSuspension w.heap x).relocate into.next))) := by
      simpa [Continuation.shape, Recorded.relocate, Function.comp_def] using parked
    simp only [move, stretch, Snapshot.restore_capture]
    exact ⟨trivial, (List.append_nil before).symm ▸ restored⟩
  | .slice _, .parked _ | .slice _, .ended _ | .answer _, .running _ | .answer _, .ended _
  | .persist _, .running _ | .persist _, .ended _ =>
    exact ⟨trivial, (List.append_nil before).symm ▸ stands⟩

theorem journey_walks {st : Stage σ} (stands : st.standing.Traced m.program before) (moves : List Move) :
    Walk m.program before ((m.journey st moves).map Prod.snd) := by
  induction moves generalizing before st with
  | nil => trivial
  | cons mv moves ih =>
    obtain ⟨walk, stands⟩ := move_walks stands mv
    rw [journey, List.map_append]
    exact walk.append (ih stands)

/-- Every call of a method in a run is part of the evaluation of a call block, with the null receiver if the
block names none, and otherwise with what the receiver of the block has delivered. -/
theorem journey_received {w : World σ} {taken : List (World σ × Step)}
    (run : m.journey (m.opening w e) moves =
      taken ++ (w', .invoke (.methodCall receiver method values) k) :: others) :
    ∃ origin args, Received m.program (taken.map Prod.snd) method args k.shape origin receiver := by
  have stands : (m.opening w e).standing.Traced m.program [] := ⟨trivial, nofun⟩
  have walk := journey_walks stands moves
  rw [run, List.map_append, List.map_cons] at walk
  exact walk.accounted.call _ _ _ _ rfl

end Machine

/-! ### Host functions -/

namespace Invocation

theorem receiverType_cases (call : Invocation) :
    (∃ method args, call = .methodCall .null method args ∧ call.receiverType = scriptType) ∨
      call.receiverType = call.receiver.typeName := by
  cases call with
  | methodCall receiver method args =>
    cases receiver with
    | null => exact .inl ⟨method, args, rfl, rfl⟩
    | _ => exact .inr rfl
  | _ => exact .inr rfl

/-- What goes by the name of the script is a call on null, and no other receiver gives such a name. -/
theorem signature_eq_script {call : Invocation} {name : String} :
    call.signature = scriptType ++ "." ++ name ↔ ∃ args, call = .methodCall .null name args := by
  constructor
  · intro same
    rcases call.receiverType_cases with ⟨method, args, rfl, _⟩ | plain
    · have named : method = name := by
        simpa [signature, receiverType, member, scriptType] using same
      exact ⟨args, named ▸ rfl⟩
    · have starts := congrArg (fun text => text.toList.take 2) same
      rw [signature, plain] at starts
      cases receiver : call.receiver <;> simp [receiver, Value.typeName, scriptType] at starts
  · rintro ⟨args, rfl⟩
    rfl

end Invocation

/-- A layer around an invoker. -/
inductive Cover (σ : Type) where
  | sandbox (policy : Policy)
  | logging (internalTypes : List String) (record : String → σ → σ)

namespace Invoker
variable {σ : Type}

/-- The invoker under layers, the outermost first. -/
def under (inner : Invoker σ) (covers : List (Cover σ)) : Invoker σ :=
  covers.foldr
    (fun cover inner =>
      match cover with
      | .sandbox policy => inner.sandboxed policy
      | .logging internalTypes record => inner.logged internalTypes record)
    inner

theorem under_sandbox (inner : Invoker σ) (policy : Policy) (covers : List (Cover σ)) :
    inner.under (.sandbox policy :: covers) = (inner.under covers).sandboxed policy := rfl

theorem under_logging (inner : Invoker σ) (internalTypes : List String) (record : String → σ → σ)
    (covers : List (Cover σ)) :
    inner.under (.logging internalTypes record :: covers) =
      (inner.under covers).logged internalTypes record := rfl

/-- The function keeps its name and what it is called with. -/
def HostFunction.noted (name : String) (f : HostFunction σ) :
    HostFunction (σ × List (String × List Value)) :=
  fun args (u, heard) => ((f args u).1, (f args u).2, heard ++ [(name, args)])

/-- All functions keep what they are called with, in one list. -/
def notedFunctions (functions : Entries (HostFunction σ)) :
    Entries (HostFunction (σ × List (String × List Value))) :=
  functions.map fun (name, f) => (name, f.noted name)

theorem find?_notedFunctions (functions : Entries (HostFunction σ)) (name : String) :
    (notedFunctions functions).find? name = (functions.find? name).map (·.noted name) := by
  induction functions with
  | nil => rfl
  | cons entry rest ih =>
    simp only [notedFunctions, List.map_cons, Entries.find?] at ih ⊢
    split
    · next same => rw [same]; rfl
    · exact ih

end Invoker

namespace Cover
variable {σ τ : Type}

/-- The layer over a host that keeps something more. -/
def beside : Cover σ → Cover (σ × τ)
  | .sandbox policy => .sandbox policy
  | .logging internalTypes record => .logging internalTypes fun signature u => (record signature u.1, u.2)

/-- The layer lets the call through. -/
def passes : Cover σ → Invocation → Bool
  | .sandbox policy, call => policy.permits call
  | .logging .., _ => true

end Cover

/-- The function of the host that the call comes to through the layers, with its arguments. -/
def Invocation.function? (functions : Entries (Invoker.HostFunction σ)) (covers : List (Cover σ))
    (call : Invocation) : Option (String × List Value) :=
  match call with
  | .methodCall .null method args =>
    if covers.all (·.passes call) && functions.binds method then some (method, args) else none
  | _ => none

theorem Invocation.function?_cons (functions : Entries (Invoker.HostFunction σ)) (cover : Cover σ)
    (covers : List (Cover σ)) (call : Invocation) :
    call.function? functions (cover :: covers) =
      if cover.passes call then call.function? functions covers else none := by
  cases passes : cover.passes call with
  | true => simp [function?, passes]
  | false =>
    cases call with
    | methodCall receiver method args => cases receiver <;> simp [function?, passes]
    | _ => rfl

namespace Invoker
variable {σ : Type} {functions : Entries (HostFunction σ)}

/-- Functions that keep what they are called with answer as they do otherwise, and keep the calls that come
to them through the layers. -/
theorem under_noted (covers : List (Cover σ)) (call : Invocation) (u : σ)
    (heard : List (String × List Value)) :
    (((builtin (notedFunctions functions)).under (covers.map .beside)).invoke call (u, heard)) =
      ((((builtin functions).under covers).invoke call u).1,
        (((builtin functions).under covers).invoke call u).2,
        heard ++ (call.function? functions covers).toList) := by
  induction covers generalizing u with
  | nil =>
    cases call with
    | methodCall receiver method args =>
      cases receiver with
      | null =>
        simp only [under, List.map_nil, List.foldr_nil, builtin, ofMembers, find?_notedFunctions,
          Invocation.function?, List.all_nil, Bool.true_and, Entries.binds]
        cases functions.find? method <;> simp [HostFunction.noted]
      | _ => simp [under, builtin, ofMembers, Invocation.function?]
    | _ => simp [under, builtin, ofMembers, Invocation.function?]
  | cons cover covers ih =>
    cases cover with
    | sandbox policy =>
      rw [List.map_cons, Cover.beside, under_sandbox, under_sandbox, Invocation.function?_cons, Cover.passes]
      by_cases permitted : policy.permits call = true
      · rw [sandboxed_permitted permitted, sandboxed_permitted permitted, ih, if_pos permitted]
      · have refused := Bool.eq_false_iff.2 permitted
        rw [sandboxed_refused refused, sandboxed_refused refused, if_neg permitted]
        simp
    | logging internalTypes record =>
      rw [List.map_cons, Cover.beside, under_logging, under_logging, Invocation.function?_cons, Cover.passes,
        if_pos rfl]
      simp only [logged]
      split <;> exact ih _

end Invoker

/-- The machine that runs the program over functions of the host under layers. -/
def Program.hosted (p : Program) (functions : Entries (Invoker.HostFunction σ)) (covers : List (Cover σ))
    (isCancelled : σ → Bool) : Machine σ :=
  ⟨p, .standard, ((Invoker.builtin functions).under covers).invoke, isCancelled⟩

theorem Invocation.null_of_function? {call : Invocation} {functions : Entries (Invoker.HostFunction σ)}
    (reaches : call.function? functions covers ≠ none) :
    ∃ method values, call = .methodCall .null method values := by
  cases call with
  | methodCall receiver method values =>
    cases receiver with
    | null => exact ⟨method, values, rfl⟩
    | _ => exact absurd rfl reaches
  | _ => exact absurd rfl reaches

theorem Program.hosted_noted (p : Program) (functions : Entries (Invoker.HostFunction σ))
    (covers : List (Cover σ)) (isCancelled : σ → Bool) :
    Machine.Akin (fun u v => u.1 = v)
      (p.hosted (Invoker.notedFunctions functions) (covers.map .beside) fun u => isCancelled u.1)
      (p.hosted functions covers isCancelled) where
  program := rfl
  table := rfl
  answer := by
    rintro ⟨u, heard⟩ v call rfl
    exact congrArg Prod.fst (Invoker.under_noted covers call u heard)
  stays := by
    rintro ⟨u, heard⟩ v call rfl
    exact congrArg (·.2.1) (Invoker.under_noted covers call u heard)
  cancels := by
    rintro ⟨u, heard⟩ v rfl
    rfl

/-- The functions of the host are reached through null, however the null has come about. For all programs,
functions, layers and moves of the host, the functions are called for the calls on null that all sandboxes
let through, once each and in their order, and for no others; only these calls go by the name of the script.
Every call is part of the evaluation of a call block. Its receiver is null if the block names none, and
otherwise what the receiver of the block has delivered, which may be null as well. -/
theorem host_functions_answer_null (p : Program) (functions : Entries (Invoker.HostFunction σ))
    (covers : List (Cover σ)) (isCancelled : σ → Bool) (w : World σ) (e : ScopeId) (moves : List Move) :
    let m := p.hosted functions covers isCancelled
    let n := p.hosted (Invoker.notedFunctions functions) (covers.map .beside) fun u => isCancelled u.1
    let noted := n.after (n.opening ⟨w.heap, w.host, []⟩ e) moves
    let run := m.journey (m.opening w e) moves
    (noted.Akin (fun u v => u.1 = v) (m.after (m.opening w e) moves) ∧
        noted.world.host.2 = (calls run).filterMap (·.function? functions covers)) ∧
      ∀ taken w' call k others, run = taken ++ (w', .invoke call k) :: others →
        ((call.function? functions covers ≠ none ∨
              ∃ name, call.signature = Invocation.scriptType ++ "." ++ name) →
            ∃ method values, call = .methodCall .null method values) ∧
          ∀ receiver method values, call = .methodCall receiver method values →
            ∃ origin args, Received p (taken.map Prod.snd) method args k.shape origin receiver := by
  intro m n noted run
  obtain ⟨stages, steps⟩ := (p.hosted_noted functions covers isCancelled).after
    (a := n.opening ⟨w.heap, w.host, []⟩ e) (b := m.opening w e) ⟨⟨rfl, rfl⟩, rfl⟩ moves
  refine ⟨⟨stages, ?heard⟩, fun taken w' call k others here => ⟨?null, ?origin⟩⟩
  case heard =>
    have log : noted.world.host.2 = [] ++ _ :=
      n.after_log Prod.snd (fun call u => congrArg (·.2.2) (Invoker.under_noted covers call u.1 u.2))
        (n.opening ⟨w.heap, w.host, []⟩ e) moves
    rw [log, Machine.calls_eq_of_akin steps, List.nil_append, List.filterMap_eq_flatMap_toList]
  case null =>
    rintro (reaches | ⟨name, named⟩)
    · exact Invocation.null_of_function? reaches
    · obtain ⟨values, is⟩ := Invocation.signature_eq_script.1 named
      exact ⟨name, values, is⟩
  case origin =>
    rintro receiver method values rfl
    exact Machine.journey_received here

/-- No block of the program calls without a receiver, and yet a function of the host is called and the call
is recorded as one of the script's: the receiver has delivered null. -/
theorem call_on_null_reaches_host :
    let p : Program := ⟨#[.constant .null, .call (some 0) "hello" []], 1⟩
    let functions : Entries (Invoker.HostFunction (List String)) :=
      [("hello", fun _ log => (.ok (.str "hi"), log))]
    let covers : List (Cover (List String)) := [.logging ["Script"] fun signature log => log ++ [signature]]
    let n := p.hosted (Invoker.notedFunctions functions) (covers.map .beside) fun _ => false
    let noted := n.after (n.opening ⟨Heap.empty.addScope none [], [], []⟩ 0) [.slice 9]
    p.validate = .ok () ∧ (∀ b method args, p.block? b ≠ some (.call none method args)) ∧
      noted.standing = .ended (.completed (.str "hi")) ∧
      noted.world.host = (["Script.hello"], [("hello", [])]) := by
  refine ⟨rfl, ?_, rfl, rfl⟩
  rintro (_ | _ | b) method args found
  · exact nomatch found
  · exact nomatch found
  · exact nomatch found

end FlowScript
