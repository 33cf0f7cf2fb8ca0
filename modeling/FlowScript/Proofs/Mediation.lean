import FlowScript.Invoker
import FlowScript.Proofs.Journey
import FlowScript.Proofs.Locality

/-! A sandbox stands between a script and its host. What the policy permits reaches the host, all of it and
nothing else; what it does not permit goes on as a failure of the script. -/
namespace FlowScript

namespace Policy

/-- The machine that runs the program in a sandbox. -/
def machine (policy : Policy) (p : Program) (inner : Invoker σ) (isCancelled : σ → Bool) : Machine σ :=
  ⟨p, .standard, (inner.sandboxed policy).invoke, isCancelled⟩

end Policy

namespace Invoker
variable {σ τ : Type} {policy : Policy} {inner : Invoker σ} {call : Invocation}

/-- Keeps a list of what the invoker is asked, through whichever entrance, and passes all of it on. -/
def noted (inner : Invoker σ) : Invoker (σ × List Invocation) :=
  let note (call : Invocation) (reply : Reply σ) : Reply (σ × List Invocation) := fun (u, asked) =>
    let (answer, u) := reply u
    (answer, u, asked ++ [call])
  { methodCall := fun receiver method args =>
      note (.methodCall receiver method args) (inner.methodCall receiver method args)
    getProperty := fun receiver name => note (.getProperty receiver name) (inner.getProperty receiver name)
    setProperty := fun receiver name value =>
      note (.setProperty receiver name value) (inner.setProperty receiver name value)
    getAttribute := fun receiver name =>
      note (.getAttribute receiver name) (inner.getAttribute receiver name)
    setAttribute := fun receiver name value =>
      note (.setAttribute receiver name value) (inner.setAttribute receiver name value)
    invoke := fun call => note call (inner.invoke call) }

/-- Two invokers give related answers to what the policy permits; nothing is said of all else. -/
def AgreeOn (policy : Policy) (R : σ → τ → Prop) (inner : Invoker σ) (other : Invoker τ) : Prop :=
  ∀ call u v, policy.permits call = true → R u v →
    (inner.invoke call u).1 = (other.invoke call v).1 ∧ R (inner.invoke call u).2 (other.invoke call v).2

theorem sandboxed_permitted (permitted : policy.permits call = true) (u : σ) :
    (inner.sandboxed policy).invoke call u = inner.invoke call u := by
  simp [sandboxed, permitted]

theorem sandboxed_refused (refused : policy.permits call = false) (u : σ) :
    (inner.sandboxed policy).invoke call u = (.error (Policy.rejection call), u) := by
  simp [sandboxed, refused]

/-- In a sandbox, invokers that agree on what is permitted agree. -/
theorem AgreeOn.akin {R : σ → τ → Prop} {other : Invoker τ} (agree : AgreeOn policy R inner other)
    {isCancelled : σ → Bool} {isCancelled' : τ → Bool} (p : Program)
    (cancels : ∀ u v, R u v → isCancelled u = isCancelled' v) :
    Machine.Akin R (policy.machine p inner isCancelled) (policy.machine p other isCancelled') where
  program := rfl
  table := rfl
  answer := by
    intro u v call related
    simp only [Policy.machine]
    cases permitted : policy.permits call with
    | true => simp only [sandboxed_permitted permitted, (agree call u v permitted related).1]
    | false => simp only [sandboxed_refused permitted]
  stays := by
    intro u v call related
    simp only [Policy.machine]
    cases permitted : policy.permits call with
    | true => simpa only [sandboxed_permitted permitted] using (agree call u v permitted related).2
    | false => simpa only [sandboxed_refused permitted] using related
  cancels := cancels _ _

theorem noted_agreeOn (policy : Policy) (inner : Invoker σ) :
    AgreeOn policy (fun u v => u.1 = v) inner.noted inner := by
  rintro call ⟨u, asked⟩ v - rfl
  exact ⟨rfl, rfl⟩

theorem sandboxed_noted (call : Invocation) (u : σ × List Invocation) :
    ((inner.noted.sandboxed policy).invoke call u).2.2 = u.2 ++ [call].filter policy.permits := by
  cases permitted : policy.permits call with
  | true => simp [sandboxed_permitted permitted, noted, permitted]
  | false => simp [sandboxed_refused permitted, permitted]

end Invoker

/-! ### The way of a failure -/

/-- The frame lets the failure go on to the frames below it at once. -/
inductive Frame.Passes (failure : Failure) : Frame → Prop where
  | unseen : f.point.intercepts = false → Passes failure f
  | uncaught : clauses.find? (·.catches failure) = none →
      Passes failure ⟨.guarded, e, .guarded clauses none⟩
  | handler : Passes failure ⟨.handler, e, .handler none⟩
  | cleanup : Passes failure ⟨.cleanup, e, .cleanup pending⟩

namespace Machine
variable {σ : Type} {m : Machine σ} {failure : Failure}

/-- The failure comes from one continuation to another below it. Where a `try` that does not catch it has a
cleanup, that has to come to its end first, with a value. -/
inductive Rises (m : Machine σ) (failure : Failure) :
    Store σ → Continuation → Store σ → Continuation → Prop where
  | here : Rises m failure st k st k
  | passed : Frame.Passes failure f → Rises m failure st k st' base → Rises m failure st (f :: k) st' base
  | uncaught : clauses.find? (·.catches failure) = none →
      m.Delivers (⟨.cleanup, e, .cleanup (.thrown failure)⟩ :: k)
        ⟨st, .evalFor block e .cleanup (.cleanup (.thrown failure)) k⟩ (.value v) st₁ →
      Rises m failure st₁ k st' base →
      Rises m failure st (⟨.guarded, e, .guarded clauses (some block)⟩ :: k) st' base
  | handler :
      m.Delivers (⟨.cleanup, e, .cleanup (.thrown failure)⟩ :: k)
        ⟨st, .evalFor block e .cleanup (.cleanup (.thrown failure)) k⟩ (.value v) st₁ →
      Rises m failure st₁ k st' base →
      Rises m failure st (⟨.handler, e, .handler (some block)⟩ :: k) st' base

theorem advance_next {w w' : World σ} {s s' : Step} (answers : List Signal)
    (step : m.step w s = (w', .next s')) :
    m.advance ⟨⟨w, answers⟩, s⟩ = some ⟨⟨w', answers⟩, s'⟩ := by
  simp [advance, step]

theorem step_uncaught (standard : m.table = .standard) (uncaught : clauses.find? (·.catches failure) = none)
    (w : World σ) (k : Continuation) :
    m.step w (.resume (.thrown failure) (⟨.guarded, e, .guarded clauses cleanup⟩ :: k)) =
      (w, .next (Frame.leave cleanup (.thrown failure) e k)) := by
  rw [step_resumed standard (fun _ => rfl) rfl]
  simp only [Frame.catchFailure, uncaught]

theorem step_handler (standard : m.table = .standard) (w : World σ) (k : Continuation) :
    m.step w (.resume (.thrown failure) (⟨.handler, e, .handler cleanup⟩ :: k)) =
      (w, .next (Frame.leave cleanup (.thrown failure) e k)) := by
  have resumed : Frame.resume ⟨.handler, e, .handler cleanup⟩ (.thrown failure) k =
    .ok fun h => (h, Frame.leave cleanup (.thrown failure) e k) := rfl
  exact step_resumed standard (fun _ => rfl) resumed

theorem step_passes (standard : m.table = .standard) (passes : Frame.Passes failure f) (w : World σ)
    (k : Continuation) :
    m.step w (.resume (.thrown failure) (f :: k)) = (w, .next (.resume (.thrown failure) k)) := by
  cases passes with
  | unseen unseen =>
    simp [Machine.step, standard, Table.deliver, Table.standard_contains, unseen, Signal.isThrown, turn]
  | uncaught uncaught => exact step_uncaught standard uncaught w k
  | handler => exact step_handler standard w k
  | @cleanup e s =>
    have resumed : Frame.resume ⟨.cleanup, e, .cleanup s⟩ (.thrown failure) k =
      .ok fun h => (h, .resume (.thrown failure) k) := rfl
    exact step_resumed standard (fun _ => rfl) resumed

/-- After a cleanup that has come to a value the pending failure goes on. -/
theorem drives_cleaned (standard : m.table = .standard)
    (delivers : m.Delivers (⟨.cleanup, e, .cleanup (.thrown failure)⟩ :: k)
      ⟨st, .evalFor block e .cleanup (.cleanup (.thrown failure)) k⟩ (.value v) st₁)
    (first : m.step st.world (.resume (.thrown failure) (f :: k)) =
      (st.world, .next (Frame.leave (some block) (.thrown failure) e k))) :
    ∃ n, m.Drives (fun _ => True) n ⟨st, .resume (.thrown failure) (f :: k)⟩
      ⟨st₁, .resume (.thrown failure) k⟩ := by
  obtain ⟨n, run⟩ := delivers
  have last : m.step st₁.world (.resume (.value v) (⟨.cleanup, e, .cleanup (.thrown failure)⟩ :: k)) =
      (st₁.world, .next (.resume (.thrown failure) k)) := by
    have resumed : Frame.resume ⟨.cleanup, e, .cleanup (.thrown failure)⟩ (.value v) k =
      .ok fun h => (h, .resume (.thrown failure) k) := rfl
    exact step_resumed standard (fun _ => rfl) resumed
  have run := (run.imp fun _ _ => trivial).trans (.more trivial (advance_next _ last) .done)
  exact ⟨_, .more trivial (advance_next _ first) run⟩

theorem Rises.drives (standard : m.table = .standard) (rises : m.Rises failure st k st' base) :
    ∃ n, m.Drives (fun _ => True) n ⟨st, .resume (.thrown failure) k⟩
      ⟨st', .resume (.thrown failure) base⟩ := by
  induction rises with
  | here => exact ⟨0, .done⟩
  | @passed f st k st' base passes _ ih =>
    obtain ⟨n, run⟩ := ih
    exact ⟨n + 1, .more trivial (advance_next _ (step_passes standard passes st.world k)) run⟩
  | uncaught uncaught delivers _ ih =>
    obtain ⟨n, run⟩ := ih
    obtain ⟨j, cleaned⟩ := drives_cleaned standard delivers (step_uncaught standard uncaught _ _)
    exact ⟨j + n, cleaned.trans run⟩
  | handler delivers _ ih =>
    obtain ⟨n, run⟩ := ih
    obtain ⟨j, cleaned⟩ := drives_cleaned standard delivers (step_handler standard _ _)
    exact ⟨j + n, cleaned.trans run⟩

/-- The clause of a `try` receives a failure that comes to it. -/
theorem Rises.caught (standard : m.table = .standard)
    (rises : m.Rises failure st k st' (⟨.guarded, e, .guarded clauses cleanup⟩ :: base))
    (catches : clauses.find? (·.catches failure) = some clause) :
    ∃ n, m.Drives (fun _ => True) n ⟨st, .resume (.thrown failure) k⟩
      ⟨⟨⟨(st'.world.heap.child e).declare st'.world.heap.next clause.variableName failure.toValue,
          st'.world.host⟩, st'.answers⟩,
        .eval clause.body st'.world.heap.next (⟨.handler, e, .handler cleanup⟩ :: base)⟩ := by
  obtain ⟨n, run⟩ := rises.drives standard
  have last :
    m.step st'.world (.resume (.thrown failure) (⟨.guarded, e, .guarded clauses cleanup⟩ :: base)) =
      (⟨(st'.world.heap.child e).declare st'.world.heap.next clause.variableName failure.toValue,
        st'.world.host⟩,
      .next (.eval clause.body st'.world.heap.next (⟨.handler, e, .handler cleanup⟩ :: base))) := by
    rw [step_resumed standard (fun _ => rfl) rfl]
    simp only [Frame.catchFailure, catches]
  exact ⟨_, run.trans (.more trivial (advance_next _ last) .done)⟩

end Machine

variable {σ τ : Type} {isCancelled : σ → Bool} {isCancelled' : τ → Bool}

/-- A sandbox mediates completely, for all programs, policies and moves of the host. Two hosts that agree on
what the policy permits, whatever they do on all else, have the same runs, step by step: the same scopes,
requests and calls, and the same end. The host within the sandbox is asked what the policy permits of the
calls of the run, each once and in their order, and nothing more. Any other call leaves scopes and host as
they are and delivers a refusal to its own continuation, from where the refusal rises as all failures do to
the clause of a `try` that catches it. -/
theorem sandbox_mediates (policy : Policy) (p : Program) {inner : Invoker σ} {other : Invoker τ}
    {R : σ → τ → Prop} (agree : Invoker.AgreeOn policy R inner other)
    (cancels : ∀ u v, R u v → isCancelled u = isCancelled' v) {w : World σ} {w' : World τ}
    (worlds : w.Akin R w') (e : ScopeId) (moves : List Move) :
    let m := policy.machine p inner isCancelled
    let n := policy.machine p other isCancelled'
    let noting := policy.machine p inner.noted fun u => isCancelled u.1
    let noted := noting.after (noting.opening ⟨w.heap, w.host, []⟩ e) moves
    (List.Forall₂ (Step.Akin R) (m.journey (m.opening w e) moves) (n.journey (n.opening w' e) moves) ∧
        (m.after (m.opening w e) moves).Akin R (n.after (n.opening w' e) moves)) ∧
      (noted.Akin (fun u v => u.1 = v) (m.after (m.opening w e) moves) ∧
        noted.world.host.2 = (calls (m.journey (m.opening w e) moves)).filter policy.permits) ∧
      ∀ call, policy.permits call = false →
        (Policy.rejection call).kind = "RejectedAccess" ∧
          ∀ st k, m.step st.world (.invoke call k) =
              (st.world, .next (.resume (.thrown (Policy.rejection call)) k)) ∧
            ∀ st' e clauses cleanup base clause,
              m.Rises (Policy.rejection call) st k st' (⟨.guarded, e, .guarded clauses cleanup⟩ :: base) →
              clauses.find? (·.catches (Policy.rejection call)) = some clause →
              ∃ j, m.Drives (fun _ => True) j ⟨st, .invoke call k⟩
                ⟨⟨⟨(st'.world.heap.child e).declare st'.world.heap.next clause.variableName
                      (Policy.rejection call).toValue, st'.world.host⟩, st'.answers⟩,
                  .eval clause.body st'.world.heap.next (⟨.handler, e, .handler cleanup⟩ :: base)⟩ := by
  intro m n noting noted
  refine ⟨?same, ?asked, ?refused⟩
  case same =>
    obtain ⟨stages, steps⟩ := (agree.akin p cancels).after
      (a := m.opening w e) (b := n.opening w' e) ⟨worlds, rfl⟩ moves
    exact ⟨steps, stages⟩
  case asked =>
    obtain ⟨stages, steps⟩ :=
      ((Invoker.noted_agreeOn policy inner).akin p (fun u v same => congrArg isCancelled same)).after
        (a := noting.opening ⟨w.heap, w.host, []⟩ e) (b := m.opening w e) ⟨⟨rfl, rfl⟩, rfl⟩ moves
    refine ⟨stages, ?_⟩
    have log : noted.world.host.2 = [] ++ _ :=
      noting.after_log Prod.snd Invoker.sandboxed_noted
        (noting.opening ⟨w.heap, w.host, []⟩ e) moves
    rw [log, Machine.calls_eq_of_akin steps, ← List.filter_flatMap, List.flatMap_singleton',
      List.nil_append]
  case refused =>
    intro call refused
    refine ⟨rfl, fun st k => ?_⟩
    have first : m.step st.world (.invoke call k) =
        (st.world, .next (.resume (.thrown (Policy.rejection call)) k)) := by
      have answer : (inner.sandboxed policy).invoke call st.world.host =
          (.error (Policy.rejection call), st.world.host) :=
        Invoker.sandboxed_refused refused _
      simp only [Machine.step, m, Policy.machine, answer]
      rfl
    refine ⟨first, fun st' e clauses cleanup base clause rises catches => ?_⟩
    obtain ⟨j, run⟩ := rises.caught rfl catches
    exact ⟨j + 1, .more trivial (Machine.advance_next _ first) run⟩

/-- A script tries to erase what its host keeps, is refused, and looks it up instead. It is not seen what
erasing would have done, and the host hears of the second call only. -/
theorem refused_call_is_not_heard :
    let lookup : Invocation := .methodCall .null "lookup" []
    let erase : Invocation := .methodCall .null "erase" []
    let policy := (Policy.strict "reader").allow "Script.lookup"
    let clause : CatchClause := ⟨some "RejectedAccess", "refusal", 1⟩
    let p : Program :=
      ⟨#[.call none "erase" [], .call none "lookup" [], .tryCatch 0 [clause] none], 2⟩
    let still (_ : Value) (_ : String) : Reply Nat := fun u => (.ok .null, u)
    let inner : Invoker Nat :=
      .ofMembers (fun _ _ _ u => (.ok (Invoker.count u), u)) still fun r name _ => still r name
    let other : Invoker Nat :=
      .ofMembers
        (fun _ method _ u => if method = "erase" then (.ok .null, 0) else (.ok (Invoker.count u), u)) still
        fun r name _ => still r name
    let w : World Nat := ⟨Heap.empty.addScope none [], 7⟩
    let m := policy.machine p inner fun _ => false
    let n := policy.machine p other fun _ => false
    let noting := policy.machine p inner.noted fun _ => false
    let noted := noting.after (noting.opening ⟨w.heap, 7, []⟩ 0) [.slice 9]
    Invoker.AgreeOn policy (· = ·) inner other ∧
      (m.after (m.opening w 0) [.slice 9]).standing = .ended (.completed (Invoker.count 7)) ∧
      (n.after (n.opening w 0) [.slice 9]).standing = .ended (.completed (Invoker.count 7)) ∧
      calls (m.journey (m.opening w 0) [.slice 9]) = [erase, lookup] ∧ noted.world.host.2 = [lookup] ∧
      ∃ j, m.Drives (fun _ => True) j
        ⟨⟨w, []⟩, .invoke erase [⟨.guarded, 0, .guarded [clause] none⟩]⟩
        ⟨⟨⟨(w.heap.child 0).declare 1 "refusal" (Policy.rejection erase).toValue, 7⟩, []⟩,
          .eval 1 1 [⟨.handler, 0, .handler none⟩]⟩ := by
  intro lookup erase policy clause p still inner other w m n noting noted
  have agree : Invoker.AgreeOn policy (· = ·) inner other := by
    rintro call u v permitted rfl
    cases call with
    | getProperty | setProperty | getAttribute | setAttribute => exact ⟨rfl, rfl⟩
    | methodCall receiver method args =>
      by_cases erases : method = "erase"
      · subst erases
        cases receiver <;> exact nomatch permitted
      · simp [inner, other, Invoker.ofMembers, erases]
  obtain ⟨⟨_, same⟩, ⟨_, asked⟩, refused⟩ :=
    sandbox_mediates policy p agree (fun _ _ _ => (rfl : false = false))
      (⟨rfl, rfl⟩ : World.Akin (· = ·) w w) 0 [.slice 9]
  have completes :
      (m.after (m.opening w 0) [.slice 9]).standing = .ended (.completed (Invoker.count 7)) := rfl
  exact ⟨agree, completes, same.standing.symm.trans completes, rfl, asked.trans rfl,
    ((refused erase rfl).2 ⟨w, []⟩ _).2 ⟨w, []⟩ 0 [clause] none [] clause .here rfl⟩

end FlowScript
