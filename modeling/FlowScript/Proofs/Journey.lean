import FlowScript.Proofs.Slicing
import FlowScript.Proofs.Stage
import Mathlib.Data.List.Forall2

/-! The steps of a run over all moves of its host, what they ask of the host, and how runs over two hosts
that answer alike go the same way. -/
namespace FlowScript

/-- What the step asks of the host. -/
def Step.call? : Step → Option Invocation
  | .invoke call _ => some call
  | _ => none

/-- What the steps ask of the host, in their order. -/
def calls (steps : List (World σ × Step)) : List Invocation := steps.filterMap (·.2.call?)

@[simp] theorem calls_append (first second : List (World σ × Step)) :
    calls (first ++ second) = calls first ++ calls second := List.filterMap_append

/-- The scopes are the same, and the hosts are in related states. -/
structure World.Akin (R : σ → τ → Prop) (w : World σ) (v : World τ) : Prop where
  heap : w.heap = v.heap
  host : R w.host v.host

/-- The same step, in worlds that are akin. -/
structure Step.Akin (R : σ → τ → Prop) (a : World σ × Step) (b : World τ × Step) : Prop where
  world : a.1.Akin R b.1
  step : a.2 = b.2

/-- The runs stand the same, in worlds that are akin. -/
structure Stage.Akin (R : σ → τ → Prop) (a : Stage σ) (b : Stage τ) : Prop where
  world : a.world.Akin R b.world
  standing : a.standing = b.standing

/-- It holds of a step that the run stands at, or of its last one. -/
def Stage.Holds (I : World σ → Step → Prop) (st : Stage σ) : Prop :=
  ∃ s, I st.world s ∧ st.standing.At s

namespace Machine
variable {σ τ : Type}

/-- The steps that a move lets the run take, each with the world that it finds. -/
def stretch (m : Machine σ) (st : Stage σ) : Move → List (World σ × Step)
  | .slice budget =>
    match st.standing with
    | .running s => m.path budget st.world s
    | _ => []
  | _ => []

/-- The steps that the moves let the run take. -/
def journey (m : Machine σ) (st : Stage σ) : List Move → List (World σ × Step)
  | [] => []
  | mv :: moves => m.stretch st mv ++ journey m (m.move st mv) moves

/-- The machines run the same program, and hosts in related states answer alike and stay related. -/
structure Akin (R : σ → τ → Prop) (m : Machine σ) (n : Machine τ) : Prop where
  program : m.program = n.program
  table : m.table = n.table
  answer : R u v → (m.host call u).1 = (n.host call v).1
  stays : R u v → R (m.host call u).2 (n.host call v).2
  cancels : R u v → m.isCancelled u = n.isCancelled v

namespace Akin
variable {R : σ → τ → Prop} {m : Machine σ} {n : Machine τ} {w : World σ} {v : World τ}

theorem step (akin : Akin R m n) (worlds : w.Akin R v) (s : Step) :
    (m.step w s).1.Akin R (n.step v s).1 ∧ (m.step w s).2 = (n.step v s).2 := by
  obtain ⟨h, u⟩ := w
  obtain ⟨h', u'⟩ := v
  obtain ⟨rfl, related⟩ := worlds
  cases s with
  | eval b e k =>
    rw [Machine.step, Machine.step, akin.program]
    exact ⟨⟨rfl, related⟩, rfl⟩
  | resume signal k =>
    rw [Machine.step, Machine.step, akin.table]
    exact ⟨⟨rfl, related⟩, rfl⟩
  | invoke call k =>
    refine ⟨⟨rfl, akin.stays related⟩, ?_⟩
    simp only [Machine.step, akin.answer related]
  | yield request k => exact ⟨⟨rfl, related⟩, rfl⟩

theorem run (akin : Akin R m n) (budget : Nat) (worlds : w.Akin R v) (s : Step) :
    (m.run budget w s).1.Akin R (n.run budget v s).1 ∧ (m.run budget w s).2 = (n.run budget v s).2 ∧
      List.Forall₂ (Step.Akin R) (m.path budget w s) (n.path budget v s) := by
  induction budget generalizing w v s with
  | zero =>
    simp only [Machine.run, path, akin.cancels worlds.host]
    split
    · exact ⟨worlds, rfl, .nil⟩
    · exact ⟨worlds, rfl, .nil⟩
  | succ budget ih =>
    simp only [Machine.run, path, akin.cancels worlds.host]
    split
    · exact ⟨worlds, rfl, .nil⟩
    · obtain ⟨after, same⟩ := akin.step worlds s
      generalize m.step w s = first at after same ⊢
      generalize n.step v s = second at after same ⊢
      obtain ⟨w₁, turn⟩ := first
      obtain ⟨v₁, turn'⟩ := second
      obtain rfl : turn = turn' := same
      cases turn with
      | next s₁ =>
        obtain ⟨ends, outcome, steps⟩ := ih after s₁
        exact ⟨ends, outcome, .cons ⟨worlds, rfl⟩ steps⟩
      | ended outcome => exact ⟨after, rfl, .cons ⟨worlds, rfl⟩ .nil⟩

theorem move (akin : Akin R m n) {a : Stage σ} {b : Stage τ} (stages : a.Akin R b) (mv : Move) :
    (m.move a mv).Akin R (n.move b mv) ∧ List.Forall₂ (Step.Akin R) (m.stretch a mv) (n.stretch b mv) := by
  obtain ⟨⟨h, u⟩, standing⟩ := a
  obtain ⟨⟨h', u'⟩, standing'⟩ := b
  obtain ⟨⟨rfl, related⟩, rfl⟩ := stages
  cases mv with
  | slice budget =>
    cases standing with
    | running s =>
      obtain ⟨worlds, outcome, steps⟩ := akin.run budget (w := ⟨h, u⟩) (v := ⟨h, u'⟩) ⟨rfl, related⟩ s
      exact ⟨⟨worlds, congrArg Standing.ofOutcome outcome⟩, steps⟩
    | parked | ended => exact ⟨⟨⟨rfl, related⟩, rfl⟩, .nil⟩
  | answer signal => cases standing <;> exact ⟨⟨⟨rfl, related⟩, rfl⟩, .nil⟩
  | persist into =>
    refine ⟨?_, .nil⟩
    cases standing with
    | running | ended => exact ⟨⟨rfl, related⟩, rfl⟩
    | parked x =>
      simp only [Machine.move]
      split <;> exact ⟨⟨rfl, related⟩, rfl⟩

theorem after (akin : Akin R m n) {a : Stage σ} {b : Stage τ} (stages : a.Akin R b) (moves : List Move) :
    (m.after a moves).Akin R (n.after b moves) ∧
      List.Forall₂ (Step.Akin R) (m.journey a moves) (n.journey b moves) := by
  induction moves generalizing a b with
  | nil => exact ⟨stages, .nil⟩
  | cons mv moves ih =>
    obtain ⟨moved, first⟩ := akin.move stages mv
    obtain ⟨ends, others⟩ := ih moved
    exact ⟨ends, List.rel_append first others⟩

end Akin

theorem calls_eq_of_akin {R : σ → τ → Prop} {steps : List (World σ × Step)}
    {steps' : List (World τ × Step)} (akin : List.Forall₂ (Step.Akin R) steps steps') :
    calls steps = calls steps' := by
  induction akin with
  | nil => rfl
  | cons same _ ih => simp only [calls, List.filterMap_cons, same.step] at ih ⊢; rw [ih]

/-! ### What all steps keep -/

/-- Each of the moves is allowed at the stage at which it is made. -/
def Along (m : Machine σ) (allowed : Stage σ → Move → Prop) : Stage σ → List Move → Prop
  | _, [] => True
  | st, mv :: moves => allowed st mv ∧ Along m allowed (m.move st mv) moves

section
variable {m : Machine σ} {w : World σ} {s : Step} {st : Stage σ} {allowed : Stage σ → Move → Prop}

theorem along_of_forall (all : ∀ mv ∈ moves, ∀ st, allowed st mv) : m.Along allowed st moves := by
  induction moves generalizing st with
  | nil => trivial
  | cons mv moves ih =>
    obtain ⟨first, others⟩ := List.forall_mem_cons.1 all
    exact ⟨first st, ih others⟩

variable {I : World σ → Step → Prop} {given : World σ × Step → Prop}

/-- What each of the given steps keeps holds at all of them, and where the run leaves off. -/
theorem path_invariant
    (kept : ∀ w s w' s', given (w, s) → I w s → m.step w s = (w', .next s') → I w' s') (n : Nat)
    (start : I w s) (all : ∀ taken ∈ m.path n w s, given taken) :
    (∀ taken ∈ m.path n w s, I taken.1 taken.2) ∧
      Stage.Holds I ⟨(m.run n w s).1, .ofOutcome (m.run n w s).2⟩ := by
  induction n generalizing w s with
  | zero =>
    refine ⟨nofun, s, ?_⟩
    simp only [Machine.run]
    split
    · exact ⟨start, trivial⟩
    · exact ⟨start, rfl⟩
  | succ n ih =>
    cases cancelled : m.isCancelled w.host with
    | true =>
      rw [path_cancelled cancelled, run_cancelled cancelled]
      exact ⟨List.forall_mem_nil _, s, start, trivial⟩
    | false =>
      rcases step : m.step w s with ⟨w₁, s₁ | outcome⟩
      · rw [path_next cancelled step] at all ⊢
        rw [run_next cancelled step]
        obtain ⟨first, others⟩ := List.forall_mem_cons.1 all
        obtain ⟨steps, left⟩ := ih (kept w s w₁ s₁ first start step) others
        exact ⟨List.forall_mem_cons.2 ⟨start, steps⟩, left⟩
      · rw [path_ended cancelled step, run_ended cancelled step]
        refine ⟨List.forall_mem_singleton.2 start, s, ?_⟩
        rcases step_ended step with ⟨x, rfl, rfl, rfl⟩ | ⟨v, rfl, rfl, _⟩ | ⟨f, rfl, rfl⟩
        · exact ⟨start, rfl⟩
        · exact ⟨start, trivial⟩
        · exact ⟨start, trivial⟩

/-- What each of the given steps keeps, and what neither an answer nor a restored copy breaks, holds at all
steps of the run and where it stands after the moves. -/
theorem journey_invariant
    (kept : ∀ w s w' s', given (w, s) → I w s → m.step w s = (w', .next s') → I w' s')
    (answered : ∀ w request k signal, I w (.yield request k) → I w (.resume signal k))
    (restored : ∀ w x into, allowed ⟨w, .parked x⟩ (.persist into) → I w (.yield x.request x.k) →
      Stage.Holds I (m.move ⟨w, .parked x⟩ (.persist into)))
    (start : Stage.Holds I st) (along : m.Along allowed st moves)
    (all : ∀ taken ∈ m.journey st moves, given taken) :
    (∀ taken ∈ m.journey st moves, I taken.1 taken.2) ∧ Stage.Holds I (m.after st moves) := by
  induction moves generalizing st with
  | nil => exact ⟨nofun, start⟩
  | cons mv moves ih =>
    obtain ⟨permitted, along⟩ := along
    obtain ⟨first, others⟩ := List.forall_mem_append.1 all
    suffices moved : (∀ taken ∈ m.stretch st mv, I taken.1 taken.2) ∧ Stage.Holds I (m.move st mv) by
      obtain ⟨steps, left⟩ := ih moved.2 along others
      exact ⟨List.forall_mem_append.2 ⟨moved.1, steps⟩, left⟩
    obtain ⟨w, standing⟩ := st
    obtain ⟨s, holds, here⟩ := start
    match mv, standing with
    | .slice budget, .running s' =>
      obtain rfl : s' = s := here
      exact path_invariant kept budget holds first
    | .answer signal, .parked x =>
      obtain rfl : s = .yield x.request x.k := here
      exact ⟨nofun, _, answered _ _ _ signal holds, rfl⟩
    | .persist into, .parked x =>
      obtain rfl : s = .yield x.request x.k := here
      exact ⟨nofun, restored w x into permitted holds⟩
    | .slice _, .parked _ | .slice _, .ended _ | .answer _, .running _ | .answer _, .ended _
    | .persist _, .running _ | .persist _, .ended _ => exact ⟨nofun, s, holds, here⟩

end

/-! ### What hosts keep of their calls -/

variable {α : Type} {log : σ → List α} {entry : Invocation → List α} {m : Machine σ}

theorem step_log (notes : ∀ call u, log (m.host call u).2 = log u ++ entry call) (w : World σ) (s : Step) :
    log (m.step w s).1.host = log w.host ++ (calls [(w, s)]).flatMap entry := by
  cases s with
  | eval | resume | yield => simp [Machine.step, calls, Step.call?]
  | invoke call k => simp [Machine.step, calls, Step.call?, notes]

theorem run_log (notes : ∀ call u, log (m.host call u).2 = log u ++ entry call) (n : Nat) (w : World σ)
    (s : Step) : log (m.run n w s).1.host = log w.host ++ (calls (m.path n w s)).flatMap entry := by
  induction n generalizing w s with
  | zero =>
    simp only [Machine.run, path]
    split <;> simp [calls]
  | succ n ih =>
    cases cancelled : m.isCancelled w.host with
    | true => simp [run_cancelled cancelled, path_cancelled cancelled, calls]
    | false =>
      have first := step_log notes w s
      rcases step : m.step w s with ⟨w₁, s₁ | outcome⟩
      · rw [step] at first
        rw [run_next cancelled step, path_next cancelled step, ih, first, List.append_assoc,
          ← List.flatMap_append, ← calls_append, List.singleton_append]
      · rw [step] at first
        rw [run_ended cancelled step, path_ended cancelled step, first]

variable (log) in
/-- A host that keeps an entry for each call has kept those of all calls of the journey, in order. -/
theorem after_log (notes : ∀ call u, log (m.host call u).2 = log u ++ entry call)
    (st : Stage σ) (moves : List Move) :
    log (m.after st moves).world.host =
      log st.world.host ++ (calls (m.journey st moves)).flatMap entry := by
  induction moves generalizing st with
  | nil => simp [after, journey, calls]
  | cons mv moves ih =>
    have first : log (m.move st mv).world.host =
        log st.world.host ++ (calls (m.stretch st mv)).flatMap entry := by
      cases mv with
      | slice budget =>
        cases standing : st.standing with
        | running s => simp only [Machine.move, stretch, standing, run_log notes]
        | parked | ended => simp [Machine.move, stretch, standing, calls]
      | answer signal => cases standing : st.standing <;> simp [Machine.move, stretch, standing, calls]
      | persist into =>
        cases standing : st.standing with
        | running | ended => simp [Machine.move, stretch, standing, calls]
        | parked x =>
          simp only [Machine.move, standing]
          split <;> simp [stretch, calls]
    rw [journey, calls_append, List.flatMap_append, ← List.append_assoc, ← first]
    exact ih (m.move st mv)

end Machine
end FlowScript
