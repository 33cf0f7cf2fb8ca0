import FlowScript.Proofs.Driving
import FlowScript.Snapshot

/-! What a host may do with a run: let it take some steps, answer its request, and write it out and
restore it. -/
namespace FlowScript

/-- A run between the moves of its host. -/
inductive Standing where
  | running (s : Step)
  | parked (x : Suspension)
  | ended (outcome : Outcome)

def Standing.ofOutcome : Outcome → Standing
  | .outOfBudget s => .running s
  | .suspended x => .parked x
  | outcome => .ended outcome

/-- Where a run stands that has come to the step and takes no more. -/
def Standing.At (s : Step) : Standing → Prop
  | .running s' => s' = s
  | .parked x => s = .yield x.request x.k
  | .ended _ => True

structure Stage (σ : Type) where
  world : World σ
  standing : Standing

namespace Stage
variable {σ : Type}

def step? (st : Stage σ) : Option Step :=
  match st.standing with
  | .running s => some s
  | _ => none

def parked? (st : Stage σ) : Option Suspension :=
  match st.standing with
  | .parked x => some x
  | _ => none

theorem of_step? {st : Stage σ} (running : st.step? = some s) : st = ⟨st.world, .running s⟩ := by
  obtain ⟨w, standing⟩ := st
  cases standing with
  | running s' => rw [Option.some.inj running]
  | parked | ended => exact nomatch running

theorem of_parked? {st : Stage σ} (parked : st.parked? = some x) : st = ⟨st.world, .parked x⟩ := by
  obtain ⟨w, standing⟩ := st
  cases standing with
  | parked y => rw [Option.some.inj parked]
  | running | ended => exact nomatch parked

end Stage

inductive Move where
  | slice (budget : Nat)
  | answer (signal : Signal)
  | persist (into : Heap)

namespace Machine
variable {σ : Type}

/-- The stage at which a run starts. -/
def opening (m : Machine σ) (w : World σ) (e : ScopeId) : Stage σ := ⟨w, .running (m.start e)⟩

/-- A move that does not fit the stage changes nothing. A snapshot that cannot be restored ends the
run. -/
def move (m : Machine σ) (st : Stage σ) : Move → Stage σ
  | .slice budget =>
    match st.standing with
    | .running s =>
      let (w, outcome) := m.run budget st.world s
      ⟨w, .ofOutcome outcome⟩
    | _ => st
  | .answer signal =>
    match st.standing with
    | .parked x => ⟨st.world, .running (.resume signal x.k)⟩
    | _ => st
  | .persist into =>
    match st.standing with
    | .parked x =>
      match (Snapshot.capture st.world.heap x).restore .standard into with
      | (h, .ok y) => ⟨⟨h, st.world.host⟩, .parked y⟩
      | (h, .error e) => ⟨⟨h, st.world.host⟩, .ended (.failed (.engineFault e.message))⟩
    | _ => st

/-- The stage after some moves. -/
def after (m : Machine σ) (st : Stage σ) (moves : List Move) : Stage σ := moves.foldl m.move st

variable {m : Machine σ}

theorem after_append (st : Stage σ) (first second : List Move) :
    m.after st (first ++ second) = m.after (m.after st first) second :=
  List.foldl_append

/-- What every step keeps holds where a run leaves off. -/
theorem run_invariant {I : World σ → Step → Prop}
    (kept : ∀ w s w' s', I w s → m.step w s = (w', .next s') → I w' s') (n : Nat) {w : World σ}
    {s : Step} (start : I w s) :
    ∃ s', I (m.run n w s).1 s' ∧ (Standing.ofOutcome (m.run n w s).2).At s' := by
  induction n generalizing w s with
  | zero =>
    unfold Machine.run
    split
    · exact ⟨s, start, trivial⟩
    · exact ⟨s, start, rfl⟩
  | succ n ih =>
    unfold Machine.run
    split
    · exact ⟨s, start, trivial⟩
    · split
      · next w' s' step => exact ih (kept w s w' s' start step)
      · next w' outcome step =>
        refine ⟨s, ?_⟩
        rcases step_ended step with ⟨x, rfl, rfl, rfl⟩ | ⟨v, rfl, rfl, _⟩ | ⟨f, rfl, rfl⟩
        · exact ⟨start, rfl⟩
        · exact ⟨start, trivial⟩
        · exact ⟨start, trivial⟩

/-- What every move keeps holds after any moves. -/
theorem after_invariant {I : Stage σ → Prop} {given : Move → Prop}
    (kept : ∀ st mv, given mv → I st → I (m.move st mv)) {st : Stage σ} (start : I st)
    {moves : List Move} (all : ∀ mv ∈ moves, given mv) : I (m.after st moves) := by
  induction moves generalizing st with
  | nil => exact start
  | cons mv moves ih =>
    obtain ⟨first, others⟩ := List.forall_mem_cons.1 all
    exact ih (kept st mv first start) others

end Machine
end FlowScript
