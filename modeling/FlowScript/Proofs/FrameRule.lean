import FlowScript.Proofs.Footprint
import FlowScript.Proofs.Journey
import FlowScript.Proofs.Matching
import FlowScript.Proofs.Transparency

/-! What a run does over some frames has nothing to do with them. A step takes away the innermost frame at
most, puts up one other at most, and reads none of those below; so a run goes the same way over whatever
frames, until it signals to them. -/
namespace FlowScript

/-! ### What a step writes -/

namespace Heap
variable {h h' : Heap} {e x : ScopeId}

/-- At most one scope is new, and at most one binding of one scope is not what it was. -/
structure Edited (h h' : Heap) : Prop where
  next_le : h.next ≤ h'.next
  le_next : h'.next ≤ h.next + 1
  parents : ∀ e < h.next, h'.parent? e = h.parent? e
  written : ∃ e name, ∀ x other, x ≠ e ∨ other ≠ name →
    (h'.locals x).find? other = (h.locals x).find? other

theorem locals_of_next_le (beyond : h.next ≤ e) : h.locals e = [] := by
  simp [locals, Array.getElem?_eq_none beyond]

theorem find?_declare (elsewhere : x ≠ e ∨ other ≠ name) :
    ((h.declare e name v).locals x).find? other = (h.locals x).find? other := by
  by_cases inside : e < h.next
  · rw [locals_declare inside]
    by_cases here : e = x
    · subst here
      have ne : name ≠ other := (elsewhere.resolve_left (not_not_intro rfl)).symm
      simp [ne]
    · rw [if_neg here]
  · -- There is no such scope, so nothing is written.
    simp only [locals, declare, Array.getElem?_modify]
    split
    · next here =>
      rw [← here, Array.getElem?_eq_none (Nat.le_of_not_lt inside)]
      rfl
    · rfl

theorem find?_child : ((h.child e).locals x).find? other = (h.locals x).find? other := by
  rw [child, locals_addScope]
  by_cases new : x = h.next
  · rw [if_pos new, new, locals_of_next_le (Nat.le_refl _)]
  · rw [if_neg new]

theorem Edited.refl (h : Heap) : h.Edited h where
  next_le := Nat.le_refl _
  le_next := Nat.le_succ _
  parents _ _ := rfl
  written := ⟨0, "", fun _ _ _ => rfl⟩

theorem edited_declare (h : Heap) (e : ScopeId) (name : String) (v : Value) :
    h.Edited (h.declare e name v) where
  next_le := by simp
  le_next := by simp
  parents x _ := parent?_declare
  written := ⟨e, name, fun _ _ elsewhere => find?_declare elsewhere⟩

theorem edited_child (h : Heap) (e : ScopeId) : h.Edited (h.child e) where
  next_le := by simp [child]
  le_next := by simp [child]
  parents x inside := by rw [child, parent?_addScope, if_neg (Nat.ne_of_lt inside)]
  written := ⟨0, "", fun _ _ _ => find?_child⟩

/-- The new scope is written, and no other. -/
theorem edited_child_declare (h : Heap) (e : ScopeId) (name : String) (v : Value) :
    h.Edited ((h.child e).declare h.next name v) where
  next_le := by simp [child]
  le_next := by simp [child]
  parents x inside := by
    rw [parent?_declare, child, parent?_addScope, if_neg (Nat.ne_of_lt inside)]
  written := ⟨h.next, name, fun _ _ elsewhere => (find?_declare elsewhere).trans find?_child⟩

end Heap

theorem Footprint.edited {h : Heap} {r : Heap × Step} (print : Footprint h e assigned r) :
    h.Edited r.1 := by
  cases print with
  | declares => exact h.edited_declare _ _ _
  | assigns => exact h.edited_declare _ _ _
  | opens => exact h.edited_child e
  | catches => exact h.edited_child_declare _ _ _
  | signals | calls | callsFor | asks | evaluates | evaluatesFor => exact .refl h

/-! ### Runs over other frames -/

/-- None of the steps signals to the frames. -/
def Quiet (k : Continuation) (steps : List (World σ × Step)) : Prop := ∀ taken ∈ steps, taken.2.NotAt k

/-- The steps over further frames, in the same worlds. -/
def stackedOn (k : Continuation) (steps : List (World σ × Step)) : List (World σ × Step) :=
  steps.map fun taken => (taken.1, taken.2.onto k)

/-- The step signals to so many frames. -/
def Step.signalsTo (frames : Nat) : Step → Bool
  | .resume _ k => k.length == frames
  | _ => false

def Outcome.onto (base : Continuation) : Outcome → Outcome
  | .suspended x => .suspended ⟨x.request, x.k ++ base⟩
  | .outOfBudget s => .outOfBudget (s.onto base)
  | outcome => outcome

def Standing.onto (base : Continuation) : Standing → Standing
  | .running s => .running (s.onto base)
  | .parked x => .parked ⟨x.request, x.k ++ base⟩
  | .ended outcome => .ended outcome

def Stage.onto (base : Continuation) (st : Stage σ) : Stage σ := ⟨st.world, st.standing.onto base⟩

theorem Standing.ofOutcome_onto (outcome : Outcome) (k : Continuation) :
    ofOutcome (outcome.onto k) = (ofOutcome outcome).onto k := by
  cases outcome <;> rfl

theorem Turn.onto_ended (finished : ∀ s, outcome ≠ .outOfBudget s) (k : Continuation) :
    (ended outcome).onto k = .ended (outcome.onto k) := by
  cases outcome with
  | outOfBudget s => exact absurd rfl (finished s)
  | completed | failed | suspended | cancelled => rfl

theorem Step.notAt_onto {s : Step} {k : Continuation} : (s.onto k).NotAt k ↔ s.NotAt [] := by
  constructor
  · rintro quiet signal rfl
    exact quiet signal rfl
  · intro quiet signal same
    cases s with
    | resume signal' k' =>
      obtain ⟨_, none⟩ := Step.resume.inj same
      obtain rfl : k' = [] := by simpa using none
      exact quiet signal' rfl
    | eval | invoke | yield => exact nomatch same

theorem quiet_stackedOn {steps : List (World σ × Step)} (k : Continuation) :
    Quiet k (stackedOn k steps) ↔ Quiet [] steps := by
  simp only [Quiet, stackedOn, List.forall_mem_map, Step.notAt_onto]

theorem quiet_of_lengths {steps : List (World σ × Step)} {k : Continuation}
    (apart : steps.all (fun taken => !taken.2.signalsTo k.length) = true) : Quiet k steps := by
  rintro ⟨w, s⟩ member signal rfl
  simpa [Step.signalsTo] using List.all_eq_true.1 apart _ member

namespace Machine
variable {σ : Type} {m : Machine σ} {w : World σ} {s : Step} {k : Continuation} {st : Stage σ}

/-- A run is quiet without the frames below where it is with them. -/
theorem quiet_path (quiet : Quiet k (m.path n w (s.onto k))) : Quiet [] (m.path n w s) := by
  induction n generalizing w s with
  | zero => exact nofun
  | succ n ih =>
    cases cancelled : m.isCancelled w.host with
    | true =>
      rw [path_cancelled cancelled]
      exact nofun
    | false =>
      have first : s.NotAt [] := by
        apply Step.notAt_onto.1
        apply quiet (w, s.onto k)
        simp [path, cancelled]
      rcases step : m.step w s with ⟨w₁, s₁ | outcome⟩
      · have stacked : m.step w (s.onto k) = (w₁, .next (s₁.onto k)) := by
          rw [step_onto first, step]
          rfl
        rw [path_next cancelled stacked] at quiet
        rw [path_next cancelled step]
        exact List.forall_mem_cons.2 ⟨first, ih (List.forall_mem_cons.1 quiet).2⟩
      · rw [path_ended cancelled step]
        exact List.forall_mem_singleton.2 first

/-- A run that does not signal to the frames below takes the same steps over whatever frames. -/
theorem run_onto (quiet : Quiet [] (m.path n w s)) (k : Continuation) :
    m.run n w (s.onto k) = (m.run n w s).map id (Outcome.onto k) ∧
      m.path n w (s.onto k) = stackedOn k (m.path n w s) := by
  induction n generalizing w s with
  | zero =>
    refine ⟨?_, rfl⟩
    simp only [Machine.run]
    split <;> rfl
  | succ n ih =>
    cases cancelled : m.isCancelled w.host with
    | true =>
      rw [run_cancelled cancelled, run_cancelled cancelled, path_cancelled cancelled,
        path_cancelled cancelled]
      exact ⟨rfl, rfl⟩
    | false =>
      have first : s.NotAt [] := by
        apply quiet (w, s)
        simp [path, cancelled]
      rcases step : m.step w s with ⟨w₁, s₁ | outcome⟩
      · have stacked : m.step w (s.onto k) = (w₁, .next (s₁.onto k)) := by
          rw [step_onto first, step]
          rfl
        rw [path_next cancelled step] at quiet
        obtain ⟨run, path⟩ := ih (List.forall_mem_cons.1 quiet).2
        rw [run_next cancelled stacked, run_next cancelled step, path_next cancelled stacked,
          path_next cancelled step, run, path]
        exact ⟨rfl, rfl⟩
      · have stacked : m.step w (s.onto k) = (w₁, .ended (outcome.onto k)) := by
          rw [step_onto first, step, Prod.map, Turn.onto_ended (ended_not_outOfBudget step)]
          rfl
        rw [run_ended cancelled stacked, run_ended cancelled step, path_ended cancelled stacked,
          path_ended cancelled step]
        exact ⟨rfl, rfl⟩

theorem quiet_stretch (quiet : Quiet k (m.stretch (st.onto k) mv)) : Quiet [] (m.stretch st mv) := by
  obtain ⟨w, standing⟩ := st
  cases mv with
  | slice budget =>
    cases standing with
    | running s => exact quiet_path quiet
    | parked | ended => exact nofun
  | answer | persist => exact nofun

theorem move_onto (plays : mv.plays = true) (quiet : Quiet [] (m.stretch st mv)) (k : Continuation) :
    m.move (st.onto k) mv = (m.move st mv).onto k ∧
      m.stretch (st.onto k) mv = stackedOn k (m.stretch st mv) := by
  obtain ⟨w, standing⟩ := st
  cases mv with
  | slice budget =>
    cases standing with
    | running s =>
      obtain ⟨run, path⟩ := run_onto quiet k
      refine ⟨?_, path⟩
      simp only [Stage.onto, Standing.onto, Machine.move, run, Prod.map, id, Standing.ofOutcome_onto]
    | parked | ended => exact ⟨rfl, rfl⟩
  | answer signal => cases standing <;> exact ⟨rfl, rfl⟩
  | persist into => cases plays

theorem journey_onto (play : ∀ mv ∈ moves, mv.plays = true)
    (quiet : Quiet k (m.journey (st.onto k) moves)) :
    Quiet [] (m.journey st moves) ∧ ∀ k',
      m.journey (st.onto k') moves = stackedOn k' (m.journey st moves) ∧
        m.after (st.onto k') moves = (m.after st moves).onto k' := by
  induction moves generalizing st with
  | nil => exact ⟨nofun, fun _ => ⟨rfl, rfl⟩⟩
  | cons mv moves ih =>
    obtain ⟨plays, others⟩ := List.forall_mem_cons.1 play
    obtain ⟨first, later⟩ := List.forall_mem_append.1 quiet
    have alone := quiet_stretch first
    have along := move_onto plays alone
    rw [(along k).1] at later
    obtain ⟨rest, same⟩ := ih others later
    refine ⟨List.forall_mem_append.2 ⟨alone, rest⟩, fun k' => ?_⟩
    obtain ⟨move, stretch⟩ := along k'
    obtain ⟨journey, after⟩ := same k'
    rw [← move] at journey after
    refine ⟨?_, after⟩
    simp only [Machine.journey, stretch, journey, stackedOn, List.map_append]

end Machine

/-- The frames below have no part in a step, and none in a run over them. A step takes its innermost frame
away at most and puts up one other at most; it makes at most one scope, and writes at most one binding of
one scope; and over whatever frames it does the same. So a run that starts over some frames goes the same
way over any others, for as long as it does not signal to them: in the same worlds, through the same steps
over the one and over the other frames, to the same standing. -/
theorem frames_below_have_no_part (m : Machine σ) :
    (∀ w w' (s s' : Step), m.step w s = (w', .next s') →
      ∃ removed added, s.rest = removed ++ s.below ∧ removed.length ≤ 1 ∧
        s'.rest = added ++ s.below ∧ added.length ≤ 1 ∧ w.heap.Edited w'.heap) ∧
    (∀ w (s : Step), s.NotAt [] → s = s.own.onto s.below ∧
      ∀ k, m.step w (s.own.onto k) = (m.step w s.own).map id (Turn.onto k)) ∧
    ∀ w (s : Step) k moves, (∀ mv ∈ moves, mv.plays = true) →
      Quiet k (m.journey ⟨w, .running (s.onto k)⟩ moves) →
      ∃ (alone : List (World σ × Step)) (st : Stage σ), ∀ k',
        m.journey ⟨w, .running (s.onto k')⟩ moves = stackedOn k' alone ∧ Quiet k' (stackedOn k' alone) ∧
          m.after ⟨w, .running (s.onto k')⟩ moves = st.onto k' := by
  refine ⟨?step, ?unread, ?run⟩
  case step =>
    intro w w' s s' step
    have own : s.rest = s.own.rest ++ s.below := by rw [← Step.rest_onto, s.own_onto_below]
    rcases (Machine.leads_of_step step).acts.footprint with ⟨heap, signal, rfl⟩ | ⟨e, _, r, print, heap, rfl⟩
    · refine ⟨_, [], own, s.length_rest_own, rfl, Nat.zero_le 1, ?_⟩
      rw [heap]
      exact .refl _
    · refine ⟨_, _, own, s.length_rest_own, r.2.rest_onto, print.length_rest, ?_⟩
      rw [heap]
      exact print.edited
  case unread =>
    intro w s notAt
    refine ⟨s.own_onto_below.symm, fun k => Machine.step_onto fun signal same => ?_⟩
    cases s with
    | resume signal' k' =>
      cases k' with
      | nil => exact notAt signal' rfl
      | cons f k' => exact nomatch (Step.resume.inj same).2
    | eval | invoke | yield => exact nomatch same
  case run =>
    intro w s k moves play quiet
    let st : Stage σ := ⟨w, .running s⟩
    have start : Quiet k (m.journey (st.onto k) moves) := quiet
    obtain ⟨alone, same⟩ := Machine.journey_onto play start
    exact ⟨_, _, fun k' => ⟨(same k').1, (quiet_stackedOn k').2 alone, (same k').2⟩⟩

/-- A failure is caught over the frame of a negation, in a new scope that holds it. And a loop that asks its
host in each round, in a new scope each time, takes the same steps over that frame as over any others; it
never signals to them. -/
theorem loop_has_no_part_in_frames_below :
    let p : Program := ⟨#[.constant (.bool true), .yield 0, .scope 1, .whileLoop 0 2], 3⟩
    let m : Machine Unit := p.machine fun _ u => (.ok .null, u)
    let w : World Unit := ⟨Heap.empty.addScope none [], ()⟩
    let f : Failure := .plain "Other" "lost"
    let k : Continuation := [⟨.not, 0, .not⟩]
    let trying : Step := .resume (.thrown f) (⟨.guarded, 0, .guarded [⟨none, "e", 0⟩] none⟩ :: k)
    let caught : Step := .eval 0 1 (⟨.handler, 0, .handler none⟩ :: k)
    let moves : List Move := [.slice 9, .answer (.value .null), .slice 9]
    (∃ removed added, trying.rest = removed ++ k ∧ removed.length ≤ 1 ∧ caught.rest = added ++ k ∧
        added.length ≤ 1 ∧ w.heap.Edited ((w.heap.child 0).declare 1 "e" f.toValue)) ∧
      (∀ k', m.step w (trying.own.onto k') = (m.step w trying.own).map id (Turn.onto k')) ∧
      ∃ (alone : List (World Unit × Step)) (st : Stage Unit), alone.length = 16 ∧ ∀ k',
        m.journey ⟨w, .running (Step.onto k' (.eval 3 0 []))⟩ moves = stackedOn k' alone ∧
          Quiet k' (stackedOn k' alone) ∧
          m.after ⟨w, .running (Step.onto k' (.eval 3 0 []))⟩ moves = st.onto k' := by
  intro p m w f k trying caught moves
  obtain ⟨step, unread, run⟩ := frames_below_have_no_part m
  have quiet : Quiet k (m.journey ⟨w, .running (Step.onto k (.eval 3 0 []))⟩ moves) := by
    apply quiet_of_lengths
    decide +kernel
  obtain ⟨alone, st, same⟩ := run w (.eval 3 0 []) k moves (by decide) quiet
  have notAt : trying.NotAt [] := fun signal none => nomatch (Step.resume.inj none).2
  refine ⟨step w ⟨_, ()⟩ trying caught rfl, (unread w trying notAt).2, alone, st, ?_, same⟩
  have taken : (stackedOn k alone).length = 16 := by
    rw [← (same k).1]
    decide +kernel
  simpa [stackedOn] using taken

end FlowScript
