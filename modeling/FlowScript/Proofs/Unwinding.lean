import FlowScript.Proofs.Mediation
import FlowScript.Proofs.Ownership
import Mathlib.Data.List.TakeWhile

/-! The way of a failure through frames. It goes past them one a step, without a look at what they hold, until
it comes to a frame of a `try`; and every other frame would pass it on all the same if it were asked. -/
namespace FlowScript

/-- Here a `try` waits for its body, for one of its clauses or for its cleanup. -/
def Frame.isOfTry (f : Frame) : Bool := [.guarded, .handler, .cleanup].contains f.point

/-- The frames down to the innermost one of a `try`, without it. -/
def Continuation.passed (k : Continuation) : Continuation := k.takeWhile fun f => !f.isOfTry

/-- The innermost frame of a `try` and all frames below it. -/
def Continuation.fromTry (k : Continuation) : Continuation := k.dropWhile fun f => !f.isOfTry

/-- What comes of resuming the frame itself, whatever the signal is. -/
def Frame.resumed (f : Frame) (signal : Signal) (below : Continuation) (w : World σ) : World σ × Turn :=
  match f.resume signal below with
  | .ok go => (⟨(go w.heap).1, w.host⟩, .next (go w.heap).2)
  | .error fault => (w, .ended (.failed (.engineFault fault.message)))

/-- All frames hold what their points are resumed with. -/
def Continuation.Suited (k : Continuation) : Prop := ∀ f ∈ k, f.captured.Suits f.point

namespace Machine
variable {σ : Type}

/-- A step in which every frame sees every signal. -/
def stepThrough (m : Machine σ) (w : World σ) : Step → World σ × Turn
  | .resume signal (f :: k) => f.resumed signal k w
  | s => m.step w s

/-- A run in which every frame sees every signal. -/
def runThrough (m : Machine σ) : Nat → World σ → Step → World σ × Outcome
  | 0, w, s => if m.isCancelled w.host then (w, .cancelled) else (w, .outOfBudget s)
  | budget + 1, w, s =>
    if m.isCancelled w.host then (w, .cancelled)
    else
      match m.stepThrough w s with
      | (w, .next s) => runThrough m budget w s
      | (w, .ended outcome) => (w, outcome)

end Machine

/-! ### One frame -/

theorem Frame.isOfTry_eq_intercepts (f : Frame) : f.isOfTry = f.point.intercepts := by
  obtain ⟨point, e, captured⟩ := f
  cases point <;> rfl

/-- A frame that belongs to no `try` passes a failure on, whatever its state is among those of its point. -/
theorem Frame.resume_thrown {f : Frame} (other : f.isOfTry = false) (suits : f.captured.Suits f.point)
    (failure : Failure) (k : Continuation) :
    f.resume (.thrown failure) k = .ok fun h => (h, .thrown failure k) := by
  obtain ⟨point, e, captured⟩ := f
  cases suits with
  | guarded | handler | cleanup => exact nomatch other
  | decide | not | lhs | rhs | declare | assign | branch | loopTest | loopBody | sequence | property
  | propertyStore | storeReceiver | callReceiver | callArgument | throw | request => rfl

namespace Continuation
variable {k : Continuation}

theorem passed_append_fromTry (k : Continuation) : k.passed ++ k.fromTry = k := List.takeWhile_append_dropWhile

theorem isOfTry_of_mem_passed (member : f ∈ k.passed) : f.isOfTry = false := by
  simpa using List.mem_takeWhile_imp member

theorem isOfTry_of_fromTry (found : k.fromTry = f :: below) : f.isOfTry = true := by
  have first : k.find? Frame.isOfTry = some f :=
    (List.find?_eq_head?_dropWhile_not Frame.isOfTry k).trans (congrArg List.head? found)
  exact List.find?_some first

end Continuation

theorem Captured.Fits.suits {captured : Captured} (fits : captured.Fits p point) : captured.Suits point := by
  cases fits <;> constructor

theorem Step.Fits.suited {s : Step} (fits : s.Fits p) : s.rest.Suited := fun f member =>
  (fits.rest f member).suits

namespace Machine
variable {σ : Type} {m : Machine σ} {w : World σ} {failure : Failure} {k : Continuation} {f : Frame}

theorem step_passed (standard : m.table = .standard) (other : f.isOfTry = false) :
    m.step w (.thrown failure (f :: k)) = (w, .next (.thrown failure k)) :=
  step_passes standard (.unseen (f.isOfTry_eq_intercepts ▸ other)) w k

/-- A frame that is not passed by is resumed itself. -/
theorem step_seen (standard : m.table = .standard) {signal : Signal}
    (seen : signal.isThrown = true → f.isOfTry = true) :
    m.step w (.resume signal (f :: k)) = f.resumed signal k w := by
  rw [f.isOfTry_eq_intercepts] at seen
  unfold Frame.resumed
  cases resumed : f.resume signal k with
  | ok go => exact step_resumed standard seen resumed
  | error fault =>
    have stays : (signal.isThrown && !f.point.intercepts) = false := by
      cases thrown : signal.isThrown with
      | false => rfl
      | true => simp [seen thrown]
    simp [step, standard, Table.deliver, Table.standard_contains, stays, Table.resumeInnermost, resumed, turn]

/-- A frame that is passed by does itself what passing it does just if its state suits its point. -/
theorem resumed_eq_step_iff (standard : m.table = .standard) (other : f.isOfTry = false) :
    f.resumed (.thrown failure) k w = m.step w (.thrown failure (f :: k)) ↔ f.captured.Suits f.point := by
  rw [step_passed standard other, Frame.resumed]
  constructor
  · intro same
    cases resumed : f.resume (.thrown failure) k with
    | ok go => exact Frame.suits_of_resume resumed
    | error fault =>
      rw [resumed] at same
      exact nomatch (Prod.mk.inj same).2
  · intro suits
    rw [Frame.resume_thrown other suits]

/-! ### Many frames -/

section
variable {front : Continuation}

theorem run_past (standard : m.table = .standard) (alive : m.isCancelled w.host = false)
    (others : ∀ f ∈ front, f.isOfTry = false) (failure : Failure) (rest : Continuation) (n : Nat) :
    m.run (front.length + n) w (.thrown failure (front ++ rest)) = m.run n w (.thrown failure rest) := by
  induction front with
  | nil => rw [List.length_nil, Nat.zero_add, List.nil_append]
  | cons f front ih =>
    obtain ⟨first, others⟩ := List.forall_mem_cons.1 others
    rw [List.length_cons, Nat.add_right_comm, List.cons_append, run_next alive (step_passed standard first)]
    exact ih others

/-- Each step takes one frame away, and the world stays as it is. -/
theorem path_past (standard : m.table = .standard) (alive : m.isCancelled w.host = false)
    (others : ∀ f ∈ front, f.isOfTry = false) (failure : Failure) (rest : Continuation) :
    m.path front.length w (.thrown failure (front ++ rest)) =
      (List.range front.length).map fun i => (w, .thrown failure ((front ++ rest).drop i)) := by
  induction front with
  | nil => rfl
  | cons f front ih =>
    obtain ⟨first, others⟩ := List.forall_mem_cons.1 others
    rw [List.length_cons, List.cons_append, path_next alive (step_passed standard first), ih others,
      List.range_succ_eq_map, List.map_cons, List.map_map]
    rfl

end

/-! ### Every frame asked -/

theorem stepThrough_eq_step (standard : m.table = .standard) {s : Step} (suited : s.rest.Suited) :
    m.stepThrough w s = m.step w s := by
  cases s with
  | eval | invoke | yield => rfl
  | resume signal k =>
    cases k with
    | nil => rfl
    | cons f k =>
      cases signal with
      | value v =>
        have plain : (Signal.value v).isThrown = true → f.isOfTry = true := nofun
        exact (step_seen standard plain).symm
      | thrown failure =>
        cases ofTry : f.isOfTry with
        | true => exact (step_seen standard fun _ => ofTry).symm
        | false => exact (resumed_eq_step_iff standard ofTry).2 (suited f (List.mem_cons_self ..))

theorem runThrough_eq_run (standard : m.table = .standard) (n : Nat) {s : Step} (fits : s.Fits m.program) :
    m.runThrough n w s = m.run n w s := by
  induction n generalizing w s with
  | zero => rfl
  | succ n ih =>
    rw [runThrough, run, stepThrough_eq_step standard fits.suited]
    rcases step : m.step w s with ⟨w₁, s₁ | outcome⟩
    · simp only [ih (leads_fits rfl fits (leads_of_step step))]
    · rfl

/-- Frames fit after every move of the host, also where the program is not valid. -/
theorem after_fits_of_opening (w : World σ) (e : ScopeId) (moves : List Move) :
    (m.after (m.opening w e) moves).standing.Fits m.program := by
  have kept : ∀ (st : Stage σ) mv, True → st.standing.Fits m.program → (m.move st mv).standing.Fits m.program := by
    intro ⟨w, standing⟩ mv _ fits
    match mv, standing with
    | .persist into, .parked x =>
      obtain ⟨h, y, restored, fits'⟩ := restored_fits fits w.heap into
      simp only [move, restored]
      exact fits'
    | .persist into, .running s | .persist into, .ended outcome => exact fits
    | .slice budget, standing => exact move_plays_fits fits rfl
    | .answer signal, standing => exact move_plays_fits fits rfl
  exact after_invariant kept (m.opening_fits w e) fun _ _ => trivial

end Machine

/-- A failure unwinds to the innermost frame of a `try` and to no other. From frames in whatever states it goes
past those above that frame, one a step; the world is the same at all these steps, so no scope is written and
the host is not called, and each of them is the delivery of the very failure to what is left of the frames. The
frame of the `try` is resumed with that failure, over the frames that were below it; and where there is none
the run ends with the failure. A frame that is passed by, resumed itself, does the same if its state is one of
those that its point takes, and only then. All frames of the runs of a program hold such states, so a run in
which every frame sees every signal is the same run, whatever moves of the host have led to where it starts. -/
theorem failures_unwind_to_try (m : Machine σ) (standard : m.table = .standard) :
    (∀ (w : World σ) (failure : Failure) (k : Continuation), m.isCancelled w.host = false →
      m.path k.passed.length w (.thrown failure k) =
          (List.range k.passed.length).map (fun i => (w, .thrown failure (k.drop i))) ∧
        (∀ n, m.run (k.passed.length + n) w (.thrown failure k) = m.run n w (.thrown failure k.fromTry)) ∧
        (k.fromTry = [] → ∀ n, m.run (k.length + 1 + n) w (.thrown failure k) = (w, .failed failure))) ∧
    (∀ (w : World σ) (failure : Failure) (k : Continuation) f below, k.fromTry = f :: below →
      k = k.passed ++ f :: below ∧ (f.point = .guarded ∨ f.point = .handler ∨ f.point = .cleanup) ∧
        m.step w (.thrown failure k.fromTry) = f.resumed (.thrown failure) below w) ∧
    (∀ (w : World σ) (failure : Failure) (f : Frame) (k : Continuation), f.isOfTry = false →
      (f.resumed (.thrown failure) k w = m.step w (.thrown failure (f :: k)) ↔ f.captured.Suits f.point)) ∧
    ∀ (w : World σ) e moves w' s, m.after (m.opening w e) moves = ⟨w', .running s⟩ →
      s.rest.Suited ∧ ∀ n, m.runThrough n w' s = m.run n w' s := by
  refine ⟨?unwinds, ?intercepted, ?alone, ?unseen⟩
  case unwinds =>
    intro w failure k alive
    have others : ∀ f ∈ k.passed, f.isOfTry = false := fun f => Continuation.isOfTry_of_mem_passed
    have runs : ∀ n, m.run (k.passed.length + n) w (.thrown failure k) = m.run n w (.thrown failure k.fromTry) := by
      intro n
      have run := Machine.run_past standard alive others failure k.fromTry n
      rwa [k.passed_append_fromTry] at run
    refine ⟨?_, runs, fun uncaught n => ?_⟩
    · have path := Machine.path_past standard alive others failure k.fromTry
      rwa [k.passed_append_fromTry] at path
    · have all : k.passed = k := by rw [← List.append_nil k.passed, ← uncaught, k.passed_append_fromTry]
      have run := runs (n + 1)
      rw [all, uncaught] at run
      rw [Nat.add_assoc, Nat.add_comm 1 n, run]
      exact Machine.run_ended alive rfl n
  case intercepted =>
    intro w failure k f below found
    have ofTry : f.isOfTry = true := Continuation.isOfTry_of_fromTry found
    refine ⟨by rw [← found, k.passed_append_fromTry], ?_, ?_⟩
    · simpa [Frame.isOfTry] using ofTry
    · rw [found]
      exact Machine.step_seen standard fun _ => ofTry
  case alone =>
    exact fun w failure f k other => Machine.resumed_eq_step_iff standard other
  case unseen =>
    intro w e moves w' s reached
    have fits := m.after_fits_of_opening w e moves
    rw [reached] at fits
    exact ⟨Step.Fits.suited fits, fun n => Machine.runThrough_eq_run standard n fits⟩

/-- A failure goes past a frame with a state that its point does not take, and past one of a scope that is not
there, and comes to a `try` that has caught another failure; that has no cleanup, so it goes on and ends the
run. The first frame, resumed itself, would have ended the run with a fault; no run of a program has it. -/
theorem failure_passes_unsuited_frame :
    let p : Program := ⟨#[.constant (.str "lost"), .throw 0, .property 1 "name" false,
      .tryCatch 2 [⟨none, "e", 0⟩] none], 3⟩
    let m : Machine Unit := p.machine fun _ u => (.ok .null, u)
    let w : World Unit := ⟨Heap.empty.addScope none [], ()⟩
    let failure : Failure := ⟨"Lost", "lost", some .null⟩
    let odd : Frame := ⟨.assign, 0, .not⟩
    let handler : Frame := ⟨.handler, 0, .handler none⟩
    let below : Continuation := [⟨.request, 0, .yield⟩]
    m.table = .standard ∧
      m.run 2 w (.thrown failure (odd :: ⟨.property, 7, .property "x" false⟩ :: handler :: below)) =
        (w, .outOfBudget (.thrown failure (handler :: below))) ∧
      m.step w (.thrown failure (handler :: below)) = (w, .next (.thrown failure below)) ∧
      m.run 2 w (.thrown failure below) = (w, .failed failure) ∧
      odd.resumed (.thrown failure) [] w ≠ m.step w (.thrown failure [odd]) ∧
      ∃ w' s, m.after (m.opening w 0) [.slice 5] = ⟨w', .running s⟩ ∧ m.runThrough 9 w' s = m.run 9 w' s := by
  intro p m w failure odd handler below
  obtain ⟨unwinds, intercepted, alone, unseen⟩ := failures_unwind_to_try m rfl
  obtain ⟨-, runs, -⟩ :=
    unwinds w failure (odd :: ⟨.property, 7, .property "x" false⟩ :: handler :: below) rfl
  obtain ⟨-, -, ends⟩ := unwinds w failure below rfl
  obtain ⟨-, -, caught⟩ := intercepted w failure (handler :: below) handler below rfl
  have reached : m.after (m.opening w 0) [.slice 5] =
      ⟨w, .running (.thrown (.plain Failure.thrownKind "lost")
        [⟨.property, 0, .property "name" false⟩, ⟨.guarded, 0, .guarded [⟨none, "e", 0⟩] none⟩])⟩ := rfl
  refine ⟨rfl, runs 0, caught, ends rfl 0, ?_, _, _, reached, (unseen w 0 _ _ _ reached).2 9⟩
  exact (alone w failure odd [] rfl).not.2 nofun

end FlowScript
