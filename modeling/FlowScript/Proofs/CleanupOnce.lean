import FlowScript.Proofs.Activation

/-! The cleanup of a `try` runs once on each way out of it, with all that waits, fails or is restored in
between: what the next step of a run can be is known in every phase of the activation. -/
namespace FlowScript

namespace Activation
variable {σ : Type} {m : Machine σ} {a : Activation} {φ φ' : Phase} {moved g : ScopeId → ScopeId}
variable {s : Step} {p : Program}

/-- What is known of the next step of a run while the activation is in a phase. -/
def Awaits (a : Activation) (p : Program) (moved : ScopeId → ScopeId) : Phase → Step → Prop
  | .entering, s => s = .eval a.block (moved a.scope) (a.rest moved)
  | .body, s => s.Within p a.block (a.guarded moved)
  | .caught clause, s =>
    clause ∈ a.clauses ∧ ∃ e, s = .eval clause.body e (a.handler moved)
  | .handler, s => s.Within p a.block (a.handler moved)
  | .due pending, s => s = .eval a.cleanup (moved a.scope) (a.cleaning moved pending)
  | .cleanup pending, s => s.Within p a.cleanup (a.cleaning moved pending)
  | .leaving signal, s => s = .resume signal (a.rest moved)
  | .left _, _ => True

/-- A run in the course of the activation goes on with what this awaits, unless it is cancelled. -/
def AwaitsAt (a : Activation) (p : Program) (moved : ScopeId → ScopeId) (φ : Phase) (st : Standing) :
    Prop :=
  φ.Over ∨ st = .ended .cancelled ∨ st.GoesOn (a.Awaits p moved φ)

theorem rest_moved : (a.rest moved).map (Frame.moved g) = a.rest (g ∘ moved) := by
  simp [rest, Frame.moved]

theorem Awaits.relocate (awaits : a.Awaits p moved φ s) : a.Awaits p (g ∘ moved) φ (s.moved g) := by
  cases φ with
  | entering | leaving =>
    obtain rfl := awaits
    simp [Awaits, Step.moved, rest_moved]
  | due =>
    obtain rfl := awaits
    simp [Awaits, Step.moved, cleaning, Frame.moved, rest_moved]
  | caught clause =>
    obtain ⟨member, e, rfl⟩ := awaits
    exact ⟨member, g e, by simp [Step.moved, handler, Frame.moved, rest_moved]⟩
  | body =>
    have within := Step.Within.moved (g := g) awaits
    simpa [Awaits, guarded, Frame.moved, rest_moved] using within
  | handler =>
    have within := Step.Within.moved (g := g) awaits
    simpa [Awaits, handler, Frame.moved, rest_moved] using within
  | cleanup =>
    have within := Step.Within.moved (g := g) awaits
    simpa [Awaits, cleaning, Frame.moved, rest_moved] using within
  | left => trivial

/-- The program that starts at the block of the activation. -/
def program (a : Activation) (p : Program) : Program := { p with root := a.block }

/-- The block of the activation, as it stands in the program. -/
def In (a : Activation) (p : Program) : Prop :=
  p.block? a.block = some (.tryCatch a.body a.clauses (some a.cleanup))

/-- What the block of the activation evaluates. -/
def blocks (a : Activation) : List BlockId := a.body :: a.clauses.map CatchClause.body ++ [a.cleanup]

theorem In.fits (found : a.In p) (child : c ∈ a.blocks) : (Step.eval c e []).Fits (a.program p) :=
  ⟨.child (b := a.block) .root found child, fun _ member => nomatch member⟩

/-- A block of the activation evaluated over some frames. -/
theorem In.within (found : a.In p) (wf : p.WellFormed) (child : c ∈ a.blocks) (base : Continuation) :
    (Step.eval c e base).Within (a.program p) a.block base := by
  refine ⟨.eval c e [], rfl, found.fits child, ?_⟩
  intro b ahead
  obtain rfl : b = c := by simpa [Continuation.blocks] using ahead
  exact wf.1 a.block _ found b child

/-- A step that signals to a base is the signal to it, or is over it. -/
theorem Awaits.step_inside (wf : m.program.WellFormed) (standard : m.table = .standard)
    (within : s.Within (a.program m.program) bound base) (w : World σ) :
    (∃ signal, s = .resume signal base) ∨
      (s.Over base ∧ (m.step w s).2.standing.GoesOn (·.Within (a.program m.program) bound base)) := by
  by_cases signals : ∃ signal, s = .resume signal base
  · exact .inl signals
  · refine .inr (Machine.step_within (p := a.program m.program) wf standard rfl within ?_ w)
    intro signal same
    exact signals ⟨signal, same⟩

/-- One step of a run takes the activation from one phase to the next. -/
theorem Awaits.step (wf : m.program.WellFormed) (standard : m.table = .standard) (found : a.In m.program)
    (awaits : a.Awaits (a.program m.program) moved φ s) (here : ¬φ.Over) (w : World σ) :
    ∃ φ', a.Reads φ ⟨s, moved⟩ φ' ∧
      a.AwaitsAt (a.program m.program) moved φ' (m.step w s).2.standing := by
  cases φ with
  | entering =>
    obtain rfl := awaits
    refine ⟨.body, .enter, .inr (.inr ?_)⟩
    simp only [Machine.step, Program.evaluate, show m.program.block? a.block = _ from found]
    exact found.within wf (by simp [blocks]) _
  | body =>
    rcases step_inside wf standard awaits w with ⟨signal, rfl⟩ | ⟨atop, goes⟩
    · cases signal with
      | value v =>
        refine ⟨.due (.value v), .done, .inr (.inr ?_)⟩
        rw [guarded, Machine.step_resumed standard (fun _ => rfl) rfl]
        rfl
      | thrown f =>
        rw [guarded, Machine.step_resumed standard (fun _ => rfl) rfl]
        cases chosen : a.clauses.find? (·.catches f) with
        | none =>
          refine ⟨.due (.thrown f), .uncaught chosen, .inr (.inr ?_)⟩
          simp only [Frame.catchFailure, chosen]
          rfl
        | some clause =>
          refine ⟨.caught clause, .caught chosen, .inr (.inr ?_)⟩
          simp only [Frame.catchFailure, chosen]
          exact ⟨List.mem_of_find?_eq_some chosen, _, rfl⟩
    · exact ⟨.body, .body atop, .inr (.inr goes)⟩
  | caught clause =>
    obtain ⟨member, e, rfl⟩ := awaits
    have child : clause.body ∈ a.blocks := by simpa [blocks] using .inr (.inl ⟨clause, member, rfl⟩)
    have within := found.within (e := e) wf child (a.handler moved)
    have quiet : (Step.eval clause.body e (a.handler moved)).NotAt (a.handler moved) := by
      intro signal same
      cases same
    have stays := Machine.step_within (p := a.program m.program) wf standard rfl within quiet w
    exact ⟨.handler, .handle, .inr (.inr stays.2)⟩
  | handler =>
    rcases step_inside wf standard awaits w with ⟨signal, rfl⟩ | ⟨atop, goes⟩
    · refine ⟨.due signal, .handled, .inr (.inr ?_)⟩
      rw [handler, Machine.step_resumed standard (fun _ => rfl) rfl]
      rfl
    · exact ⟨.handler, .handler atop, .inr (.inr goes)⟩
  | due pending =>
    obtain rfl := awaits
    refine ⟨.cleanup pending, .clean, .inr (.inr ?_)⟩
    have fits := found.fits (e := moved a.scope) (c := a.cleanup) (by simp [blocks])
    have first : m.program.evaluate w.heap a.cleanup (moved a.scope) (a.cleaning moved pending) = _ :=
      m.program.evaluate_append (k := []) a.cleanup
    simp only [Machine.step, first]
    refine ⟨_, rfl, ?_, Machine.evaluated_before wf w.heap a.cleanup (moved a.scope)⟩
    exact Machine.leads_fits (m := m) (w := w) rfl fits .eval
  | cleanup pending =>
    rcases step_inside wf standard awaits w with ⟨signal, rfl⟩ | ⟨atop, goes⟩
    · rw [cleaning, Machine.step_resumed standard (fun _ => rfl) rfl]
      cases signal with
      | value v => exact ⟨.leaving pending, .cleaned, .inr (.inr rfl)⟩
      | thrown f => exact ⟨.leaving (.thrown f), .failed, .inr (.inr rfl)⟩
    · refine ⟨.cleanup pending, .cleanup atop ?_, .inr (.inr goes)⟩
      obtain ⟨inner, rfl, _, before⟩ := awaits
      intro e again
      cases inner with
      | resume | invoke | yield => cases again
      | eval b e' k =>
        obtain ⟨rfl, _, _⟩ := Step.eval.inj again
        exact Nat.lt_irrefl _ (before a.cleanup (by simp))
  | leaving signal =>
    obtain rfl := awaits
    exact ⟨.left signal, .leave, .inl ⟨signal, rfl⟩⟩
  | left signal => exact absurd ⟨signal, rfl⟩ here

theorem Course.append (first : a.Course φ t φ') (second : a.Course φ' t' φ'') :
    a.Course φ (t ++ t') φ'' := by
  induction first with
  | nil => exact second
  | cons reads _ ih => exact .cons reads (ih second)

theorem Follows.none : a.Follows φ [] φ := ⟨[], [], rfl, .nil, fun some => absurd rfl some⟩

theorem Follows.of_over (gone : φ.Over) (visits : List Visit) : a.Follows φ visits φ :=
  ⟨[], visits, rfl, .nil, fun _ => gone⟩

theorem Follows.cons (reads : a.Reads φ v φ') (follows : a.Follows φ' visits φ'') :
    a.Follows φ (v :: visits) φ'' := by
  obtain ⟨t, others, rfl, course, after⟩ := follows
  exact ⟨v :: t, others, rfl, .cons reads course, after⟩

theorem Follows.append (first : a.Follows φ visits φ') (second : a.Follows φ' visits' φ'') :
    a.Follows φ (visits ++ visits') φ'' := by
  obtain ⟨t, others, rfl, course, after⟩ := first
  obtain ⟨t', others', rfl, course', after'⟩ := second
  by_cases none : others = []
  · subst none
    exact ⟨t ++ t', others', by simp, course.append course', after'⟩
  · -- Nothing is read once the activation is gone.
    obtain ⟨signal, rfl⟩ := after none
    cases course' with
    | nil => exact ⟨t, others ++ others', by simp, course, fun _ => ⟨signal, rfl⟩⟩
    | cons reads => exact nomatch reads

theorem AwaitsAt.running (awaits : a.AwaitsAt p moved φ (.running s)) (here : ¬φ.Over) :
    a.Awaits p moved φ s := by
  rcases awaits with gone | ended | goes
  · exact absurd gone here
  · exact nomatch ended
  · exact goes

/-- The steps within a budget follow the activation, and the run is left where this awaits it. -/
theorem AwaitsAt.run (wf : m.program.WellFormed) (standard : m.table = .standard)
    (found : a.In m.program) (budget : Nat) {w : World σ}
    (awaits : a.AwaitsAt (a.program m.program) moved φ (.running s)) :
    ∃ φ', a.Follows φ ((m.taken budget w s).map (⟨·, moved⟩)) φ' ∧
      a.AwaitsAt (a.program m.program) moved φ' (.ofOutcome (m.run budget w s).2) := by
  induction budget generalizing w s φ with
  | zero =>
    refine ⟨φ, .none, ?_⟩
    unfold Machine.run
    split
    · exact .inr (.inl rfl)
    · exact awaits
  | succ budget ih =>
    unfold Machine.run Machine.taken
    split
    · exact ⟨φ, .none, .inr (.inl rfl)⟩
    · by_cases gone : φ.Over
      · exact ⟨φ, .of_over gone _, .inl gone⟩
      · obtain ⟨φ', reads, next⟩ := (awaits.running gone).step wf standard found gone w
        rcases step : m.step w s with ⟨w', s' | outcome⟩
        · rw [step] at next
          obtain ⟨φ'', follows, awaits'⟩ := ih (w := w') next
          exact ⟨φ'', follows.cons reads, awaits'⟩
        · rw [step] at next
          exact ⟨φ', Follows.none.cons reads, next⟩

/-- So do the steps of a move. -/
theorem AwaitsAt.move (wf : m.program.WellFormed) (standard : m.table = .standard)
    (found : a.In m.program) {st : Stage σ} (awaits : a.AwaitsAt (a.program m.program) moved φ st.standing)
    (mv : Move) :
    ∃ φ', a.Follows φ ((m.steps st mv).map (⟨·, moved⟩)) φ' ∧
      a.AwaitsAt (a.program m.program) (Machine.carried st mv ∘ moved) φ' (m.move st mv).standing := by
  obtain ⟨w, standing⟩ := st
  cases mv with
  | slice budget =>
    cases standing with
    | running s => exact awaits.run wf standard found budget
    | parked | ended => exact ⟨φ, .none, awaits⟩
  | answer signal =>
    cases standing with
    | parked x =>
      refine ⟨φ, .none, ?_⟩
      rcases awaits with gone | ended | goes
      · exact .inl gone
      · exact nomatch ended
      · exact .inr (.inr (goes signal))
    | running | ended => exact ⟨φ, .none, awaits⟩
  | persist into =>
    cases standing with
    | parked x =>
      refine ⟨φ, .none, ?_⟩
      rcases awaits with gone | ended | goes
      · exact .inl gone
      · exact nomatch ended
      · refine .inr (.inr ?_)
        simp only [Machine.move, Snapshot.restore_capture]
        exact fun signal => (goes signal).relocate
    | running | ended => exact ⟨φ, .none, awaits⟩

theorem AwaitsAt.after (wf : m.program.WellFormed) (standard : m.table = .standard)
    (found : a.In m.program) (moves : List Move) {st : Stage σ}
    (awaits : a.AwaitsAt (a.program m.program) moved φ st.standing) :
    ∃ φ' moved', a.Follows φ (m.visits moved st moves) φ' ∧
      a.AwaitsAt (a.program m.program) moved' φ' (m.after st moves).standing := by
  induction moves generalizing st φ moved with
  | nil => exact ⟨φ, moved, .none, awaits⟩
  | cons mv moves ih =>
    obtain ⟨φ', first, awaits'⟩ := awaits.move wf standard found mv
    obtain ⟨φ'', moved', others, awaits''⟩ := ih awaits'
    exact ⟨φ'', moved', first.append others, awaits''⟩

end Activation

/-- The cleanup of a `try` runs once on each way out of it. The steps that a run takes from the block on
go through the phases of the activation: the body, at most one clause, the first that catches the
failure, and then the cleanup, in the scope of the block or its copy; only then a signal goes on to the
frames below, the one that was pending or the failure of the cleanup. A run that ends before that has
been cancelled. -/
theorem cleanup_runs_once (m : Machine σ) (valid : m.program.validate = .ok ())
    (standard : m.table = .standard) (a : Activation) (found : a.In m.program) (w : World σ)
    (moves : List Move) :
    let opening : Stage σ := ⟨w, .running (.eval a.block a.scope a.next)⟩
    ∃ t others φ, m.visits id opening moves = t ++ others ∧ a.Course .entering t φ ∧
      (others ≠ [] → φ.Over) ∧ t.countP a.evaluatesCleanup = φ.cleanups ∧
      t.countP a.offers = φ.offers ∧ t.countP a.leaves = φ.exits ∧
      ∀ outcome, (m.after opening moves).standing = .ended outcome →
        φ.Over ∨ outcome = .cancelled := by
  intro opening
  have wf := m.program.validate_eq_ok_iff.1 valid
  have start : a.AwaitsAt (a.program m.program) id .entering opening.standing := by
    refine .inr (.inr ?_)
    have same : a.rest id = a.next := List.map_id a.next
    simp [opening, Standing.GoesOn, Activation.Awaits, same]
  obtain ⟨φ, moved, ⟨t, others, visits, course, after⟩, awaits⟩ := start.after wf standard found moves
  have cleanups := course.tally fun _ _ _ reads => reads.cleanups
  have offers := course.tally fun _ _ _ reads => reads.offers
  have exits := course.tally fun _ _ _ reads => reads.exits
  refine ⟨t, others, φ, visits, course, after, ?_, ?_, ?_, ?_⟩
  · simpa [Activation.Phase.cleanups] using cleanups.symm
  · simpa [Activation.Phase.offers] using offers.symm
  · simpa [Activation.Phase.exits] using exits.symm
  · intro outcome ended
    rw [ended] at awaits
    rcases awaits with gone | cancelled | goes
    · exact .inl gone
    · exact .inr (Standing.ended.inj cancelled)
    · exact goes.elim

namespace Stage
variable {σ : Type}

def value? (st : Stage σ) : Option Value :=
  match st.standing with
  | .ended (.completed v) => some v
  | _ => none

theorem of_value? {st : Stage σ} (returned : st.value? = some v) :
    st.standing = .ended (.completed v) := by
  unfold value? at returned
  split at returned
  · next v' ended => rw [ended, Option.some.inj returned]
  · exact nomatch returned

end Stage

/-- A failure is caught, the cleanup waits for the host, and the run is restored before it is answered:
the cleanup has been evaluated once. -/
theorem restored_cleanup_runs_once :
    ∃ (m : Machine Unit) (a : Activation) (w : World Unit) (moves : List Move) (t others : List Visit),
      m.program.validate = .ok () ∧ m.table = .standard ∧ a.In m.program ∧
        m.visits id ⟨w, .running (.eval a.block a.scope a.next)⟩ moves = t ++ others ∧
        t.countP a.evaluatesCleanup = 1 ∧ t.countP a.offers = 1 ∧ t.countP a.leaves = 1 := by
  let m : Machine Unit :=
    Program.machine ⟨#[.constant (.int 1), .throw 0, .constant (.int 2), .yield 2,
      .tryCatch 1 [⟨some "Other", "f", 0⟩, ⟨none, "f", 2⟩] (some 3)], 4⟩ fun _ u => (.ok .null, u)
  let a : Activation := ⟨4, 1, [⟨some "Other", "f", 0⟩, ⟨none, "f", 2⟩], 3, 0, []⟩
  let moves : List Move := [.slice 12, .persist .empty, .answer (.value .null), .slice 4]
  have returned : (m.after ⟨⟨.empty, ()⟩, .running (.eval a.block a.scope a.next)⟩ moves).value?.isSome := by
    decide +kernel
  obtain ⟨v, completed⟩ := Option.isSome_iff_exists.1 returned
  obtain ⟨t, others, φ, visits, _, _, cleanups, offers, exits, ended⟩ :=
    cleanup_runs_once m rfl rfl a rfl ⟨.empty, ()⟩ moves
  obtain ⟨signal, rfl⟩ | cancelled := ended _ (Stage.of_value? completed)
  · exact ⟨m, a, _, moves, t, others, rfl, rfl, rfl, visits, cleanups, offers, exits⟩
  · exact nomatch cancelled

end FlowScript
