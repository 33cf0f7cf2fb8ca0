import FlowScript.Proofs.Driving
import FlowScript.Proofs.Parking
import FlowScript.Proofs.Stage

/-! A valid program never meets a fault of the engine. Every frame of its runs holds what its resume
point takes, and every block that is evaluated is reached from the root. -/
namespace FlowScript

/-- The blocks below the root. -/
inductive Program.Descends (p : Program) : BlockId → Prop where
  | root : p.Descends p.root
  | child : p.Descends b → p.block? b = some block → c ∈ block.children → p.Descends c

/-- What a resume point needs of the state captured for it. -/
inductive Captured.Fits (p : Program) : ResumePoint → Captured → Prop where
  | decide : p.Descends rhs → Fits p .decide (.logical op rhs)
  | not : Fits p .not .not
  | lhs : p.Descends rhs → Fits p .lhs (.binaryLhs op rhs)
  | rhs : Fits p .rhs (.binaryRhs op lhs)
  | declare : Fits p .declare (.declare name)
  | assign : Fits p .assign (.assign name)
  | branch : p.Descends thenBranch → (∀ b ∈ elseBranch, p.Descends b) →
      Fits p .branch (.branch thenBranch elseBranch)
  | loopTest : p.Descends test → p.Descends body → Fits p .loopTest (.loop test body)
  | loopBody : p.Descends test → p.Descends body → Fits p .loopBody (.loop test body)
  | sequence : (∀ b ∈ body, p.Descends b) → 1 ≤ index → index < body.length →
      Fits p .sequence (.sequence body index)
  | property : Fits p .property (.property name isAttribute)
  | propertyStore : Fits p .propertyStore (.propertyStore target name isAttribute)
  | storeReceiver : Fits p .storeReceiver (.storeReceiver target value)
  | callReceiver : (∀ b ∈ args, p.Descends b) → Fits p .callReceiver (.call method args none [])
  | callArgument : (∀ b ∈ args, p.Descends b) → evaluated.length < args.length →
      Fits p .callArgument (.call method args (some receiver) evaluated)
  | throw : Fits p .throw .throw
  | guarded {last : Option BlockId} : (∀ clause ∈ clauses, p.Descends clause.body) →
      (∀ b ∈ last, p.Descends b) → Fits p .guarded (.guarded clauses last)
  | handler {last : Option BlockId} : (∀ b ∈ last, p.Descends b) → Fits p .handler (.handler last)
  | cleanup : Fits p .cleanup (.cleanup pending)
  | request : Fits p .request .yield

def Continuation.Fits (p : Program) (k : Continuation) : Prop := ∀ f ∈ k, f.captured.Fits p f.point

/-- The blocks of the step descend from the root, and its frames fit. -/
def Step.Fits (p : Program) : Step → Prop
  | .eval b _ k => p.Descends b ∧ k.Fits p
  | .resume _ k | .invoke _ k | .yield _ k => k.Fits p

def Standing.Fits (p : Program) : Standing → Prop
  | .running s => s.Fits p
  | .parked x => x.k.Fits p
  | .ended _ => True

variable {p : Program} {k : Continuation} {e : ScopeId}

theorem Program.Descends.found (wf : p.WellFormed) (descends : p.Descends b) :
    ∃ block, p.block? b = some block := by
  have inside : b < p.size := by
    induction descends with
    | root => exact wf.2
    | child _ found member ih =>
      exact Nat.lt_trans (wf.1 _ _ found _ member) ih
  exact ⟨_, Array.getElem?_eq_getElem inside⟩

@[simp] theorem Continuation.fits_cons :
    Fits p (f :: k) ↔ f.captured.Fits p f.point ∧ Fits p k := by
  simp [Fits]

namespace Step

@[simp] theorem fits_evalFor :
    (evalFor b e point captured k).Fits p ↔ p.Descends b ∧ captured.Fits p point ∧ k.Fits p := by
  simp [evalFor, Fits]

@[simp] theorem fits_value : (value v k).Fits p ↔ k.Fits p := Iff.rfl

@[simp] theorem fits_thrown : (thrown f k).Fits p ↔ k.Fits p := Iff.rfl

theorem nextArgument_fits (args_descend : ∀ b ∈ args, p.Descends b) (below : k.Fits p) :
    (nextArgument method args receiver evaluated e k).Fits p := by
  unfold nextArgument
  split
  · exact below
  · next arg here =>
    obtain ⟨lt, _⟩ := List.getElem?_eq_some_iff.1 here
    exact fits_evalFor.2 ⟨args_descend arg (List.mem_of_getElem? here), .callArgument args_descend lt, below⟩

theorem ofSequence_fits (body_descends : ∀ b ∈ body, p.Descends b) (below : k.Fits p) :
    (ofSequence body e k).Fits p := by
  unfold ofSequence
  split
  · exact below
  · exact ⟨body_descends _ (by simp), below⟩
  · next first rest not_one =>
    refine fits_evalFor.2 ⟨body_descends _ (by simp), .sequence body_descends (Nat.le_refl 1) ?_, below⟩
    cases rest with
    | nil => exact absurd rfl not_one
    | cons => simp

end Step

namespace Frame

@[simp] theorem ofResult_fits : (ofResult r k).Fits p ↔ k.Fits p := by cases r <;> simp [ofResult]

theorem leave_fits (cleanup_descends : ∀ b ∈ cleanup, p.Descends b) (below : k.Fits p) :
    (leave cleanup pending e k).Fits p := by
  cases cleanup with
  | none => exact below
  | some b => exact Step.fits_evalFor.2 ⟨cleanup_descends b rfl, .cleanup, below⟩

theorem afterLhs_fits (rhs_descends : p.Descends rhs) (below : k.Fits p) :
    (afterLhs op rhs v e k).Fits p := by
  unfold afterLhs
  split
  · exact below
  · exact below
  · exact ⟨rhs_descends, below⟩

theorem afterCondition_fits (then_descends : p.Descends thenBranch)
    (else_descends : ∀ b ∈ elseBranch, p.Descends b) (below : k.Fits p) :
    (afterCondition thenBranch elseBranch v e k).Fits p := by
  unfold afterCondition
  split
  · exact ⟨then_descends, below⟩
  · exact ⟨else_descends _ rfl, below⟩
  · exact below

theorem afterElement_fits (body_descends : ∀ b ∈ body, p.Descends b) (below : k.Fits p) :
    (afterElement body index v e k).Fits p := by
  unfold afterElement
  split
  · exact below
  · next b here =>
    obtain ⟨lt, _⟩ := List.getElem?_eq_some_iff.1 here
    have descends := body_descends b (List.mem_of_getElem? here)
    split
    · exact ⟨descends, below⟩
    · exact Step.fits_evalFor.2 ⟨descends, .sequence body_descends (by omega) (by omega), below⟩

theorem catchFailure_fits (clauses_descend : ∀ clause ∈ clauses, p.Descends clause.body)
    (cleanup_descends : ∀ b ∈ cleanup, p.Descends b) (below : k.Fits p) :
    (catchFailure clauses cleanup thrown e k h).2.Fits p := by
  unfold catchFailure
  split
  · next clause found =>
    refine ⟨clauses_descend clause (List.mem_of_find?_eq_some found), ?_⟩
    exact Continuation.fits_cons.2 ⟨.handler cleanup_descends, below⟩
  · exact leave_fits cleanup_descends below

theorem onValue_fits {go : Value → Resumption} (below : k.Fits p)
    (goes : ∀ v h, (go v h).2.Fits p) : ∀ h, (onValue s k go h).2.Fits p := by
  intro h
  cases s with
  | value v => exact goes v h
  | thrown f => exact below

/-- A frame that fits is resumed without a fault, and the step it leads to fits. -/
theorem resume_fits {f : Frame} (fits : f.captured.Fits p f.point) (below : k.Fits p) (s : Signal) :
    ∃ go, f.resume s k = .ok go ∧ ∀ h, (go h).2.Fits p := by
  obtain ⟨point, e, captured⟩ := f
  cases fits with
  | decide rhs => exact ⟨_, rfl, onValue_fits below fun _ _ => afterLhs_fits rhs below⟩
  | not => exact ⟨_, rfl, onValue_fits below fun _ _ => below⟩
  | lhs rhs => exact ⟨_, rfl, onValue_fits below fun _ _ => Step.fits_evalFor.2 ⟨rhs, .rhs, below⟩⟩
  | rhs => exact ⟨_, rfl, onValue_fits below fun _ _ => ofResult_fits.2 below⟩
  | declare => exact ⟨_, rfl, onValue_fits below fun _ _ => below⟩
  | assign => exact ⟨_, rfl, onValue_fits below fun _ _ => below⟩
  | branch thens elses =>
    exact ⟨_, rfl, onValue_fits below fun _ _ => afterCondition_fits thens elses below⟩
  | loopTest cond body =>
    refine ⟨_, rfl, onValue_fits below fun v h => ?_⟩
    cases v.truthy
    · exact below
    · exact Step.fits_evalFor.2 ⟨body, .loopBody cond body, below⟩
  | loopBody cond body =>
    exact ⟨_, rfl, onValue_fits below fun _ _ =>
      Step.fits_evalFor.2 ⟨cond, .loopTest cond body, below⟩⟩
  | sequence body _ _ => exact ⟨_, rfl, onValue_fits below fun _ _ => afterElement_fits body below⟩
  | property => exact ⟨_, rfl, onValue_fits below fun _ _ => below⟩
  | propertyStore =>
    refine ⟨_, rfl, onValue_fits below fun v h => ?_⟩
    unfold storeProperty
    split
    · exact below
    · exact Continuation.fits_cons.2 ⟨.storeReceiver, below⟩
  | storeReceiver => exact ⟨_, rfl, onValue_fits below fun _ _ => below⟩
  | callReceiver args =>
    exact ⟨_, rfl, onValue_fits below fun _ _ => Step.nextArgument_fits args below⟩
  | callArgument args _ =>
    exact ⟨_, rfl, onValue_fits below fun _ _ => Step.nextArgument_fits args below⟩
  | throw => exact ⟨_, rfl, onValue_fits below fun _ _ => below⟩
  | guarded clauses cleanup =>
    cases s with
    | value v => exact ⟨_, rfl, fun _ => leave_fits cleanup below⟩
    | thrown failure => exact ⟨_, rfl, fun _ => catchFailure_fits clauses cleanup below⟩
  | handler cleanup => exact ⟨_, rfl, fun _ => leave_fits cleanup below⟩
  | cleanup => exact ⟨_, rfl, onValue_fits below fun _ _ => below⟩
  | request => exact ⟨_, rfl, onValue_fits below fun _ _ => below⟩

end Frame

theorem Block.evaluate_fits {block : Block} (children : ∀ c ∈ block.children, p.Descends c)
    (below : k.Fits p) (h : Heap) : (block.evaluate h e k).2.Fits p := by
  cases block with
  | constant => exact below
  | readVariable name =>
    simp only [evaluate]
    split <;> exact below
  | declare name init =>
    cases init with
    | none => exact below
    | some b => exact Step.fits_evalFor.2 ⟨children b (by simp [Block.children]), .declare, below⟩
  | assign => exact Step.fits_evalFor.2 ⟨children _ (by simp [Block.children]), .assign, below⟩
  | logical =>
    simp only [Block.children, List.forall_mem_cons] at children
    exact Step.fits_evalFor.2 ⟨children.1, .decide children.2.1, below⟩
  | not => exact Step.fits_evalFor.2 ⟨children _ (by simp [Block.children]), .not, below⟩
  | binary =>
    simp only [Block.children, List.forall_mem_cons] at children
    exact Step.fits_evalFor.2 ⟨children.1, .lhs children.2.1, below⟩
  | ifElse =>
    simp only [Block.children, List.forall_mem_cons, Option.mem_toList] at children
    exact Step.fits_evalFor.2 ⟨children.1, .branch children.2.1 children.2.2, below⟩
  | whileLoop =>
    simp only [Block.children, List.forall_mem_cons] at children
    exact Step.fits_evalFor.2 ⟨children.1, .loopTest children.1 children.2.1, below⟩
  | sequence body => exact Step.ofSequence_fits children below
  | scope body => exact ⟨children body (by simp [Block.children]), below⟩
  | property => exact Step.fits_evalFor.2 ⟨children _ (by simp [Block.children]), .property, below⟩
  | setProperty =>
    exact Step.fits_evalFor.2 ⟨children _ (by simp [Block.children]), .propertyStore, below⟩
  | call receiver method args =>
    have arguments : ∀ b ∈ args, p.Descends b := fun b member => children b (by simp [Block.children, member])
    cases receiver with
    | none => exact Step.nextArgument_fits arguments below
    | some b =>
      exact Step.fits_evalFor.2 ⟨children b (by simp [Block.children]), .callReceiver arguments, below⟩
  | throw => exact Step.fits_evalFor.2 ⟨children _ (by simp [Block.children]), .throw, below⟩
  | tryCatch body clauses cleanup =>
    simp only [Block.children, List.cons_append, List.forall_mem_cons, List.forall_mem_append,
      List.forall_mem_map, Option.mem_toList] at children
    exact Step.fits_evalFor.2 ⟨children.1, .guarded children.2.1 children.2.2, below⟩
  | yield => exact Step.fits_evalFor.2 ⟨children _ (by simp [Block.children]), .request, below⟩

theorem Program.evaluate_fits (wf : p.WellFormed) (descends : p.Descends b) (below : k.Fits p)
    (h : Heap) : (p.evaluate h b e k).2.Fits p := by
  obtain ⟨block, found⟩ := descends.found wf
  simp only [evaluate, found]
  exact Block.evaluate_fits (fun c member => .child descends found member) below h

theorem Step.Fits.standing {s : Step} {standing : Standing} (fits : s.Fits p)
    (left : standing.At s) : standing.Fits p := by
  cases standing with
  | running s' => exact left ▸ fits
  | parked x =>
    obtain rfl := left
    exact fits
  | ended => trivial

/-- Frames that fit take every signal. -/
theorem Table.deliver_fits (fits : k.Fits p) (h : Heap) (s : Signal) :
    ∃ delivery, (standard.deliver h k s).2 = .ok delivery ∧ ∀ step, delivery = .next step → step.Fits p := by
  match k with
  | [] => exact ⟨.halted s, rfl, by simp⟩
  | f :: rest =>
    obtain ⟨top, below⟩ := Continuation.fits_cons.1 fits
    simp only [deliver, standard_contains, Bool.not_true, Bool.false_eq_true, if_false]
    split
    · exact ⟨.next (.resume s rest), rfl, by rintro _ ⟨⟩; exact below⟩
    · obtain ⟨go, resumed, goes⟩ := Frame.resume_fits top below s
      simp only [resumeInnermost, resumed]
      exact ⟨.next (go h).2, rfl, by rintro _ ⟨⟩; exact goes h⟩

namespace Machine
variable {σ : Type} {m : Machine σ}

theorem step_fits (wf : m.program.WellFormed) (standard : m.table = .standard) {w : World σ}
    (fits : s.Fits m.program) (step : m.step w s = (w', .next s')) : s'.Fits m.program := by
  cases s with
  | eval b e k =>
    obtain ⟨-, rfl⟩ : _ ∧ (m.program.evaluate w.heap b e k).2 = s' := by simpa [Machine.step] using step
    exact Program.evaluate_fits wf fits.1 fits.2 w.heap
  | resume signal k =>
    obtain ⟨delivery, delivered, goes⟩ := Table.deliver_fits fits w.heap signal
    obtain ⟨-, next⟩ : _ ∧ turn (Table.standard.deliver w.heap k signal).2 = .next s' := by
      simpa [Machine.step, standard] using step
    rw [delivered] at next
    cases delivery with
    | next s₁ => exact Turn.next.inj next ▸ goes s₁ rfl
    | halted signal => cases signal <;> simp [turn] at next
  | invoke call k =>
    obtain ⟨-, rfl⟩ : _ ∧ Frame.ofResult (m.host call w.host).1 k = s' := by
      simpa [Machine.step] using step
    exact Frame.ofResult_fits.2 fits
  | yield request k => simp [Machine.step] at step

theorem run_fits (wf : m.program.WellFormed) (standard : m.table = .standard) (n : Nat)
    (w : World σ) (fits : s.Fits m.program) :
    (Standing.ofOutcome (m.run n w s).2).Fits m.program := by
  obtain ⟨s', fits', left⟩ := run_invariant (I := fun _ s => s.Fits m.program)
    (fun _ _ _ _ fits step => step_fits wf standard fits step) n (w := w) fits
  exact fits'.standing left

theorem restored_fits (fits : x.k.Fits p) (h into : Heap) :
    ∃ h' y, (Snapshot.capture h x).restore .standard into = (h', .ok y) ∧ y.k.Fits p := by
  refine ⟨_, _, Snapshot.restore_capture h into x, ?_⟩
  simpa only [Continuation.Fits, List.forall_mem_map, Recorded.relocate] using fits

theorem move_fits (wf : m.program.WellFormed) (standard : m.table = .standard) {st : Stage σ}
    (fits : st.standing.Fits m.program) (mv : Move) : (m.move st mv).standing.Fits m.program := by
  obtain ⟨w, standing⟩ := st
  match mv, standing with
  | .slice budget, .running s => exact run_fits wf standard budget w fits
  | .answer signal, .parked x => exact fits
  | .persist into, .parked x =>
    obtain ⟨h, y, restored, fits'⟩ := restored_fits (x := x) fits w.heap into
    simp only [move, restored]
    exact fits'
  | .slice _, .parked _ | .slice _, .ended _ | .answer _, .running _ | .answer _, .ended _
  | .persist _, .running _ | .persist _, .ended _ => exact fits

theorem opening_fits (m : Machine σ) (w : World σ) (e : ScopeId) :
    (m.opening w e).standing.Fits m.program := ⟨.root, by simp [Continuation.Fits]⟩

theorem after_fits (wf : m.program.WellFormed) (standard : m.table = .standard) {st : Stage σ}
    (fits : st.standing.Fits m.program) (moves : List Move) :
    (m.after st moves).standing.Fits m.program :=
  after_invariant (I := fun st => st.standing.Fits m.program)
    (fun _ mv _ fits => move_fits wf standard fits mv) fits fun _ _ => trivial

end Machine

/-- Nothing is amiss at the step: its signal is delivered, its block is one of the program's and below
the root, and the cursors of sequences and of calls stand inside. -/
structure Step.Safe (m : Machine σ) (h : Heap) (s : Step) : Prop where
  delivers : ∀ signal k, s = .resume signal k → ∃ delivery, (m.table.deliver h k signal).2 = .ok delivery
  evaluates : ∀ b e k, s = .eval b e k → ∃ block, m.program.block? b = some block
  descends : ∀ b e k, s = .eval b e k → m.program.Descends b
  sequences : ∀ f ∈ s.rest, f.point = .sequence →
    ∃ body index, f.captured = .sequence body index ∧ 1 ≤ index ∧ index < body.length
  arguments : ∀ f ∈ s.rest, f.point = .callArgument →
    ∃ method args receiver evaluated, f.captured = .call method args (some receiver) evaluated ∧
      evaluated.length < args.length

theorem Step.Fits.rest {s : Step} (fits : s.Fits p) : s.rest.Fits p := by
  cases s with
  | eval => exact fits.2
  | resume | invoke | yield => exact fits

theorem Step.Fits.safe {m : Machine σ} (wf : m.program.WellFormed) (standard : m.table = .standard)
    {s : Step} (fits : s.Fits m.program) (h : Heap) : s.Safe m h where
  delivers := by
    rintro signal k rfl
    obtain ⟨delivery, delivered, _⟩ := Table.deliver_fits fits h signal
    exact ⟨delivery, standard ▸ delivered⟩
  evaluates := by
    rintro b e k rfl
    exact fits.1.found wf
  descends := by
    rintro b e k rfl
    exact fits.1
  sequences := by
    rintro ⟨point, e, captured⟩ member rfl
    cases fits.rest _ member with
    | sequence _ first inside => exact ⟨_, _, rfl, first, inside⟩
  arguments := by
    rintro ⟨point, e, captured⟩ member rfl
    cases fits.rest _ member with
    | callArgument _ left => exact ⟨_, _, _, _, rfl, left⟩

/-- Whatever moves the host makes, every step that a run of a valid program comes to is safe. -/
theorem valid_program_is_safe (m : Machine σ) (valid : m.program.validate = .ok ())
    (standard : m.table = .standard) (w w' : World σ) (e : ScopeId) (moves : List Move)
    (reached : m.after (m.opening w e) moves = ⟨w', .running s⟩) : s.Safe m w'.heap := by
  have wf := m.program.validate_eq_ok_iff.1 valid
  have fits := Machine.after_fits wf standard (m.opening_fits w e) moves
  rw [reached] at fits
  exact fits.safe wf standard w'.heap

/-- A sequence that has been written out at its first element goes on with the second. -/
theorem restored_sequence_is_safe :
    ∃ (m : Machine Unit) (moves : List Move) (w' : World Unit) (s : Step),
      m.program.validate = .ok () ∧ m.table = .standard ∧
        m.after (m.opening ⟨.empty, ()⟩ 0) moves = ⟨w', .running s⟩ ∧ s.rest.length = 1 ∧
        s.Safe m w'.heap := by
  let m : Machine Unit :=
    Program.machine ⟨#[.constant .null, .yield 0, .sequence [1, 0, 0]], 2⟩ fun _ u => (.ok .null, u)
  let moves : List Move := [.slice 5, .persist .empty, .answer (.value .null), .slice 1]
  have one_frame : (m.after (m.opening ⟨.empty, ()⟩ 0) moves).step?.any (·.rest.length == 1) := by
    decide +kernel
  obtain ⟨s, running, frames⟩ := (Option.any_eq_true ..).1 one_frame
  have reached := Stage.of_step? running
  refine ⟨m, moves, _, s, rfl, rfl, reached, beq_iff_eq.1 frames, ?_⟩
  exact valid_program_is_safe m rfl rfl ⟨.empty, ()⟩ _ 0 moves reached

end FlowScript
