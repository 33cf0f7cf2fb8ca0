import FlowScript.Proofs.Journey
import FlowScript.Proofs.Locality

/-! The effort that is left in a run. Each step lessens it, but where a value comes to the test of a loop:
frames hold blocks before the one that has put them there, so what they lead to is counted with it. Only
loops run for ever. -/
namespace FlowScript

namespace Program

/-- The blocks that the block of a number may evaluate. -/
def children (p : Program) (b : BlockId) : List BlockId := ((p.block? b).map Block.children).getD []

/-- More than the block takes on its own, with the blocks before it that it names counted once each. -/
def effort (p : Program) (b : BlockId) : Nat :=
  3 + ((p.children b).map fun c => if _before : c < b then 4 + p.effort c else 0).sum
termination_by b

/-- The effort of blocks, with what their frames take. -/
def load (p : Program) (blocks : List BlockId) : Nat := (blocks.map fun b => 4 + p.effort b).sum

/-- No block is a loop. -/
def Loopless (p : Program) : Prop := ∀ b cond body, p.block? b ≠ some (.whileLoop cond body)

variable {p : Program} {b : BlockId}

@[simp] theorem load_nil : p.load [] = 0 := rfl

@[simp] theorem load_cons (b : BlockId) (blocks : List BlockId) :
    p.load (b :: blocks) = 4 + p.effort b + p.load blocks := rfl

@[simp] theorem load_append (first second : List BlockId) :
    p.load (first ++ second) = p.load first + p.load second := by
  simp [load]

theorem load_drop (blocks : List BlockId) (i : Nat) :
    p.load (blocks.drop i) = p.load blocks[i]?.toList + p.load (blocks.drop (i + 1)) := by
  rw [← load_append, ← List.drop_eq_getElem?_toList_append]

theorem le_load_of_mem {blocks : List BlockId} (member : b ∈ blocks) : 4 + p.effort b ≤ p.load blocks := by
  obtain ⟨before, behind, rfl⟩ := List.append_of_mem member
  simp only [load_append, load_cons]
  omega

theorem effort_ge (p : Program) (b : BlockId) : 3 ≤ p.effort b := by
  rw [effort]
  exact Nat.le_add_right ..

theorem effort_eq (wf : p.WellFormed) (found : p.block? b = some block) :
    p.effort b = 3 + p.load block.children := by
  have named : p.children b = block.children := by simp [children, found]
  rw [effort, load, named]
  refine congrArg (fun l : List Nat => 3 + l.sum) (List.map_congr_left fun c member => ?_)
  exact dif_pos (wf.1 b block found c member)

end Program

/-! ### What frames and steps take -/

def ResumePoint.loops : ResumePoint → Bool
  | .loopTest | .loopBody => true
  | _ => false

namespace Frame

/-- The blocks that the frame has before it. The body of a loop is not counted: it comes with the next
value for its test. -/
def ahead (f : Frame) : List BlockId :=
  match f.point, f.captured with
  | .loopTest, .loop _ _ => []
  | _, .loop cond _ => [cond]
  | .callArgument, .call _ args _ evaluated => args.drop (evaluated.length + 1)
  | _, .call _ args _ evaluated => args.drop evaluated.length
  | _, .sequence body index => body.drop index
  | _, captured => captured.blocks

/-- A stored receiver is what is left of a frame that has made its call. -/
def effort (p : Program) (f : Frame) : Nat :=
  (if f.point = .storeReceiver then 1 else 3) + p.load f.ahead

theorem effort_pos (f : Frame) : 0 < f.effort p := by
  unfold effort
  split <;> omega

theorem effort_le (f : Frame) (p : Program) : f.effort p ≤ 3 + p.load f.ahead := by
  unfold effort
  split <;> omega

end Frame

def Continuation.effort (p : Program) (k : Continuation) : Nat := (k.map (Frame.effort p)).sum

@[simp] theorem Continuation.effort_nil : effort p [] = 0 := rfl

@[simp] theorem Continuation.effort_cons : effort p (f :: k) = f.effort p + effort p k := rfl

namespace Step

def effort (p : Program) : Step → Nat
  | .eval b _ k => p.effort b + k.effort p
  | .resume _ k => 1 + k.effort p
  | .invoke _ k | .yield _ k => 2 + k.effort p

/-- A value comes to the test of a loop. -/
def turns : Step → Bool
  | .resume (.value _) (f :: _) => decide (f.point = .loopTest)
  | _ => false

theorem effort_pos (s : Step) : 0 < s.effort p := by
  cases s with
  | eval b => exact Nat.lt_of_lt_of_le (Nat.zero_lt_of_lt (p.effort_ge b)) (Nat.le_add_right ..)
  | resume | invoke | yield => exact Nat.lt_of_lt_of_le (by decide) (Nat.le_add_right ..)

theorem effort_onto (s : Step) (k : Continuation) : (s.onto k).effort p = s.effort p + k.effort p := by
  cases s <;> simp [onto, effort, Continuation.effort, Nat.add_assoc]

/-- The step takes less, and has the frame of a loop only where there is a loop. -/
structure Takes (p : Program) (bound : Nat) (looping : Bool) (s : Step) : Prop where
  lt : s.effort p < bound
  frames : ∀ f ∈ s.rest, f.point.loops = true → looping = true

namespace Takes
variable {p : Program} {bound : Nat} {looping : Bool} {e : ScopeId}

theorem resume (lt : 1 < bound) : Takes p bound looping (.resume signal []) :=
  ⟨lt, fun _ member => absurd member List.not_mem_nil⟩

theorem invoke (lt : 2 < bound) : Takes p bound looping (.invoke call []) :=
  ⟨lt, fun _ member => absurd member List.not_mem_nil⟩

theorem eval (le : p.load [b] ≤ bound) : Takes p bound looping (.eval b e []) :=
  ⟨Nat.lt_of_lt_of_le (Nat.lt_add_of_pos_left (by decide)) le, fun _ member => absurd member List.not_mem_nil⟩

theorem evalOver {f : Frame} (le : p.load (b :: f.ahead) ≤ bound)
    (loops : f.point.loops = true → looping = true) : Takes p bound looping (.eval b e [f]) where
  lt := by
    have own := f.effort_le p
    simp only [Program.load_cons] at le
    simp only [effort, Continuation.effort_cons, Continuation.effort_nil]
    omega
  frames _ member := by
    obtain rfl := List.mem_singleton.1 member
    exact loops

theorem nextArgument (lt : 2 + p.load (args.drop evaluated.length) < bound) :
    Takes p bound looping (.nextArgument method args receiver evaluated e []) := by
  rw [Program.load_drop] at lt
  unfold Step.nextArgument
  split
  · exact .invoke (by omega)
  · next arg here =>
    simp only [here, Option.toList_some, Program.load_cons, Program.load_nil] at lt
    refine .evalOver ?_ nofun
    simp only [Frame.ahead, Program.load_cons]
    omega

theorem ofSequence (lt : 2 + p.load body < bound) : Takes p bound looping (.ofSequence body e []) := by
  unfold Step.ofSequence
  split
  · exact .resume (by omega)
  · exact .eval (by omega)
  · refine .evalOver ?_ nofun
    simp only [Frame.ahead, List.drop_succ_cons, List.drop_zero]
    omega

theorem ofResult (lt : 1 < bound) : Takes p bound looping (Frame.ofResult r []) := by
  cases r <;> exact .resume lt

theorem leave (lt : 2 + p.load cleanup.toList < bound) :
    Takes p bound looping (Frame.leave cleanup pending e []) := by
  cases cleanup with
  | none => exact .resume (by omega)
  | some block => exact .evalOver (Nat.le_of_lt (Nat.lt_of_le_of_lt (Nat.le_add_left ..) lt)) nofun

theorem afterLhs (lt : 2 + p.load [rhs] < bound) : Takes p bound looping (Frame.afterLhs op rhs v e []) := by
  unfold Frame.afterLhs
  split
  · exact .resume (by omega)
  · exact .resume (by omega)
  · exact .eval (by omega)

theorem afterCondition (lt : 2 + p.load (thenBranch :: elseBranch.toList) < bound) :
    Takes p bound looping (Frame.afterCondition thenBranch elseBranch v e []) := by
  simp only [Program.load_cons] at lt
  unfold Frame.afterCondition
  split
  · refine .eval ?_
    simp only [Program.load_cons, Program.load_nil]
    omega
  · simp only [Option.toList_some] at lt
    exact .eval (by omega)
  · exact .resume (by omega)

theorem afterElement (lt : 2 + p.load (body.drop index) < bound) :
    Takes p bound looping (Frame.afterElement body index v e []) := by
  rw [Program.load_drop] at lt
  unfold Frame.afterElement
  split
  · exact .resume (by omega)
  · next block here =>
    simp only [here, Option.toList_some] at lt
    split
    · exact .eval (by omega)
    · refine .evalOver ?_ nofun
      simp only [Frame.ahead, Program.load_cons, Program.load_nil] at lt ⊢
      omega

theorem catchFailure (lt : 2 + p.load (clauses.map CatchClause.body ++ cleanup.toList) < bound) (h : Heap) :
    Takes p bound looping (Frame.catchFailure clauses cleanup f e [] h).2 := by
  rw [Program.load_append] at lt
  unfold Frame.catchFailure
  split
  · next clause found =>
    have caught : 4 + p.effort clause.body ≤ _ :=
      p.le_load_of_mem (List.mem_map_of_mem (f := CatchClause.body) (List.mem_of_find?_eq_some found))
    refine .evalOver ?_ nofun
    simp only [Frame.ahead, Captured.blocks, Program.load_cons]
    omega
  · exact .leave (by omega)

theorem storeProperty (lt : 3 < bound) (h : Heap) :
    Takes p bound looping (Frame.storeProperty target name isAttribute v e [] h).2 := by
  unfold Frame.storeProperty
  split
  · exact .resume (by omega)
  · refine ⟨lt, fun _ member => ?_⟩
    obtain rfl := List.mem_singleton.1 member
    exact nofun

theorem onValue {go : Value → Resumption} (lt : 1 < bound) (h : Heap)
    (goes : ∀ v, s = .value v → Takes p bound looping (go v h).2) :
    Takes p bound looping (Frame.onValue s [] go h).2 := by
  cases s with
  | value v => exact goes v rfl
  | thrown f => exact .resume lt

end Takes
end Step

/-- A resumed frame leads to less than it has before it, unless it turns a loop. -/
theorem Frame.takes_resume {f : Frame} (resumed : f.resume s [] = .ok go)
    (still : (Step.resume s (f :: k)).turns = false) (h : Heap) :
    (go h).2.Takes p (1 + f.effort p) f.point.loops := by
  have suits := suits_of_resume resumed
  have passes : 1 < 1 + f.effort p := Nat.lt_add_of_pos_right f.effort_pos
  have room : f.point ≠ .storeReceiver → 2 + p.load f.ahead < 1 + f.effort p := by
    intro other
    simp only [effort, other, if_false]
    omega
  have spare : f.point ≠ .storeReceiver → 3 < 1 + f.effort p := by
    intro other
    simp only [effort, other, if_false]
    omega
  obtain ⟨point, e, captured⟩ := f
  cases suits with
  | decide =>
    cases resumed
    exact .onValue passes h fun _ _ => .afterLhs (room nofun)
  | not | throw | cleanup | declare | assign | storeReceiver =>
    cases resumed
    exact .onValue passes h fun _ _ => .resume passes
  | lhs =>
    cases resumed
    exact .onValue passes h fun _ _ =>
      .evalOver (Nat.le_of_lt (Nat.lt_of_le_of_lt (Nat.le_add_left _ 2) (room nofun))) nofun
  | loopBody =>
    cases resumed
    exact .onValue passes h fun _ _ =>
      .evalOver (Nat.le_of_lt (Nat.lt_of_le_of_lt (Nat.le_add_left _ 2) (room nofun))) fun _ => rfl
  | rhs =>
    cases resumed
    exact .onValue passes h fun _ _ => .ofResult passes
  | branch =>
    cases resumed
    exact .onValue passes h fun _ _ => .afterCondition (room nofun)
  | loopTest =>
    cases resumed
    refine .onValue passes h fun v is => ?_
    subst is
    exact nomatch still
  | sequence =>
    cases resumed
    exact .onValue passes h fun _ _ => .afterElement (room nofun)
  | property =>
    cases resumed
    exact .onValue passes h fun _ _ => .invoke (Nat.lt_of_succ_lt (spare nofun))
  | propertyStore =>
    cases resumed
    exact .onValue passes h fun _ _ => .storeProperty (spare nofun) h
  | callReceiver =>
    cases resumed
    exact .onValue passes h fun _ _ => .nextArgument (room nofun)
  | callArgument =>
    cases resumed
    refine .onValue passes h fun _ _ => .nextArgument ?_
    rw [List.length_append]
    exact room nofun
  | @guarded clauses last =>
    cases s <;> cases resumed
    · have room : 2 + p.load (clauses.map CatchClause.body ++ last.toList) < _ := room nofun
      rw [Program.load_append] at room
      exact .leave (by omega)
    · exact .catchFailure (room nofun) h
  | handler =>
    cases resumed
    exact .leave (room nofun)
  | request =>
    cases resumed
    exact .onValue passes h fun _ _ =>
      ⟨Nat.lt_of_succ_lt (spare nofun), fun _ member => absurd member List.not_mem_nil⟩

def Block.isLoop : Block → Bool
  | .whileLoop _ _ => true
  | _ => false

/-- The first step of a block leads to less than its children and it. -/
theorem Block.takes_evaluate (block : Block) (h : Heap) (e : ScopeId) :
    (block.evaluate h e []).2.Takes p (3 + p.load block.children) block.isLoop := by
  have passes : 1 < 3 + p.load block.children := Nat.lt_of_lt_of_le (by decide) (Nat.le_add_right ..)
  have room : 2 + p.load block.children < 3 + p.load block.children := Nat.add_lt_add_right (by decide) _
  cases block with
  | constant => exact .resume passes
  | readVariable name =>
    simp only [evaluate]
    split <;> exact .resume passes
  | declare name init =>
    cases init with
    | none => exact .resume passes
    | some b => exact .evalOver (Nat.le_add_left _ 3) fun turns => absurd turns Bool.false_ne_true
  | sequence body => exact .ofSequence room
  | scope body => exact .eval (Nat.le_add_left _ 3)
  | call receiver method args =>
    cases receiver with
    | none => exact .nextArgument room
    | some b => exact .evalOver (Nat.le_add_left _ 3) fun turns => absurd turns Bool.false_ne_true
  | whileLoop cond body =>
    refine .evalOver ?_ fun _ => rfl
    simp only [Frame.ahead, children, Program.load_cons, Program.load_nil]
    omega
  | not | assign | logical | binary | ifElse | property | setProperty | throw | tryCatch | yield =>
    exact .evalOver (Nat.le_add_left _ 3) fun turns => absurd turns Bool.false_ne_true

/-! ### What runs take -/

namespace Machine
variable {σ : Type} {m : Machine σ} {w w' : World σ} {s s' : Step}

/-- Each step lessens the effort, unless it turns a loop. -/
theorem acts_effort (wf : m.program.WellFormed) (acts : m.Acts w s w' s') (still : s.turns = false) :
    s'.effort m.program < s.effort m.program := by
  cases acts with
  | @missing b e k found =>
    exact Nat.add_lt_add_right (Nat.lt_of_lt_of_le (by decide) (m.program.effort_ge b)) _
  | @block b block e k found =>
    rw [Step.effort_onto, Step.effort, m.program.effort_eq wf found]
    exact Nat.add_lt_add_right (block.takes_evaluate w.heap e).lt _
  | @passed signal f k =>
    exact Nat.add_lt_add_left (Nat.lt_add_of_pos_left f.effort_pos) 1
  | @resumed signal f k go resumed =>
    rw [Step.effort_onto, Step.effort, Continuation.effort_cons, ← Nat.add_assoc]
    exact Nat.add_lt_add_right (Frame.takes_resume resumed still w.heap).lt _
  | @invoked call k =>
    have answered : (Frame.ofResult (m.host call w.host).1 []).Takes m.program 2 false :=
      .ofResult (by decide)
    rw [Step.effort_onto, Step.effort]
    exact Nat.add_lt_add_right answered.lt _

/-- Within as many steps as there is effort left, none of which turns a loop, a run comes to a step that does
or to its end. -/
theorem run_settles (wf : m.program.WellFormed) (w : World σ) (s : Step) :
    ∃ n ≤ s.effort m.program, (∀ taken ∈ m.path n w s, taken.2.turns = false) ∧
      ((∃ w' s', m.run n w s = (w', .outOfBudget s') ∧ s'.turns = true) ∨
        ∀ s', (m.run n w s).2 ≠ .outOfBudget s') := by
  induction bound : s.effort m.program using Nat.strongRecOn generalizing w s with
  | _ effort ih =>
    subst bound
    cases cancelled : m.isCancelled w.host with
    | true =>
      refine ⟨0, Nat.zero_le _, List.forall_mem_nil _, .inr fun s' => ?_⟩
      rw [run_cancelled cancelled]
      rintro ⟨⟩
    | false =>
      cases turns : s.turns with
      | true => exact ⟨0, Nat.zero_le _, List.forall_mem_nil _, .inl ⟨w, s, by simp [run, cancelled], turns⟩⟩
      | false =>
        rcases step : m.step w s with ⟨w₁, s₁ | outcome⟩
        · have less := acts_effort wf (leads_of_step step).acts turns
          obtain ⟨n, within, quiet, settled⟩ := ih _ less w₁ s₁ rfl
          refine ⟨n + 1, Nat.lt_of_le_of_lt within less, ?_, ?_⟩
          · rw [path_next cancelled step]
            exact List.forall_mem_cons.2 ⟨turns, quiet⟩
          · rwa [run_next cancelled step]
        · refine ⟨1, s.effort_pos, ?_, .inr ?_⟩
          · rw [path_ended cancelled step]
            exact List.forall_mem_singleton.2 turns
          · rw [run_ended cancelled step]
            exact ended_not_outOfBudget step

end Machine

/-! ### Programs without loops -/

@[simp] theorem Recorded.effort_relocate (r : Recorded) (base : ScopeId) (f : Frame) :
    (r.relocate base f).effort p = f.effort p := rfl

def Continuation.Loopless (k : Continuation) : Prop := ∀ f ∈ k, f.point.loops = false

def Standing.Loopless : Standing → Prop
  | .running s => s.rest.Loopless
  | .parked x => x.k.Loopless
  | .ended _ => True

/-- The effort that is left. A request that is answered has less left than one that is to be made. -/
def Standing.effort (p : Program) : Standing → Nat
  | .running s => s.effort p
  | .parked x => 1 + x.k.effort p
  | .ended _ => 0

theorem Step.still_of_loopless {s : Step} (loopless : s.rest.Loopless) : s.turns = false := by
  unfold turns
  split
  · next v f k =>
    have other := loopless f (List.mem_cons_self ..)
    refine decide_eq_false fun test => ?_
    simp [test, ResumePoint.loops] at other
  · rfl

theorem Step.Takes.loopless_onto {s : Step} (takes : s.Takes p bound looping) (none : looping = false)
    (below : k.Loopless) : (s.onto k).rest.Loopless := by
  have own : ∀ f ∈ s.rest, f.point.loops = false := by
    intro f member
    cases loops : f.point.loops with
    | false => rfl
    | true => exact none ▸ (takes.frames f member loops).symm
  intro f member
  rw [show (s.onto k).rest = s.rest ++ k by cases s <;> rfl] at member
  rcases List.mem_append.1 member with here | under
  · exact own f here
  · exact below f under

namespace Machine
variable {σ : Type} {m : Machine σ} {w w' : World σ} {s s' : Step}

theorem acts_loopless (loopless : m.program.Loopless) (acts : m.Acts w s w' s')
    (frames : s.rest.Loopless) : s'.rest.Loopless := by
  cases acts with
  | missing => exact frames
  | @block b block e k found =>
    refine (block.takes_evaluate (p := m.program) w.heap e).loopless_onto ?_ frames
    cases block with
    | whileLoop cond body => exact absurd found (loopless b cond body)
    | _ => rfl
  | passed => exact (List.forall_mem_cons.1 frames).2
  | @resumed signal f k go resumed =>
    obtain ⟨top, below⟩ := List.forall_mem_cons.1 frames
    have takes := Frame.takes_resume (p := m.program) resumed (Step.still_of_loopless frames) w.heap
    exact takes.loopless_onto top below
  | @invoked call k =>
    have answered : (Frame.ofResult (m.host call w.host).1 []).Takes m.program 2 false :=
      .ofResult (by decide)
    exact answered.loopless_onto rfl frames

/-- A run without loops pays for each of its steps. -/
theorem run_effort (wf : m.program.WellFormed) (loopless : m.program.Loopless) (n : Nat) (w : World σ)
    (frames : s.rest.Loopless) :
    let left := Standing.ofOutcome (m.run n w s).2
    (m.path n w s).length + left.effort m.program ≤ s.effort m.program ∧ left.Loopless := by
  induction n generalizing w s with
  | zero =>
    simp only [run, path]
    split
    · exact ⟨Nat.zero_le _, trivial⟩
    · exact ⟨Nat.le_of_eq (Nat.zero_add _), frames⟩
  | succ n ih =>
    cases cancelled : m.isCancelled w.host with
    | true =>
      rw [run_cancelled cancelled, path_cancelled cancelled]
      exact ⟨Nat.zero_le _, trivial⟩
    | false =>
      rcases step : m.step w s with ⟨w₁, s₁ | outcome⟩
      · have acts := (leads_of_step step).acts
        have less := acts_effort wf acts (Step.still_of_loopless frames)
        obtain ⟨paid, left⟩ := ih w₁ (acts_loopless loopless acts frames)
        rw [run_next cancelled step, path_next cancelled step, List.length_cons]
        exact ⟨by omega, left⟩
      · rw [run_ended cancelled step, path_ended cancelled step]
        rcases step_ended step with ⟨x, rfl, rfl, rfl⟩ | ⟨v, rfl, rfl, _⟩ | ⟨f, rfl, rfl⟩
        · exact ⟨Nat.le_of_eq (Nat.add_assoc 1 1 _).symm, frames⟩
        · exact ⟨s.effort_pos, trivial⟩
        · exact ⟨s.effort_pos, trivial⟩

theorem move_effort (wf : m.program.WellFormed) (loopless : m.program.Loopless) {st : Stage σ}
    (frames : st.standing.Loopless) (mv : Move) :
    (m.stretch st mv).length + (m.move st mv).standing.effort m.program ≤ st.standing.effort m.program ∧
      (m.move st mv).standing.Loopless := by
  obtain ⟨w, standing⟩ := st
  match mv, standing with
  | .slice budget, .running s => exact run_effort wf loopless budget w frames
  | .answer signal, .parked x => exact ⟨Nat.le_of_eq (Nat.zero_add _), frames⟩
  | .persist into, .parked x =>
    simp only [move, Snapshot.restore_capture]
    refine ⟨Nat.le_of_eq ?_, ?_⟩
    · simp [stretch, Standing.effort, Continuation.effort, Function.comp_def]
    · simpa [Standing.Loopless, Continuation.Loopless, Recorded.relocate] using frames
  | .slice _, .parked _ | .slice _, .ended _ | .answer _, .running _ | .answer _, .ended _
  | .persist _, .running _ | .persist _, .ended _ => exact ⟨Nat.le_of_eq (Nat.zero_add _), frames⟩

theorem journey_effort (wf : m.program.WellFormed) (loopless : m.program.Loopless) {st : Stage σ}
    (frames : st.standing.Loopless) (moves : List Move) :
    (m.journey st moves).length ≤ st.standing.effort m.program := by
  induction moves generalizing st with
  | nil => exact Nat.zero_le _
  | cons mv moves ih =>
    obtain ⟨paid, left⟩ := move_effort wf loopless frames mv
    have others := ih left
    rw [journey, List.length_append]
    omega

theorem start_effort (m : Machine σ) (e : ScopeId) :
    (m.start e).effort m.program = m.program.effort m.program.root := Nat.add_zero _

theorem start_loopless (m : Machine σ) (e : ScopeId) : (m.start e).rest.Loopless := List.forall_mem_nil _

/-- Lets the run take some steps and answers it, once for each answer. -/
def conversation (budget : Nat) (answers : List Signal) : List Move :=
  answers.flatMap fun answer => [.slice budget, .answer answer]

theorem after_ended {st : Stage σ} (ended : st.standing = .ended outcome) (moves : List Move) :
    (m.after st moves).standing = .ended outcome := by
  refine after_invariant (I := fun st => st.standing = .ended outcome) (fun st mv _ here => ?_) ended
    fun _ _ => trivial
  cases mv <;> simp only [move, here]

theorem length_path_pos (run : m.run n w s = (w', .suspended x)) : 0 < (m.path n w s).length := by
  cases cancelled : m.isCancelled w.host with
  | true => simp [run_cancelled cancelled] at run
  | false =>
    cases n with
    | zero => simp [Machine.run, cancelled] at run
    | succ n => simp [path, cancelled]

/-- A run without loops, with as many answers as there is effort left, comes to its end. -/
theorem conversation_ends (wf : m.program.WellFormed) (loopless : m.program.Loopless)
    (frames : s.rest.Loopless) (answers : List Signal) (enough : s.effort m.program ≤ answers.length)
    (within : s.effort m.program ≤ budget) (w : World σ) :
    ∃ outcome, (m.after ⟨w, .running s⟩ (conversation budget answers)).standing = .ended outcome := by
  induction answers generalizing w s with
  | nil => exact absurd enough (Nat.not_le_of_lt s.effort_pos)
  | cons answer answers ih =>
    obtain ⟨paid, left⟩ := run_effort wf loopless budget w frames
    rw [List.length_cons] at enough
    show ∃ outcome, (m.after (m.move (m.move ⟨w, .running s⟩ (.slice budget)) (.answer answer))
      (conversation budget answers)).standing = .ended outcome
    simp only [move]
    rcases run : m.run budget w s with ⟨w', outcome⟩
    rw [run] at paid left
    cases outcome with
    | completed v => exact ⟨_, after_ended rfl _⟩
    | failed f => exact ⟨_, after_ended rfl _⟩
    | cancelled => exact ⟨_, after_ended rfl _⟩
    | outOfBudget s' =>
      -- it would have taken more steps than there was effort left
      have used := length_path_of_outOfBudget run
      have more := s'.effort_pos (p := m.program)
      simp only [Standing.ofOutcome, Standing.effort] at paid
      omega
    | suspended x =>
      have taken := length_path_pos run
      have less : (Step.resume answer x.k).effort m.program < s.effort m.program :=
        Nat.lt_of_lt_of_le (Nat.lt_add_of_pos_left taken) paid
      exact ih (s := .resume answer x.k) left (by omega) (by omega) w'

/-! ### Runs that are stopped -/

/-- No run is stopped unless its host says that it is cancelled. -/
theorem run_stopped (n : Nat) {w : World σ} {s : Step} (stopped : (m.run n w s).2 = .cancelled) :
    m.isCancelled (m.run n w s).1.host = true := by
  induction n generalizing w s with
  | zero =>
    rw [run] at stopped ⊢
    split at stopped
    · next cancelled => rwa [if_pos cancelled]
    · cases stopped
  | succ n ih =>
    cases cancelled : m.isCancelled w.host with
    | true => rwa [run_cancelled cancelled]
    | false =>
      rcases step : m.step w s with ⟨w₁, s₁ | outcome⟩
      · rw [run_next cancelled step] at stopped ⊢
        exact ih stopped
      · rw [run_ended cancelled step] at stopped
        obtain rfl : outcome = .cancelled := stopped
        rcases step_ended step with ⟨_, ⟨⟩, _⟩ | ⟨_, ⟨⟩, _⟩ | ⟨_, ⟨⟩, _⟩

theorem move_stopped (st : Stage σ) (mv : Move)
    (before : st.standing = .ended .cancelled → m.isCancelled st.world.host = true)
    (stopped : (m.move st mv).standing = .ended .cancelled) :
    m.isCancelled (m.move st mv).world.host = true := by
  obtain ⟨w, standing⟩ := st
  match mv, standing with
  | .slice budget, .running s =>
    rcases run : m.run budget w s with ⟨w', outcome⟩
    simp only [move, run] at stopped ⊢
    cases outcome with
    | cancelled =>
      have host := run_stopped budget (congrArg Prod.snd run)
      rwa [run] at host
    | completed | failed | suspended | outOfBudget => cases stopped
  | .persist into, .parked x =>
    simp only [move] at stopped
    split at stopped <;> cases stopped
  | .answer signal, .parked x => cases stopped
  | .slice _, .parked _ | .slice _, .ended _ | .answer _, .running _ | .answer _, .ended _
  | .persist _, .running _ | .persist _, .ended _ => exact before stopped

theorem after_stopped (w : World σ) (s : Step) (moves : List Move)
    (stopped : (m.after ⟨w, .running s⟩ moves).standing = .ended .cancelled) :
    m.isCancelled (m.after ⟨w, .running s⟩ moves).world.host = true := by
  have start : (⟨w, .running s⟩ : Stage σ).standing = .ended .cancelled → m.isCancelled w.host = true := nofun
  exact after_invariant (I := fun st => st.standing = .ended .cancelled → m.isCancelled st.world.host = true)
    (fun st mv (_ : True) => move_stopped st mv) start (fun _ _ => trivial) stopped

end Machine

/-- Only loops run for ever. In a valid program every step of a run has a bound, whatever its host does:
within so many further steps the run ends, suspends, or brings a value to the test of a loop. Without loops
the effort of the root bounds all steps of a run together, over all moves of its host; and a run that is
answered that often has come to its end. No run ends as cancelled before its host says so. -/
theorem only_loops_run_on {σ : Type} (m : Machine σ) (valid : m.program.validate = .ok ()) :
    (∀ w s, ∃ n ≤ s.effort m.program, (∀ taken ∈ m.path n w s, taken.2.turns = false) ∧
      ((∃ w' s', m.run n w s = (w', .outOfBudget s') ∧ s'.turns = true) ∨
        ∀ s', (m.run n w s).2 ≠ .outOfBudget s')) ∧
    (m.program.Loopless → ∀ w e,
      (∀ moves, (m.journey (m.opening w e) moves).length ≤ m.program.effort m.program.root) ∧
      ∀ answers budget, m.program.effort m.program.root ≤ answers.length →
        m.program.effort m.program.root ≤ budget →
        ∃ outcome,
          (m.after (m.opening w e) (Machine.conversation budget answers)).standing = .ended outcome) ∧
    (∀ n w s, (m.run n w s).2 = .cancelled → m.isCancelled (m.run n w s).1.host = true) ∧
    ∀ w e moves, (m.after (m.opening w e) moves).standing = .ended .cancelled →
      m.isCancelled (m.after (m.opening w e) moves).world.host = true := by
  have wf := m.program.validate_eq_ok_iff.1 valid
  refine ⟨Machine.run_settles wf, fun loopless w e => ⟨?bounded, ?ends⟩,
    fun n _ _ => Machine.run_stopped n, fun w e => Machine.after_stopped w (m.start e)⟩
  case bounded =>
    rw [← m.start_effort e]
    exact Machine.journey_effort wf loopless (m.start_loopless e)
  case ends =>
    intro answers budget enough within
    rw [← m.start_effort e] at enough within
    exact Machine.conversation_ends wf loopless (m.start_loopless e) answers enough within w

/-- A request whose cleanup is a request again: each of them is answered with a failure. -/
theorem requests_in_cleanup_end :
    let m : Machine Unit :=
      Program.machine ⟨#[.constant .null, .yield 0, .tryCatch 1 [] (some 1)], 2⟩ fun _ u => (.ok .null, u)
    let failures := List.replicate 31 (Signal.thrown (.engineFault "refused"))
    m.program.validate = .ok () ∧ m.program.Loopless ∧ m.program.effort m.program.root = 31 ∧
      (∃ n ≤ 31, (∀ taken ∈ m.path n ⟨.empty, ()⟩ (m.start 0), taken.2.turns = false) ∧
        ((∃ w' s', m.run n ⟨.empty, ()⟩ (m.start 0) = (w', .outOfBudget s') ∧ s'.turns = true) ∨
          ∀ s', (m.run n ⟨.empty, ()⟩ (m.start 0)).2 ≠ .outOfBudget s')) ∧
      (∀ moves, (m.journey (m.opening ⟨.empty, ()⟩ 0) moves).length ≤ 31) ∧
      (∃ outcome, (m.after (m.opening ⟨.empty, ()⟩ 0) (Machine.conversation 31 failures)).standing =
        .ended outcome) ∧
      ∀ moves, (m.after (m.opening ⟨.empty, ()⟩ 0) moves).standing ≠ .ended .cancelled := by
  intro m failures
  have loopless : m.program.Loopless := by
    intro b cond body found
    match b, found with
    | 0, found | 1, found | 2, found => exact nomatch found
    | b + 3, found => exact nomatch found
  have wf := m.program.validate_eq_ok_iff.1 rfl
  have effort : m.program.effort m.program.root = 31 := by
    have constant : m.program.effort 0 = 3 :=
      m.program.effort_eq wf (show m.program.block? 0 = some (.constant .null) from rfl)
    have request := m.program.effort_eq wf (show m.program.block? 1 = some (.yield 0) from rfl)
    have whole :=
      m.program.effort_eq wf (show m.program.block? 2 = some (.tryCatch 1 [] (some 1)) from rfl)
    simp only [Block.children, List.map_nil, Option.toList_some, List.cons_append, List.nil_append,
      Program.load_cons, Program.load_nil, constant] at request whole
    show m.program.effort 2 = 31
    omega
  obtain ⟨settles, loops_only, -, stopped⟩ := only_loops_run_on m rfl
  have settled := settles ⟨.empty, ()⟩ (m.start 0)
  obtain ⟨bounded, ends⟩ := loops_only loopless ⟨.empty, ()⟩ 0
  rw [effort] at bounded ends
  rw [m.start_effort, effort] at settled
  exact ⟨rfl, loopless, effort, settled, bounded, ends failures 31 (by simp [failures]) (Nat.le_refl _),
    fun moves here => Bool.false_ne_true (stopped ⟨.empty, ()⟩ 0 moves here)⟩

end FlowScript
