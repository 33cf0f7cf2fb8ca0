import FlowScript.Proofs.Soundness

/-! A step is about the innermost frames only. The frames below them stay as they are, until a signal
comes to them. -/
namespace FlowScript

namespace Machine
variable {σ : Type}

/-- What a step leads to. -/
inductive Leads (m : Machine σ) (w : World σ) : Step → World σ → Step → Prop where
  | eval : Leads m w (.eval b e k) ⟨(m.program.evaluate w.heap b e k).1, w.host⟩
      (m.program.evaluate w.heap b e k).2
  | passed : signal.isThrown = true → f.point.intercepts = false →
      Leads m w (.resume signal (f :: k)) w (.resume signal k)
  | resumed : f.resume signal k = .ok go →
      Leads m w (.resume signal (f :: k)) ⟨(go w.heap).1, w.host⟩ (go w.heap).2
  | invoked : Leads m w (.invoke call k) ⟨w.heap, (m.host call w.host).2⟩
      (Frame.ofResult (m.host call w.host).1 k)

theorem leads_of_step {m : Machine σ} {w w' : World σ} {s s' : Step}
    (step : m.step w s = (w', .next s')) : m.Leads w s w' s' := by
  cases s with
  | eval b e k =>
    obtain ⟨rfl, next⟩ := Prod.mk.inj step
    obtain rfl := Turn.next.inj next
    exact .eval
  | invoke call k =>
    obtain ⟨rfl, next⟩ := Prod.mk.inj step
    obtain rfl := Turn.next.inj next
    exact .invoked
  | yield => simp [Machine.step] at step
  | resume signal k =>
    cases k with
    | nil => cases signal <;> simp [Machine.step, Table.deliver, turn] at step
    | cons f k =>
      simp only [Machine.step, Table.deliver, Table.resumeInnermost] at step
      split at step
      · simp [turn] at step
      · split at step
        · next passes =>
          obtain ⟨rfl, rfl⟩ : w = w' ∧ .resume signal k = s' := by simpa [turn] using step
          simp only [Bool.and_eq_true, Bool.not_eq_true'] at passes
          exact .passed passes.1 passes.2
        · cases resumed : f.resume signal k with
          | error problem => simp [resumed, turn] at step
          | ok go =>
            simp only [resumed, turn, Prod.mk.injEq, Turn.next.injEq] at step
            obtain ⟨rfl, rfl⟩ := step
            exact .resumed resumed

end Machine

/-- The states with which a resume point can be resumed. -/
inductive Captured.Suits : ResumePoint → Captured → Prop where
  | decide : Suits .decide (.logical op rhs)
  | not : Suits .not .not
  | lhs : Suits .lhs (.binaryLhs op rhs)
  | rhs : Suits .rhs (.binaryRhs op lhs)
  | declare : Suits .declare (.declare name)
  | assign : Suits .assign (.assign name)
  | branch : Suits .branch (.branch thenBranch elseBranch)
  | loopTest : Suits .loopTest (.loop test body)
  | loopBody : Suits .loopBody (.loop test body)
  | sequence : Suits .sequence (.sequence body index)
  | property : Suits .property (.property name isAttribute)
  | propertyStore : Suits .propertyStore (.propertyStore target name isAttribute)
  | storeReceiver : Suits .storeReceiver (.storeReceiver target value)
  | callReceiver : Suits .callReceiver (.call method args receiver evaluated)
  | callArgument : Suits .callArgument (.call method args receiver evaluated)
  | throw : Suits .throw .throw
  | guarded {last : Option BlockId} : Suits .guarded (.guarded clauses last)
  | handler {last : Option BlockId} : Suits .handler (.handler last)
  | cleanup : Suits .cleanup (.cleanup pending)
  | request : Suits .request .yield

/-- A frame is resumed only with a state that suits its point. -/
theorem Frame.suits_of_resume {f : Frame} (resumed : f.resume s k = .ok go) :
    f.captured.Suits f.point := by
  obtain ⟨point, e, captured⟩ := f
  cases point <;> simp only [resume] at resumed <;> split at resumed <;> cases resumed <;> constructor

/-! ### Frames below -/

/-- The step over further frames. -/
def Step.onto (base : Continuation) : Step → Step
  | .eval b e k => .eval b e (k ++ base)
  | .resume signal k => .resume signal (k ++ base)
  | .invoke call k => .invoke call (k ++ base)
  | .yield request k => .yield request (k ++ base)

/-- The turn over further frames. What has ended without waiting has left all frames. -/
def Turn.onto (base : Continuation) : Turn → Turn
  | .next s => .next (s.onto base)
  | .ended (.suspended x) => .ended (.suspended ⟨x.request, x.k ++ base⟩)
  | .ended outcome => .ended outcome

/-- What a step leads to, told by what its block or its innermost frame does by itself. -/
inductive Machine.Acts {σ : Type} (m : Machine σ) (w : World σ) : Step → World σ → Step → Prop where
  | missing : m.program.block? b = none → Acts m w (.eval b e k) w (.thrown f k)
  | block : m.program.block? b = some block →
      Acts m w (.eval b e k) ⟨(block.evaluate w.heap e []).1, w.host⟩ ((block.evaluate w.heap e []).2.onto k)
  | passed : signal.isThrown = true → f.point.intercepts = false →
      Acts m w (.resume signal (f :: k)) w (.resume signal k)
  | resumed : f.resume signal [] = .ok go →
      Acts m w (.resume signal (f :: k)) ⟨(go w.heap).1, w.host⟩ ((go w.heap).2.onto k)
  | invoked : Acts m w (.invoke call k) ⟨w.heap, (m.host call w.host).2⟩
      ((Frame.ofResult (m.host call w.host).1 []).onto k)

variable {k base : Continuation} {e : ScopeId} {h : Heap}

namespace Step

@[simp] theorem rest_onto (s : Step) : (s.onto k).rest = s.rest ++ k := by cases s <;> rfl

@[simp] theorem onto_evalFor :
    (evalFor b e point captured k).onto base = evalFor b e point captured (k ++ base) := rfl

@[simp] theorem onto_value : (value v k).onto base = value v (k ++ base) := rfl

@[simp] theorem onto_thrown : (thrown f k).onto base = thrown f (k ++ base) := rfl

theorem nextArgument_append : nextArgument method args receiver evaluated e (k ++ base) =
    (nextArgument method args receiver evaluated e k).onto base := by
  unfold nextArgument
  split <;> rfl

theorem ofSequence_append : ofSequence body e (k ++ base) = (ofSequence body e k).onto base := by
  unfold ofSequence
  split <;> rfl

end Step

namespace Frame

theorem ofResult_append : ofResult r (k ++ base) = (ofResult r k).onto base := by cases r <;> rfl

theorem leave_append :
    leave cleanup pending e (k ++ base) = (leave cleanup pending e k).onto base := by
  cases cleanup <;> rfl

theorem afterLhs_append : afterLhs op rhs v e (k ++ base) = (afterLhs op rhs v e k).onto base := by
  unfold afterLhs
  split <;> rfl

theorem afterCondition_append : afterCondition thenBranch elseBranch v e (k ++ base) =
    (afterCondition thenBranch elseBranch v e k).onto base := by
  unfold afterCondition
  split <;> rfl

theorem afterElement_append :
    afterElement body index v e (k ++ base) = (afterElement body index v e k).onto base := by
  unfold afterElement
  split
  · rfl
  · split <;> rfl

/-- A resumption over further frames. -/
def Resumption.onto (base : Continuation) (go : Resumption) : Resumption :=
  fun h => (go h).map id (Step.onto base)

theorem storeProperty_append : storeProperty target name isAttribute v e (k ++ base) =
    Resumption.onto base (storeProperty target name isAttribute v e k) := by
  funext h
  simp only [storeProperty, Resumption.onto]
  cases h.lookup e target <;> rfl

theorem catchFailure_append : catchFailure clauses cleanup f e (k ++ base) =
    Resumption.onto base (catchFailure clauses cleanup f e k) := by
  funext h
  simp only [catchFailure, Resumption.onto]
  cases clauses.find? (·.catches f) with
  | some clause => rfl
  | none => exact congrArg (Prod.mk h) leave_append

theorem onValue_append {go go' : Value → Resumption} (goes : ∀ v, go' v = Resumption.onto base (go v)) :
    onValue s (k ++ base) go' = Resumption.onto base (onValue s k go) := by
  cases s with
  | value v => exact goes v
  | thrown f => rfl

/-- The frames below a frame have no part in its resumption. -/
theorem resume_append (f : Frame) (s : Signal) :
    f.resume s (k ++ base) = (f.resume s k).map (Resumption.onto base) := by
  obtain ⟨point, e, captured⟩ := f
  cases point with
  | decide =>
    cases captured with
    | logical op rhs =>
      exact congrArg Except.ok (onValue_append fun v => funext fun h => congrArg (Prod.mk h) afterLhs_append)
    | _ => rfl
  | not =>
    cases captured with
    | not => exact congrArg Except.ok (onValue_append fun v => rfl)
    | _ => rfl
  | lhs =>
    cases captured with
    | binaryLhs => exact congrArg Except.ok (onValue_append fun v => rfl)
    | _ => rfl
  | rhs =>
    cases captured with
    | binaryRhs =>
      exact congrArg Except.ok (onValue_append fun v => funext fun h => congrArg (Prod.mk h) ofResult_append)
    | _ => rfl
  | declare =>
    cases captured with
    | declare => exact congrArg Except.ok (onValue_append fun v => rfl)
    | _ => rfl
  | assign =>
    cases captured with
    | assign => exact congrArg Except.ok (onValue_append fun v => rfl)
    | _ => rfl
  | branch =>
    cases captured with
    | branch =>
      exact congrArg Except.ok
        (onValue_append fun v => funext fun h => congrArg (Prod.mk h) afterCondition_append)
    | _ => rfl
  | loopTest =>
    cases captured with
    | loop =>
      refine congrArg Except.ok (onValue_append fun v => funext fun h => congrArg (Prod.mk h) ?_)
      split <;> rfl
    | _ => rfl
  | loopBody =>
    cases captured with
    | loop => exact congrArg Except.ok (onValue_append fun v => rfl)
    | _ => rfl
  | sequence =>
    cases captured with
    | sequence =>
      exact congrArg Except.ok
        (onValue_append fun v => funext fun h => congrArg (Prod.mk h) afterElement_append)
    | _ => rfl
  | property =>
    cases captured with
    | property => exact congrArg Except.ok (onValue_append fun v => rfl)
    | _ => rfl
  | propertyStore =>
    cases captured with
    | propertyStore => exact congrArg Except.ok (onValue_append fun v => storeProperty_append)
    | _ => rfl
  | storeReceiver =>
    cases captured with
    | storeReceiver => exact congrArg Except.ok (onValue_append fun v => rfl)
    | _ => rfl
  | callReceiver | callArgument =>
    cases captured with
    | call =>
      exact congrArg Except.ok
        (onValue_append fun v => funext fun h => congrArg (Prod.mk h) Step.nextArgument_append)
    | _ => rfl
  | throw =>
    cases captured with
    | throw => exact congrArg Except.ok (onValue_append fun v => rfl)
    | _ => rfl
  | guarded =>
    cases captured with
    | guarded =>
      cases s with
      | value v => exact congrArg Except.ok (funext fun h => congrArg (Prod.mk h) leave_append)
      | thrown f => exact congrArg Except.ok catchFailure_append
    | _ => rfl
  | handler =>
    cases captured with
    | handler => exact congrArg Except.ok (funext fun h => congrArg (Prod.mk h) leave_append)
    | _ => rfl
  | cleanup =>
    cases captured with
    | cleanup => exact congrArg Except.ok (onValue_append fun v => rfl)
    | _ => rfl
  | request =>
    cases captured with
    | yield => exact congrArg Except.ok (onValue_append fun v => rfl)
    | _ => rfl

end Frame

theorem Block.evaluate_append (block : Block) :
    block.evaluate h e (k ++ base) = (block.evaluate h e k).map id (Step.onto base) := by
  cases block with
  | readVariable name =>
    simp only [evaluate]
    cases h.lookup e name <;> rfl
  | declare name init => cases init <;> rfl
  | sequence body => exact congrArg (Prod.mk h) Step.ofSequence_append
  | call receiver method args =>
    cases receiver with
    | none => exact congrArg (Prod.mk h) Step.nextArgument_append
    | some b => rfl
  | _ => rfl

theorem Program.evaluate_append (p : Program) (b : BlockId) :
    p.evaluate h b e (k ++ base) = (p.evaluate h b e k).map id (Step.onto base) := by
  unfold evaluate
  cases p.block? b with
  | none => rfl
  | some block => exact block.evaluate_append

/-- A step that does not signal to the frames below does the same over all of them. -/
theorem Machine.step_onto {m : Machine σ} {w : World σ} {s : Step}
    (above : ∀ signal, s ≠ .resume signal []) :
    m.step w (s.onto base) = (m.step w s).map id (Turn.onto base) := by
  cases s with
  | eval b e k =>
    simp only [Step.onto, Machine.step, Program.evaluate_append]
    rfl
  | invoke call k => exact congrArg (fun s => (_, Turn.next s)) Frame.ofResult_append
  | yield request k => rfl
  | resume signal k =>
    cases k with
    | nil => exact absurd rfl (above signal)
    | cons f k =>
      simp only [Step.onto, List.cons_append, Machine.step, Table.deliver, Table.resumeInnermost,
        Frame.resume_append]
      split
      · rfl
      · split
        · rfl
        · cases f.resume signal k <;> rfl

namespace Machine
variable {σ : Type} {m : Machine σ} {w w' : World σ} {s s' : Step}

theorem Leads.acts (leads : m.Leads w s w' s') : m.Acts w s w' s' := by
  cases leads with
  | @eval b e k =>
    cases found : m.program.block? b with
    | none =>
      simp only [Program.evaluate, found]
      exact .missing found
    | some block =>
      have stacked : block.evaluate w.heap e k = _ := block.evaluate_append (k := [])
      simp only [Program.evaluate, found, stacked]
      exact .block found
  | passed thrown passes => exact .passed thrown passes
  | @resumed signal f k go resumed =>
    have stacked : f.resume signal k = _ := f.resume_append (k := []) signal
    cases alone : f.resume signal [] with
    | error problem => simp [stacked, alone, Except.map] at resumed
    | ok go' =>
      rw [stacked, alone] at resumed
      obtain rfl := Except.ok.inj resumed
      exact .resumed alone
  | @invoked call k =>
    have stacked : Frame.ofResult (m.host call w.host).1 k = _ := Frame.ofResult_append (k := [])
    simp only [stacked]
    exact .invoked

end Machine

/-! ### The blocks ahead -/

/-- The blocks that a frame evaluates. -/
def Captured.blocks : Captured → List BlockId
  | .logical _ rhs | .binaryLhs _ rhs => [rhs]
  | .branch thenBranch elseBranch => thenBranch :: elseBranch.toList
  | .loop cond body => [cond, body]
  | .sequence body _ => body
  | .call _ args _ _ => args
  | .guarded clauses last => clauses.map CatchClause.body ++ last.toList
  | .handler last => last.toList
  | _ => []

def Continuation.blocks (k : Continuation) : List BlockId := k.flatMap (·.captured.blocks)

/-- The block that a step evaluates, and those of its frames. -/
def Step.blocks : Step → List BlockId
  | .eval b _ k => b :: k.blocks
  | .resume _ k | .invoke _ k | .yield _ k => k.blocks

@[simp] theorem Continuation.blocks_cons (f : Frame) (k : Continuation) :
    blocks (f :: k) = f.captured.blocks ++ k.blocks := by simp [blocks]

namespace Step

@[simp] theorem blocks_eval : (eval b e k).blocks = b :: k.blocks := rfl

@[simp] theorem blocks_evalFor :
    (evalFor b e point captured k).blocks = b :: (captured.blocks ++ k.blocks) := by
  simp [evalFor]

@[simp] theorem blocks_resume : (resume signal k).blocks = k.blocks := rfl

@[simp] theorem blocks_value : (value v k).blocks = k.blocks := rfl

@[simp] theorem blocks_thrown : (thrown f k).blocks = k.blocks := rfl

@[simp] theorem blocks_invoke : (invoke call k).blocks = k.blocks := rfl

@[simp] theorem blocks_yield : (yield request k).blocks = k.blocks := rfl

theorem nextArgument_blocks :
    (nextArgument method args receiver evaluated e k).blocks ⊆ args ++ k.blocks := by
  unfold nextArgument
  split
  · simp
  · next arg here =>
    have member := List.mem_of_getElem? here
    simp [Captured.blocks, member]

theorem ofSequence_blocks : (ofSequence body e k).blocks ⊆ body ++ k.blocks := by
  unfold ofSequence
  split <;> simp [Captured.blocks]

end Step

namespace Frame

@[simp] theorem ofResult_blocks : (ofResult r k).blocks = k.blocks := by cases r <;> rfl

theorem leave_blocks : (leave last pending e k).blocks ⊆ last.toList ++ k.blocks := by
  cases last <;> simp [leave, Captured.blocks]

theorem afterLhs_blocks : (afterLhs op rhs v e k).blocks ⊆ rhs :: k.blocks := by
  unfold afterLhs
  split <;> simp

theorem afterCondition_blocks : (afterCondition thenBranch elseBranch v e k).blocks ⊆
    thenBranch :: elseBranch.toList ++ k.blocks := by
  unfold afterCondition
  split <;> simp

theorem afterElement_blocks : (afterElement body index v e k).blocks ⊆ body ++ k.blocks := by
  unfold afterElement
  split
  · simp
  · next b here =>
    have member := List.mem_of_getElem? here
    split <;> simp [Captured.blocks, member]

theorem catchFailure_blocks : (catchFailure clauses last f e k h).2.blocks ⊆
    clauses.map CatchClause.body ++ last.toList ++ k.blocks := by
  unfold catchFailure
  split
  · next clause found =>
    have member := List.mem_map_of_mem (f := CatchClause.body) (List.mem_of_find?_eq_some found)
    intro b evaluated
    simp only [Step.blocks_eval, Continuation.blocks_cons, Captured.blocks, List.mem_cons] at evaluated
    grind
  · intro b evaluated
    have := leave_blocks evaluated
    grind

theorem onValue_blocks {go : Value → Resumption} (goes : ∀ v h, (go v h).2.blocks ⊆ l ++ k.blocks) :
    ∀ h, (onValue s k go h).2.blocks ⊆ l ++ k.blocks := by
  intro h
  cases s with
  | value v => exact goes v h
  | thrown f => simp [onValue]

/-- A frame that fits leads to no other blocks than its own. -/
theorem resume_blocks {f : Frame} (fits : f.captured.Fits p f.point) (resumed : f.resume s k = .ok go) :
    ∀ h, (go h).2.blocks ⊆ f.captured.blocks ++ k.blocks := by
  obtain ⟨point, e, captured⟩ := f
  cases fits with
  | decide =>
    obtain rfl := Except.ok.inj resumed
    exact onValue_blocks fun v h => afterLhs_blocks
  | not | declare | assign | property | storeReceiver | throw | request =>
    obtain rfl := Except.ok.inj resumed
    exact onValue_blocks fun v h => by simp
  | cleanup =>
    obtain rfl := Except.ok.inj resumed
    exact onValue_blocks fun v h => by simp
  | lhs =>
    obtain rfl := Except.ok.inj resumed
    exact onValue_blocks fun v h => by simp [Captured.blocks]
  | rhs =>
    obtain rfl := Except.ok.inj resumed
    exact onValue_blocks fun v h => by simp
  | branch =>
    obtain rfl := Except.ok.inj resumed
    exact onValue_blocks fun v h => afterCondition_blocks
  | loopTest =>
    obtain rfl := Except.ok.inj resumed
    refine onValue_blocks fun v h => ?_
    split <;> simp [Captured.blocks]
  | loopBody =>
    obtain rfl := Except.ok.inj resumed
    exact onValue_blocks fun v h => by simp [Captured.blocks]
  | sequence =>
    obtain rfl := Except.ok.inj resumed
    exact onValue_blocks fun v h => afterElement_blocks
  | propertyStore =>
    obtain rfl := Except.ok.inj resumed
    refine onValue_blocks fun v h => ?_
    unfold storeProperty
    split <;> simp [Captured.blocks]
  | callReceiver | callArgument =>
    obtain rfl := Except.ok.inj resumed
    exact onValue_blocks fun v h => Step.nextArgument_blocks
  | guarded =>
    cases s with
    | value v =>
      obtain rfl := Except.ok.inj resumed
      intro h b evaluated
      have := leave_blocks evaluated
      simp only [Captured.blocks]
      grind
    | thrown failure =>
      obtain rfl := Except.ok.inj resumed
      exact fun h => catchFailure_blocks
  | handler =>
    obtain rfl := Except.ok.inj resumed
    exact fun h => leave_blocks

end Frame

theorem Block.evaluate_blocks (block : Block) :
    (block.evaluate h e k).2.blocks ⊆ block.children ++ k.blocks := by
  cases block with
  | constant => simp [evaluate]
  | readVariable name =>
    simp only [evaluate]
    split <;> simp
  | declare name init => cases init <;> simp [evaluate, children, Captured.blocks]
  | sequence body => exact Step.ofSequence_blocks
  | call receiver =>
    cases receiver with
    | none => exact Step.nextArgument_blocks
    | some b => simp [evaluate, children, Captured.blocks]
  | _ => simp [evaluate, children, Captured.blocks]

/-- All blocks of the step come before the block. -/
def Step.Before (bound : BlockId) (s : Step) : Prop := ∀ b ∈ s.blocks, b < bound

namespace Machine
variable {σ : Type} {m : Machine σ} {w w' : World σ} {p : Program} {s s' : Step}

/-- The first step of a block leads to blocks before it. -/
theorem evaluated_before (wf : m.program.WellFormed) (h : Heap) (b : BlockId) (e : ScopeId) :
    (m.program.evaluate h b e []).2.Before b := by
  unfold Program.evaluate
  cases found : m.program.block? b with
  | none => simp [Step.Before, Continuation.blocks]
  | some block =>
    intro c ahead
    have child := block.evaluate_blocks ahead
    simp only [Continuation.blocks, List.flatMap_nil, List.append_nil] at child
    exact wf.1 b block found c child

/-- Steps lead from frames that fit to frames that fit, whatever blocks there are. -/
theorem leads_fits (same : p.blocks = m.program.blocks) (fits : s.Fits p)
    (leads : m.Leads w s w' s') : s'.Fits p := by
  cases leads with
  | @eval b e k =>
    unfold Program.evaluate
    have found_alike : m.program.block? b = p.block? b := by simp only [Program.block?, same]
    rw [found_alike]
    cases found : p.block? b with
    | none => exact fits.2
    | some block => exact Block.evaluate_fits (fun c child => .child fits.1 found child) fits.2 w.heap
  | passed => exact (Continuation.fits_cons.1 fits).2
  | @resumed signal f k go resumed =>
    obtain ⟨top, below⟩ := Continuation.fits_cons.1 fits
    obtain ⟨go', resumed', goes⟩ := Frame.resume_fits top below signal
    obtain rfl := Except.ok.inj (resumed.symm.trans resumed')
    exact goes w.heap
  | invoked => exact Frame.ofResult_fits.2 fits

/-- Steps lead from blocks before a block to blocks before it. -/
theorem leads_before (wf : m.program.WellFormed) (fits : s.Fits p) (before : s.Before bound)
    (leads : m.Leads w s w' s') : s'.Before bound := by
  cases leads with
  | @eval b e k =>
    simp only [Step.Before, Step.blocks_eval, List.forall_mem_cons] at before
    unfold Program.evaluate
    cases found : m.program.block? b with
    | none => exact before.2
    | some block =>
      intro c ahead
      rcases List.mem_append.1 (block.evaluate_blocks ahead) with child | below
      · exact Nat.lt_trans (wf.1 b block found c child) before.1
      · exact before.2 c below
  | passed =>
    intro c ahead
    exact before c (by simpa using Or.inr ahead)
  | @resumed signal f k go resumed =>
    intro c ahead
    have named := Frame.resume_blocks (Continuation.fits_cons.1 fits).1 resumed w.heap ahead
    exact before c (by simpa using named)
  | invoked =>
    intro c ahead
    exact before c (by simpa using ahead)

/-- A frame that sees the signal is resumed with it. -/
theorem step_resumed (standard : m.table = .standard)
    (seen : signal.isThrown = true → f.point.intercepts = true) (resumed : f.resume signal k = .ok go) :
    m.step w (.resume signal (f :: k)) = (⟨(go w.heap).1, w.host⟩, .next (go w.heap).2) := by
  have stays : (signal.isThrown && !f.point.intercepts) = false := by
    cases thrown : signal.isThrown with
    | false => rfl
    | true => simp [seen thrown]
  simp [Machine.step, standard, Table.deliver, Table.standard_contains, stays, Table.resumeInnermost,
    resumed, turn]

/-- With frames that fit, a run that is not over goes on or waits for its host. -/
theorem step_next_or_yield (standard : m.table = .standard) (fits : s.Fits p)
    (above : ∀ signal, s ≠ .resume signal []) (w : World σ) :
    (∃ w' s', m.step w s = (w', .next s')) ∨ ∃ request k, s = .yield request k := by
  cases s with
  | eval => exact .inl ⟨_, _, rfl⟩
  | invoke => exact .inl ⟨_, _, rfl⟩
  | yield request k => exact .inr ⟨request, k, rfl⟩
  | resume signal k =>
    cases k with
    | nil => exact absurd rfl (above signal)
    | cons f k =>
      obtain ⟨go, resumed, _⟩ :=
        Frame.resume_fits (Continuation.fits_cons.1 fits).1 (Continuation.fits_cons.1 fits).2 signal
      by_cases passed : signal.isThrown && !f.point.intercepts
      · refine .inl ⟨w, .resume signal k, ?_⟩
        simp [Machine.step, standard, Table.deliver, Table.standard_contains, passed, turn]
      · exact .inl ⟨_, _, step_resumed standard (by simpa using passed) resumed⟩

end Machine
/-! ### Steps over frames -/

/-- Where a run stands after the turn. -/
def Turn.standing : Turn → Standing
  | .next s => .running s
  | .ended outcome => .ofOutcome outcome

/-- The run goes on with a step that has the property, whatever it is answered. -/
def Standing.GoesOn (P : Step → Prop) : Standing → Prop
  | .running s => P s
  | .parked x => ∀ signal, P (.resume signal x.k)
  | .ended _ => False

/-- The frames are the lowest ones of the step, and it does not signal to the first of them. -/
def Step.Over (base : Continuation) (s : Step) : Prop :=
  ∃ inner : Step, s = inner.onto base ∧ inner.NotAt []

/-- The frames over the base fit, and all blocks to come for them are before the bound. -/
def Step.Within (p : Program) (bound : BlockId) (base : Continuation) (s : Step) : Prop :=
  ∃ inner : Step, s = inner.onto base ∧ inner.Fits p ∧ inner.Before bound

/-- The frame in another scope. -/
def Frame.moved (moved : ScopeId → ScopeId) (f : Frame) : Frame := { f with scope := moved f.scope }

/-- The step in other scopes. -/
def Step.moved (moved : ScopeId → ScopeId) : Step → Step
  | .eval b e k => .eval b (moved e) (k.map (Frame.moved moved))
  | .resume signal k => .resume signal (k.map (Frame.moved moved))
  | .invoke call k => .invoke call (k.map (Frame.moved moved))
  | .yield request k => .yield request (k.map (Frame.moved moved))

namespace Step
variable {p : Program} {base : Continuation} {s : Step} {g : ScopeId → ScopeId}

theorem onto_moved : (s.onto base).moved g = (s.moved g).onto (base.map (Frame.moved g)) := by
  cases s <;> simp [onto, moved]

theorem Fits.moved (fits : s.Fits p) : (s.moved g).Fits p := by
  have frames : ∀ k : Continuation, k.Fits p → Continuation.Fits p (k.map (Frame.moved g)) := by
    intro k fits f member
    obtain ⟨f, old, rfl⟩ := List.mem_map.1 member
    exact fits f old
  cases s with
  | eval b e k => exact ⟨fits.1, frames k fits.2⟩
  | resume _ k | invoke _ k | yield _ k => exact frames k fits

theorem blocks_moved : (s.moved g).blocks = s.blocks := by
  have frames : ∀ k : Continuation, Continuation.blocks (k.map (Frame.moved g)) = k.blocks := by
    intro k
    simp [Continuation.blocks, List.flatMap_map, Frame.moved]
  cases s <;> simp [moved, frames]

theorem Within.moved (within : s.Within p bound base) :
    (s.moved g).Within p bound (base.map (Frame.moved g)) := by
  obtain ⟨inner, rfl, fits, before⟩ := within
  refine ⟨inner.moved g, onto_moved, fits.moved, ?_⟩
  unfold Before
  rw [blocks_moved]
  exact before

end Step

namespace Machine
variable {σ : Type} {m : Machine σ} {p : Program} {base : Continuation} {s : Step}

/-- Until it signals to the base a run stays over it, and neither fails nor completes. -/
theorem step_within (wf : m.program.WellFormed) (standard : m.table = .standard)
    (same : p.blocks = m.program.blocks) (within : s.Within p bound base)
    (quiet : s.NotAt base) (w : World σ) :
    s.Over base ∧ (m.step w s).2.standing.GoesOn (·.Within p bound base) := by
  obtain ⟨inner, rfl, fits, before⟩ := within
  have above : inner.NotAt [] := by
    rintro signal rfl
    exact quiet signal rfl
  refine ⟨⟨inner, rfl, above⟩, ?_⟩
  rw [step_onto above]
  rcases step_next_or_yield standard fits above w with ⟨w', s', step⟩ | ⟨request, k, rfl⟩
  · rw [step]
    have leads := leads_of_step step
    exact ⟨s', rfl, leads_fits same fits leads, leads_before wf fits before leads⟩
  · exact fun signal => ⟨.resume signal k, rfl, fits, before⟩

end Machine

end FlowScript
