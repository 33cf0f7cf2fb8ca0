import FlowScript.Proofs.Confinement
import FlowScript.Proofs.Journey

/-! Requests as calls. A program that suspends to ask its host runs as one does that calls a function of
the host instead: the two take the same steps, one for one, over frames that differ only where a request
is still being evaluated. -/
namespace FlowScript

/-! ### Programs that call instead -/

/-- The name of the host function that stands for requests. -/
def Invocation.askName : String := "ask"

/-- The call that stands for a request. -/
def Invocation.ask (request : Value) : Invocation := .methodCall .null askName [request]

/-- The arguments of a call that stands for a request. -/
def Invocation.asked? : Invocation → Option (List Value)
  | .methodCall .null method args => if method = askName then some args else none
  | _ => none

/-- A request becomes a call without a receiver. -/
def Block.asking : Block → Block
  | .yield request => .call none Invocation.askName [request]
  | block => block

def Program.asking (p : Program) : Program := ⟨(p.blocks.toList.map Block.asking).toArray, p.root⟩

/-- The name under which a block calls. -/
def Block.method? : Block → Option String
  | .call _ method _ => some method
  | _ => none

/-- No call has the name of the function that stands for requests. -/
def Program.NeverAsks (p : Program) : Prop :=
  ∀ block ∈ p.blocks, block.method? ≠ some Invocation.askName

/-- What a signal is as the answer to a call. -/
def Signal.reply : Signal → Except Failure Value
  | .value v => .ok v
  | .thrown f => .error f

/-- The host with one more function, which gives the answers in turn and keeps what it was asked. -/
def Host.answering (host : Host σ) (answers : Nat → Signal) : Host (σ × List (List Value)) :=
  fun call (u, asked) =>
    match call.asked? with
    | some args => ((answers asked.length).reply, u, asked ++ [args])
    | none => ((host call u).1, (host call u).2, asked)

/-! ### Answering requests -/

/-- The step with which a suspended run takes the answer. -/
def Suspension.answered (x : Suspension) : Signal → Step
  | .value v => x.resume v
  | .thrown f => x.resumeWithFailure f

/-- What a step asks: a request counts as the call that stands for it. -/
def Step.question? : Step → Option Invocation
  | .invoke call _ => some call
  | .yield request _ => some (.ask request)
  | _ => none

/-- A run with the answers to its requests: the world and the outcome it has come to, what it has
requested, and the steps that it has taken. -/
structure Exchange (σ : Type) where
  world : World σ
  outcome : Outcome
  requests : List Value
  steps : List (World σ × Step)

def Exchange.after (steps : List (World σ × Step)) (x : Exchange σ) : Exchange σ :=
  { x with steps := steps ++ x.steps }

theorem Machine.path_pos_of_suspended {m : Machine σ} (ran : m.run n w s = (w', .suspended x)) :
    0 < n ∧ 0 < (m.path n w s).length := by
  cases cancelled : m.isCancelled w.host with
  | true => simp [run_cancelled cancelled] at ran
  | false =>
    cases n with
    | zero => simp [Machine.run, cancelled] at ran
    | succ n => simp [path, cancelled]

/-- Runs with a budget for all steps. Wherever the run suspends, it is resumed with the next answer. -/
def Machine.converse (m : Machine σ) (answers : Nat → Signal) (n : Nat) (w : World σ) (s : Step)
    (requests : List Value) : Exchange σ :=
  match _ran : m.run n w s with
  | (w', .suspended x) =>
    (m.converse answers (n - (m.path n w s).length) w' (x.answered (answers requests.length))
      (requests ++ [x.request])).after (m.path n w s)
  | (w', outcome) => ⟨w', outcome, requests, m.path n w s⟩
termination_by n
decreasing_by
  have := path_pos_of_suspended _ran
  omega

namespace Machine
variable {σ : Type} {m : Machine σ} {answers : Nat → Signal} {w w' : World σ} {s : Step}
  {requests : List Value} {outcome : Outcome}

theorem converse_suspended (ran : m.run n w s = (w', .suspended x)) :
    m.converse answers n w s requests =
      (m.converse answers (n - (m.path n w s).length) w' (x.answered (answers requests.length))
        (requests ++ [x.request])).after (m.path n w s) := by
  rw [converse.eq_def]
  split
  · next ran' =>
    obtain ⟨rfl, same⟩ := Prod.mk.inj (ran.symm.trans ran')
    obtain rfl := Outcome.suspended.inj same
    rfl
  · next waits ran' =>
    obtain ⟨rfl, rfl⟩ := Prod.mk.inj (ran.symm.trans ran')
    exact absurd rfl (waits x)

theorem converse_stopped (ran : m.run n w s = (w', outcome)) (stopped : ∀ x, outcome ≠ .suspended x) :
    m.converse answers n w s requests = ⟨w', outcome, requests, m.path n w s⟩ := by
  rw [converse.eq_def]
  split
  · next x ran' =>
    obtain ⟨rfl, rfl⟩ := Prod.mk.inj (ran.symm.trans ran')
    exact absurd rfl (stopped x)
  · next ran' =>
    obtain ⟨rfl, rfl⟩ := Prod.mk.inj (ran.symm.trans ran')
    rfl

theorem converse_cancelled (cancelled : m.isCancelled w.host = true) (n : Nat) :
    m.converse answers n w s requests = ⟨w, .cancelled, requests, []⟩ := by
  rw [converse_stopped (run_cancelled cancelled n) nofun, path_cancelled cancelled]

theorem converse_zero (alive : m.isCancelled w.host = false) :
    m.converse answers 0 w s requests = ⟨w, .outOfBudget s, requests, []⟩ := by
  have ran : m.run 0 w s = (w, .outOfBudget s) := by simp [run, alive]
  exact converse_stopped ran fun x => by simp

theorem converse_next (alive : m.isCancelled w.host = false) (step : m.step w s = (w₁, .next s₁))
    (n : Nat) :
    m.converse answers (n + 1) w s requests =
      (m.converse answers n w₁ s₁ requests).after [(w, s)] := by
  rcases ran : m.run n w₁ s₁ with ⟨w', outcome⟩
  have ran' := (run_next alive step n).trans ran
  cases outcome with
  | suspended x =>
    rw [converse_suspended ran, converse_suspended ran', path_next alive step, List.length_cons,
      Nat.add_sub_add_right]
    rfl
  | completed | failed | cancelled | outOfBudget =>
    rw [converse_stopped ran nofun, converse_stopped ran' nofun, path_next alive step]
    rfl

theorem converse_yield (alive : m.isCancelled w.host = false) (n : Nat) :
    m.converse answers (n + 1) w (.yield request k) requests =
      (m.converse answers n w (.resume (answers requests.length) k) (requests ++ [request])).after
        [(w, .yield request k)] := by
  have step : m.step w (.yield request k) = (w, .ended (.suspended ⟨request, k⟩)) := rfl
  rw [converse_suspended (run_ended alive step n), path_ended alive step]
  cases answers requests.length <;> rfl

theorem converse_ended (alive : m.isCancelled w.host = false) (step : m.step w s = (w', .ended outcome))
    (stopped : ∀ x, outcome ≠ .suspended x) (n : Nat) :
    m.converse answers (n + 1) w s requests = ⟨w', outcome, requests, [(w, s)]⟩ := by
  rw [converse_stopped (run_ended alive step n) stopped, path_ended alive step]

end Machine

/-! ### Frames that request and frames that call -/

/-- A name other than that of the function that stands for requests. -/
def IsOtherName (method : String) : Prop := method ≠ Invocation.askName

/-- The frame belongs to neither a request nor a call that stands for one. -/
def Frame.Silent (f : Frame) : Prop := f.captured.Confined IsOtherName False

/-- The step neither requests nor asks, and no frame of it does. -/
abbrev Step.Silent : Step → Prop := Step.Confined IsOtherName False

/-- The same frame, or one that waits for a request and one that waits for the argument of the call. -/
inductive Frame.Asks : Frame → Frame → Prop where
  | silent : f.Silent → Asks f f
  | request : Asks ⟨.request, e, .yield⟩
      ⟨.callArgument, e, .call Invocation.askName [b] (some .null) []⟩

abbrev Continuation.Asks : Continuation → Continuation → Prop := List.Forall₂ Frame.Asks

/-- Steps at the same place of a run that requests and of one that calls. -/
inductive Step.Asks : Step → Step → Prop where
  | eval : Continuation.Asks k k' → Asks (.eval b e k) (.eval b e k')
  | resume : Continuation.Asks k k' → Asks (.resume signal k) (.resume signal k')
  | invoke : call.asked? = none → Continuation.Asks k k' → Asks (.invoke call k) (.invoke call k')
  | request : Continuation.Asks k k' → Asks (.yield request k) (.invoke (.ask request) k')

theorem Invocation.Confined.not_asked {call : Invocation} (confined : call.Confined IsOtherName) :
    call.asked? = none := by
  cases call with
  | methodCall receiver method args =>
    have named : method ≠ askName := confined
    cases receiver <;> simp [asked?, named]
  | _ => rfl

theorem Continuation.asks_self {k : Continuation} (silent : k.Confined IsOtherName False) : Asks k k :=
  List.forall₂_same.2 fun f member => .silent (silent f member)

/-- A silent step stays as it is over frames at the same place. -/
theorem Step.Confined.asks {s : Step} (silent : s.Silent) (below : Continuation.Asks k k') :
    (s.onto k).Asks (s.onto k') := by
  cases silent with
  | eval frames => exact .eval (List.rel_append (Continuation.asks_self frames) below)
  | resume frames => exact .resume (List.rel_append (Continuation.asks_self frames) below)
  | invoke other frames =>
    exact .invoke other.not_asked (List.rel_append (Continuation.asks_self frames) below)
  | yield impossible => exact impossible.elim

namespace Frame

/-- Frames at the same place do the same to the scopes and lead to steps at the same place. -/
theorem Asks.resume {f f' : Frame} (asks : f.Asks f') (below : Continuation.Asks k k') (s : Signal) :
    (∃ problem, f.resume s k = .error problem ∧ f'.resume s k' = .error problem) ∨
      ∃ go go', f.resume s k = .ok go ∧ f'.resume s k' = .ok go' ∧
        ∀ h, (go h).1 = (go' h).1 ∧ (go h).2.Asks (go' h).2 := by
  cases asks with
  | silent silent =>
    -- What the frame does by itself does not depend on the frames below it.
    have stacked : f.resume s k = (f.resume s []).map (Resumption.onto k) := f.resume_append (k := []) s
    have stacked' : f.resume s k' = (f.resume s []).map (Resumption.onto k') := f.resume_append (k := []) s
    cases resumed : f.resume s [] with
    | error problem =>
      rw [resumed] at stacked stacked'
      exact .inl ⟨problem, stacked, stacked'⟩
    | ok go =>
      rw [resumed] at stacked stacked'
      exact .inr ⟨_, _, stacked, stacked',
        fun h => ⟨rfl, (confined_resume silent resumed h).asks below⟩⟩
  | request =>
    refine .inr ⟨_, _, rfl, rfl, fun h => ?_⟩
    cases s with
    | value v => exact ⟨rfl, .request below⟩
    | thrown f => exact ⟨rfl, .resume below⟩

theorem Asks.point {f f' : Frame} (asks : f.Asks f') : f.point.intercepts = f'.point.intercepts := by
  cases asks <;> rfl

end Frame

/-! ### Blocks -/

theorem Program.asking_block? (p : Program) (b : BlockId) :
    p.asking.block? b = (p.block? b).map Block.asking := by
  simp [block?, asking]

/-- A block that does not request stays as it is, and calls what it has called before. -/
theorem Block.asking_or_confined (block : Block) (other : block.method? ≠ some Invocation.askName) :
    (∃ request, block = .yield request) ∨
      block.asking = block ∧ block.Confined IsOtherName False := by
  cases block with
  | yield request => exact .inl ⟨request, rfl⟩
  | call receiver method args => exact .inr ⟨rfl, fun same => other (congrArg some same)⟩
  | _ => exact .inr ⟨rfl, trivial⟩

theorem Program.NeverAsks.evaluate {p : Program} (never : p.NeverAsks)
    (below : Continuation.Asks k k') (h : Heap) (b : BlockId) (e : ScopeId) :
    (p.evaluate h b e k).1 = (p.asking.evaluate h b e k').1 ∧
      (p.evaluate h b e k).2.Asks (p.asking.evaluate h b e k').2 := by
  unfold Program.evaluate
  rw [p.asking_block?]
  cases found : p.block? b with
  | none => exact ⟨rfl, .resume below⟩
  | some block =>
    simp only [Option.map_some]
    obtain ⟨request, rfl⟩ | ⟨same, silent⟩ :=
      block.asking_or_confined (never block (Array.mem_of_getElem? found))
    · exact ⟨rfl, .eval (.cons .request below)⟩
    · have stacked : block.evaluate h e k = _ := block.evaluate_append (k := [])
      have stacked' : block.evaluate h e k' = _ := block.evaluate_append (k := [])
      rw [same, stacked, stacked']
      exact ⟨rfl, (Block.confined_evaluate silent h e).asks below⟩

/-! ### Whole runs -/

variable {σ : Type} {host : Host σ} {answers : Nat → Signal} {isCancelled : σ → Bool} {p : Program}

/-- The run that calls has come to the same world, and has asked what the other one has requested. -/
structure World.Asks (requests : List Value) (w : World σ) (w' : World (σ × List (List Value))) : Prop where
  heap : w.heap = w'.heap
  host : (w.host, requests.map ([·])) = w'.host

/-- The same end, or steps at the same place where the budget has run out. -/
inductive Outcome.Asks : Outcome → Outcome → Prop where
  | completed : Asks (.completed v) (.completed v)
  | failed : Asks (.failed f) (.failed f)
  | cancelled : Asks .cancelled .cancelled
  | outOfBudget : s.Asks s' → Asks (.outOfBudget s) (.outOfBudget s')

theorem Outcome.Asks.stopped {outcome outcome' : Outcome} (asks : outcome.Asks outcome') (x : Suspension) :
    outcome ≠ .suspended x := by
  rintro rfl
  exact nomatch asks

theorem Outcome.Asks.completed? {outcome outcome' : Outcome} (asks : outcome.Asks outcome') :
    outcome.completed? = outcome'.completed? := by
  cases asks <;> rfl

/-- The machine of a program that requests. -/
def Program.requesting (p : Program) (host : Host σ) (isCancelled : σ → Bool) : Machine σ :=
  ⟨p, .standard, host, isCancelled⟩

/-- The machine of a program that calls instead, whose host knows the answers. -/
def Program.calling (p : Program) (host : Host σ) (answers : Nat → Signal) (isCancelled : σ → Bool) :
    Machine (σ × List (List Value)) :=
  ⟨p.asking, .standard, host.answering answers, fun u => isCancelled u.1⟩

theorem World.Asks.polled {w : World σ} {w' : World (σ × List (List Value))} (worlds : w.Asks requests w') :
    (p.calling host answers isCancelled).isCancelled w'.host =
      (p.requesting host isCancelled).isCancelled w.host := by
  simp only [Program.calling, Program.requesting, ← worlds.host]

/-- What one step of either run comes to: steps at the same place, or the same end. A request is a step
too, with which the run that calls has its answer. -/
inductive Turn.Asks (answers : Nat → Signal) (requests : List Value) :
    World σ × Turn → World (σ × List (List Value)) × Turn → Prop where
  | next : w.Asks requests w' → s.Asks s' → Asks answers requests (w, .next s) (w', .next s')
  | request : w.Asks (requests ++ [request]) w' → Continuation.Asks k k' →
      Asks answers requests (w, .ended (.suspended ⟨request, k⟩))
        (w', .next (.resume (answers requests.length) k'))
  | ended : w.Asks requests w' → outcome.Asks outcome' →
      Asks answers requests (w, .ended outcome) (w', .ended outcome')

theorem Host.answering_other (other : call.asked? = none) (u : σ) (asked : List (List Value)) :
    host.answering answers call (u, asked) = ((host call u).1, (host call u).2, asked) := by
  simp only [Host.answering, other]

theorem Host.answering_ask (request : Value) (u : σ) (asked : List (List Value)) :
    host.answering answers (.ask request) (u, asked) =
      ((answers asked.length).reply, u, asked ++ [[request]]) := rfl

theorem Frame.ofResult_asks (below : Continuation.Asks k k') : (ofResult r k).Asks (ofResult r k') := by
  cases r <;> exact .resume below

theorem Frame.ofResult_reply (s : Signal) : ofResult s.reply k = .resume s k := by cases s <;> rfl

theorem Step.Asks.step {s s' : Step} (never : p.NeverAsks) (asks : s.Asks s')
    {w : World σ} {w' : World (σ × List (List Value))} (worlds : w.Asks requests w') :
    Turn.Asks answers requests ((p.requesting host isCancelled).step w s)
      ((p.calling host answers isCancelled).step w' s') := by
  obtain ⟨h, u⟩ := w
  obtain ⟨h', u'⟩ := w'
  obtain ⟨rfl, rfl⟩ := worlds
  cases asks with
  | @eval _ _ b e below =>
    obtain ⟨heap, next⟩ := never.evaluate below h b e
    exact .next ⟨heap, rfl⟩ next
  | invoke other below =>
    simp only [Machine.step, Program.calling, Host.answering_other other]
    exact .next ⟨rfl, rfl⟩ (Frame.ofResult_asks below)
  | request below =>
    simp only [Machine.step, Program.calling, Host.answering_ask, List.length_map, Frame.ofResult_reply]
    exact .request ⟨rfl, by simp⟩ below
  | @resume _ _ signal below =>
    cases below with
    | nil => cases signal <;> exact .ended ⟨rfl, rfl⟩ (by constructor)
    | @cons f f' k k' frames below =>
      by_cases passes : signal.isThrown && !f.point.intercepts
      · have passes' := frames.point ▸ passes
        simp only [Machine.step, Program.requesting, Program.calling, Table.deliver,
          Table.standard_contains, passes, passes']
        exact .next ⟨rfl, rfl⟩ (.resume below)
      · have passes' := frames.point ▸ passes
        simp only [Machine.step, Program.requesting, Program.calling, Table.deliver,
          Table.standard_contains, passes, passes', Table.resumeInnermost]
        rcases frames.resume below signal with ⟨problem, failed, failed'⟩ | ⟨go, go', goes, goes', same⟩
        · rw [failed, failed']
          exact .ended ⟨rfl, rfl⟩ .failed
        · rw [goes, goes']
          exact .next ⟨(same h).1, rfl⟩ (same h).2

/-- Steps at the same place, over the same scopes and the same state of the host. -/
structure Step.AsksIn (a : World σ × Step) (b : World (σ × List (List Value)) × Step) : Prop where
  heap : a.1.heap = b.1.heap
  host : a.1.host = b.1.host.1
  step : a.2.Asks b.2

/-- The run that calls has come to where the exchange has come, by steps at the same places. -/
structure Exchange.Asks (x : Exchange σ) (ran : World (σ × List (List Value)) × Outcome)
    (path : List (World (σ × List (List Value)) × Step)) : Prop where
  world : x.world.Asks x.requests ran.1
  outcome : x.outcome.Asks ran.2
  steps : List.Forall₂ Step.AsksIn x.steps path

theorem Exchange.Asks.after {x : Exchange σ} (here : Step.AsksIn a b) (rest : x.Asks ran path) :
    (x.after [a]).Asks ran (b :: path) :=
  ⟨rest.world, rest.outcome, .cons here rest.steps⟩

/-- The run that calls follows the one that requests step by step, and ends where it ends. -/
theorem Step.Asks.run {s s' : Step} (never : p.NeverAsks) (asks : s.Asks s')
    {w : World σ} {w' : World (σ × List (List Value))} (worlds : w.Asks requests w') (n : Nat) :
    ((p.requesting host isCancelled).converse answers n w s requests).Asks
      ((p.calling host answers isCancelled).run n w' s')
      ((p.calling host answers isCancelled).path n w' s') := by
  generalize left : p.requesting host isCancelled = l
  generalize right : p.calling host answers isCancelled = r
  induction n generalizing w w' s s' requests with
  | zero =>
    have polled : r.isCancelled w'.host = l.isCancelled w.host := left ▸ right ▸ worlds.polled
    cases cancelled : l.isCancelled w.host with
    | true =>
      rw [Machine.converse_cancelled cancelled, Machine.run_cancelled (polled.trans cancelled)]
      exact ⟨worlds, .cancelled, .nil⟩
    | false =>
      rw [Machine.converse_zero cancelled, Machine.run, polled, cancelled]
      exact ⟨worlds, .outOfBudget asks, .nil⟩
  | succ n ih =>
    have polled : r.isCancelled w'.host = l.isCancelled w.host := left ▸ right ▸ worlds.polled
    have here : Step.AsksIn (w, s) (w', s') := ⟨worlds.heap, congrArg Prod.fst worlds.host, asks⟩
    cases cancelled : l.isCancelled w.host with
    | true =>
      rw [Machine.converse_cancelled cancelled, Machine.run_cancelled (polled.trans cancelled),
        Machine.path_cancelled (polled.trans cancelled)]
      exact ⟨worlds, .cancelled, .nil⟩
    | false =>
      have alive := polled.trans cancelled
      have turns : Turn.Asks answers requests ((p.requesting host isCancelled).step w s)
          ((p.calling host answers isCancelled).step w' s') := asks.step never worlds
      rw [left, right] at turns
      rcases step : l.step w s with ⟨w₁, turn⟩
      rcases step' : r.step w' s' with ⟨w₁', turn'⟩
      rw [step, step'] at turns
      cases turns with
      | next moved asks =>
        rw [Machine.converse_next cancelled step, Machine.run_next alive step',
          Machine.path_next alive step']
        exact (ih asks moved).after here
      | request moved below =>
        -- The exchange takes the answer at once, as the run that calls does with its step.
        obtain ⟨x, same, rfl, rfl⟩ | ⟨_, impossible, _⟩ | ⟨_, impossible, _⟩ :=
          Machine.step_ended step
        · obtain rfl := Outcome.suspended.inj same
          rw [Machine.converse_yield cancelled, Machine.run_next alive step',
            Machine.path_next alive step']
          exact (ih (.resume below) moved).after here
        · cases impossible
        · cases impossible
      | ended moved outcomes =>
        rw [Machine.converse_ended cancelled step outcomes.stopped, Machine.run_ended alive step',
          Machine.path_ended alive step']
        exact ⟨moved, outcomes, .cons here .nil⟩

/-! ### What the runs ask -/

/-- The call is not one that stands for a request. -/
def Invocation.isOther (call : Invocation) : Bool := call.asked?.isNone

theorem Step.Asks.questions {s s' : Step} (asks : s.Asks s') :
    s.question? = s'.call? ∧ s.call? = s'.call?.filter Invocation.isOther := by
  cases asks with
  | invoke other => simp [Step.question?, Step.call?, Invocation.isOther, other, Option.filter]
  | request => exact ⟨rfl, rfl⟩
  | eval | resume => exact ⟨rfl, rfl⟩

/-- The run that calls asks the same in the same order, and the same of the host alone. -/
theorem questions_eq {steps : List (World σ × Step)} {steps' : List (World (σ × List (List Value)) × Step)}
    (same : List.Forall₂ Step.AsksIn steps steps') :
    steps.filterMap (·.2.question?) = calls steps' ∧
      calls steps = (calls steps').filter Invocation.isOther := by
  induction same with
  | nil => exact ⟨rfl, rfl⟩
  | @cons a b _ _ here _ ih =>
    obtain ⟨question, call⟩ := here.step.questions
    simp only [calls] at ih ⊢
    rw [List.filterMap_cons, List.filterMap_cons, List.filterMap_cons, question, call]
    cases b.2.call? with
    | none => exact ih
    | some made =>
      cases other : made.isOther <;> simp [Option.filter, other, ih]

theorem Host.answering_notes (call : Invocation) (u : σ × List (List Value)) :
    (host.answering answers call u).2.2 = u.2 ++ call.asked?.toList := by
  cases asked : call.asked? <;> simp [answering, asked]

theorem Block.children_asking (block : Block) : block.asking.children = block.children := by
  cases block <;> rfl

/-- The program that calls is as well formed as the one that requests. -/
theorem Program.validate_asking (p : Program) : p.asking.validate = p.validate := by
  have size : p.asking.size = p.size := by simp [Program.size, asking]
  have references : p.asking.badReference? = p.badReference? := by
    simp only [badReference?, asking, List.zipIdx_map, List.findSome?_map]
    congr
    funext b
    simp [Block.children_asking]
  have root : p.asking.root = p.root := rfl
  simp only [validate, size, references, root]

/-- Suspending is the same as a call to the host that blocks. Whatever the host, the answers and the budget,
a run that is resumed with an answer wherever it has suspended and the run of the program that calls instead
take the same steps, one for one. They ask the same in the same order, and the same of the host alone, keep
the same scopes and come to the same end; and one program is valid where the other is. -/
theorem requests_run_as_calls (p : Program) (never : p.NeverAsks) (host : Host σ)
    (isCancelled : σ → Bool) (answers : Nat → Signal) (h : Heap) (u : σ) (e : ScopeId) (n : Nat) :
    let m := p.requesting host isCancelled
    let x := m.converse answers n ⟨h, u⟩ (m.start e) []
    let m' := p.calling host answers isCancelled
    let ran := m'.run n ⟨h, u, []⟩ (m'.start e)
    let path := m'.path n ⟨h, u, []⟩ (m'.start e)
    p.asking.validate = p.validate ∧
      (ran.1.heap = x.world.heap ∧ ran.1.host = (x.world.host, x.requests.map ([·]))) ∧
      x.outcome.Asks ran.2 ∧
      (calls path).filterMap Invocation.asked? = x.requests.map ([·]) ∧
      (calls path).filter Invocation.isOther = calls x.steps ∧
      calls path = x.steps.filterMap (·.2.question?) ∧
      List.Forall₂ Step.AsksIn x.steps path := by
  intro m x m' ran path
  have worlds : World.Asks [] (⟨h, u⟩ : World σ) ⟨h, u, []⟩ := ⟨rfl, rfl⟩
  have same : x.Asks ran path := Step.Asks.run never (.eval .nil) worlds n
  obtain ⟨questions, others⟩ := questions_eq same.steps
  have log : ran.1.host.2 = [] ++ (calls path).flatMap fun call => call.asked?.toList :=
    m'.run_log Host.answering_notes n ⟨h, u, []⟩ (m'.start e)
  refine ⟨p.validate_asking, ⟨same.world.heap.symm, same.world.host.symm⟩, same.outcome, ?asked,
    others.symm, questions.symm, same.steps⟩
  case asked =>
    rw [← same.world.host] at log
    simpa [List.filterMap_eq_flatMap_toList] using log.symm

/-- A guest is asked twice for what to note. The first answer goes into the note; the second one is a
refusal, which the clause around the call catches. -/
theorem refused_request_is_caught :
    let p : Program :=
      ⟨#[.constant (.str "drink?"), .yield 0, .call none "note" [1], .readVariable "refusal",
        .tryCatch 2 [⟨some "Refused", "refusal", 3⟩] none, .sequence [2, 4]], 5⟩
    let refusal : Failure := .plain "Refused" "not thirsty"
    let host : Host (List Value) := fun call u =>
      match call with
      | .methodCall _ _ args => (.ok .null, u ++ args)
      | _ => (.ok .null, u)
    let answers : Nat → Signal := fun i => if i = 0 then .value (.str "tea") else .thrown refusal
    let m := p.requesting host fun _ => false
    let x := m.converse answers 30 ⟨Heap.empty.addScope none [], []⟩ (m.start 0) []
    p.NeverAsks ∧ x.requests = [.str "drink?", .str "drink?"] ∧ x.world.host = [.str "tea"] ∧
      x.outcome.completed? = some refusal.toValue := by
  intro p refusal host answers m x
  have never : p.NeverAsks := by
    simp [Program.NeverAsks, p, Block.method?, Invocation.askName]
  obtain ⟨_, ⟨_, kept⟩, outcome, _⟩ :=
    requests_run_as_calls p never host (fun _ => false) answers (Heap.empty.addScope none []) [] 0 30
  have reached : ([.str "tea"], [[.str "drink?"], [.str "drink?"]]) =
      (x.world.host, x.requests.map ([·])) := Eq.trans (by rfl) kept
  obtain ⟨noted, asked⟩ := Prod.mk.inj reached
  have asked : [.str "drink?", .str "drink?"] = x.requests :=
    List.map_injective_iff.2 List.singleton_injective asked
  exact ⟨never, asked.symm, noted.symm, outcome.completed?.trans (by rfl)⟩

end FlowScript
