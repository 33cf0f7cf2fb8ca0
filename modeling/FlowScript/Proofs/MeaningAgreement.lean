import FlowScript.Proofs.Meaning

/-! The machine computes the values of blocks: driven from the evaluation of a block, it does at the
continuation what the recursion does, and stops or goes on for ever where the recursion does. -/
namespace FlowScript

/-- The step resumes nothing, or frames above the continuation. -/
def Step.Above (k : Continuation) (s : Step) : Prop :=
  ∀ signal k', s = .resume signal k' → k.length < k'.length

namespace Step

theorem Above.notAt (above : Above k s) : NotAt k s := by
  rintro signal rfl
  exact Nat.lt_irrefl _ (above signal k rfl)

theorem Above.of_cons (above : Above (f :: k) s) : Above k s := by
  rintro signal k' rfl
  exact Nat.lt_of_succ_lt (above signal k' rfl)

@[simp] theorem above_eval : Above k (.eval b e k') := by rintro _ _ ⟨⟩

@[simp] theorem above_evalFor : Above k (.evalFor b e point captured k') := by rintro _ _ ⟨⟩

@[simp] theorem above_invoke : Above k (.invoke call k') := by rintro _ _ ⟨⟩

@[simp] theorem above_yield : Above k (.yield request k') := by rintro _ _ ⟨⟩

@[simp] theorem above_ofResult : Above k (Frame.ofResult r (f :: k)) := by
  cases r <;> rintro _ _ ⟨⟩ <;> simp

end Step

namespace Direct
variable {σ : Type} {x : Direct σ α} {f : α → Direct σ β}

/-- What an evaluation gives at a store. -/
abbrev Given (σ α : Type) := Option (Except OutOfAnswers (Except Failure α × Store σ))

theorem bind_apply (x : Direct σ α) (f : α → Direct σ β) (st : Store σ) :
    (x >>= f) st =
      match x st with
      | none => none
      | some (.error o) => some (.error o)
      | some (.ok (.error e, st')) => some (.ok (.error e, st'))
      | some (.ok (.ok a, st')) => f a st' := by
  show StateT.bind x _ st = _
  simp only [StateT.bind, bind, ExceptT.bind, ExceptT.bindCont, ExceptT.mk]
  cases h : x st with
  | none => rfl
  | some given =>
    obtain _ | ⟨_ | _, _⟩ := given <;> rfl

theorem attempt_apply (x : Direct σ α) (st : Store σ) :
    attempt x st =
      match x st with
      | none => none
      | some (.error o) => some (.error o)
      | some (.ok (r, st')) => some (.ok (.ok r, st')) := by
  show StateT.map _ x st = _
  simp only [StateT.map, bind, ExceptT.bind, ExceptT.mk]
  cases h : x st with
  | none => rfl
  | some given =>
    obtain _ | ⟨_ | _, _⟩ := given <;> rfl

theorem lookupFrom_apply (e : ScopeId) (name : String) (st : Store σ) :
    lookupFrom e name st =
      some (.ok ((st.world.heap.lookup e name).elim (.error (.missingVariable name)) .ok, st)) := by
  have read : heap st = some (.ok (.ok st.world.heap, st)) := rfl
  simp only [lookupFrom, bind_apply, read]
  cases st.world.heap.lookup e name <;> rfl

end Direct

open Direct

namespace Machine
variable {σ : Type} {m : Machine σ} {k : Continuation} {n : Nat} {c c' : Situation σ}

/-- What the machine does from a situation up to the continuation is what an evaluation gives: where it
is not done, the machine takes `n` steps, and where it is, the machine comes to the next step. -/
def Follows (m : Machine σ) (k : Continuation) (n : Nat) (c : Situation σ)
    (next : Except Failure α → Step) : Given σ α → Prop
  | none => ∃ d, m.Drives (Step.Above k) n c d
  | some (.error _) => ∃ j d, m.Drives (Step.Above k) j c d ∧ d.Unanswered
  | some (.ok (r, st)) => ∃ j, m.Drives (Step.Above k) j c ⟨st, next r⟩

theorem Follows.done {next : Except Failure α → Step} {r : Except Failure α} (arrived : s = next r) :
    m.Follows k n ⟨st, s⟩ next (some (.ok (r, st))) := ⟨0, arrived ▸ .done⟩

theorem Follows.not_yet {next : Except Failure α → Step} : m.Follows k 0 c next none := ⟨c, .done⟩

/-- An advance counts as one step of those to take. -/
theorem Follows.advance {next : Except Failure α → Step} {given : Given σ α}
    (above : Step.Above k c.step) (step : m.advance c = some c')
    (follows : m.Follows k (n - 1) c' next given) : m.Follows k n c next given := by
  match given with
  | none =>
    obtain ⟨d, run⟩ := follows
    match n with
    | 0 => exact ⟨c, .done⟩
    | n + 1 => exact ⟨d, .more above step run⟩
  | some (.error _) =>
    obtain ⟨j, d, run, unanswered⟩ := follows
    exact ⟨j + 1, d, .more above step run, unanswered⟩
  | some (.ok (r, st)) =>
    obtain ⟨j, run⟩ := follows
    exact ⟨j + 1, .more above step run⟩

/-- The same from one advance on. -/
theorem Follows.tail {next : Except Failure α → Step} {given : Given σ α}
    (away : ∀ r, c.step ≠ next r) (step : m.advance c = some c')
    (follows : m.Follows k n c next given) : m.Follows k (n - 1) c' next given := by
  match given with
  | none =>
    obtain ⟨d, run⟩ := follows
    match run with
    | .done => exact ⟨c', .done⟩
    | .more _ step' rest =>
      obtain rfl := Option.some.inj (step.symm.trans step')
      exact ⟨d, rest⟩
  | some (.error _) =>
    obtain ⟨_, d, run, unanswered⟩ := follows
    match run with
    | .done =>
      obtain ⟨none_left, request, k', here⟩ := unanswered
      simp [Machine.advance, Machine.step, here, none_left] at step
    | .more _ step' rest =>
      obtain rfl := Option.some.inj (step.symm.trans step')
      exact ⟨_, d, rest, unanswered⟩
  | some (.ok (r, st)) =>
    obtain ⟨_, run⟩ := follows
    cases run with
    | done => exact absurd rfl (away r)
    | more _ step' rest =>
      obtain rfl := Option.some.inj (step.symm.trans step')
      exact ⟨_, rest⟩

theorem Follows.weaken {next : Except Failure α → Step} {given : Given σ α} {n' : Nat} (le : n' ≤ n)
    (follows : m.Follows k n c next given) : m.Follows k n' c next given := by
  match given with
  | none =>
    obtain ⟨d, run⟩ := follows
    obtain ⟨i, rfl⟩ := Nat.le.dest le
    exact run.take
  | some (.error _) => exact follows
  | some (.ok _) => exact follows

/-- What happens above a frame happens above the frames below it. -/
theorem Follows.of_cons {next : Except Failure α → Step} {given : Given σ α}
    (follows : m.Follows (f :: k) n c next given) : m.Follows k n c next given := by
  match given with
  | none =>
    obtain ⟨d, run⟩ := follows
    exact ⟨d, run.imp fun _ => Step.Above.of_cons⟩
  | some (.error _) =>
    obtain ⟨j, d, run, unanswered⟩ := follows
    exact ⟨j, d, run.imp fun _ => Step.Above.of_cons, unanswered⟩
  | some (.ok _) =>
    obtain ⟨j, run⟩ := follows
    exact ⟨j, run.imp fun _ => Step.Above.of_cons⟩

/-- Goes through the end of one evaluation to the next. -/
theorem Follows.trans {next' : Except Failure β → Step} {given : Given σ β}
    (run : m.Drives (Step.Above k) j c c')
    (follows : m.Follows k n c' next' given) : m.Follows k n c next' given := by
  match given with
  | none =>
    obtain ⟨d, rest⟩ := follows
    exact Drives.take (i := n) (j := j) (by simpa [Nat.add_comm] using run.trans rest)
  | some (.error _) =>
    obtain ⟨i, d, rest, unanswered⟩ := follows
    exact ⟨j + i, d, run.trans rest, unanswered⟩
  | some (.ok _) =>
    obtain ⟨i, rest⟩ := follows
    exact ⟨j + i, run.trans rest⟩

/-- One evaluation after the other: the next one starts at the step of the first one's outcome. -/
theorem Follows.bind {x : Direct σ α} {g : α → Direct σ β} {next : Except Failure α → Step}
    {next' : Except Failure β → Step} (first : m.Follows k n c next (x st))
    (failed : ∀ f st', m.Follows k n ⟨st', next (.error f)⟩ next' (some (.ok (.error f, st'))))
    (follows : ∀ a st', m.Follows k n ⟨st', next (.ok a)⟩ next' (g a st')) :
    m.Follows k n c next' ((x >>= g) st) := by
  rw [bind_apply]
  match given : x st with
  | none =>
    rw [given] at first
    exact first
  | some (.error _) =>
    rw [given] at first
    exact first
  | some (.ok (.error f, st')) =>
    rw [given] at first
    obtain ⟨j, run⟩ := first
    exact Follows.trans run (failed f st')
  | some (.ok (.ok a, st')) =>
    rw [given] at first
    obtain ⟨j, run⟩ := first
    exact Follows.trans run (follows a st')

/-- An evaluation whose failures are data goes on from its outcome alone. -/
theorem Follows.attempt {x : Direct σ α} {g : Except Failure α → Direct σ β}
    {next : Except Failure α → Step} {next' : Except Failure β → Step}
    (first : m.Follows k n c next (x st))
    (follows : ∀ r st', m.Follows k n ⟨st', next r⟩ next' (g r st')) :
    m.Follows k n c next' ((attempt x >>= g) st) := by
  rw [bind_apply, attempt_apply]
  match given : x st with
  | none =>
    rw [given] at first
    exact first
  | some (.error _) =>
    rw [given] at first
    exact first
  | some (.ok (r, st')) =>
    rw [given] at first
    obtain ⟨j, run⟩ := first
    exact Follows.trans run (follows r st')

end Machine

namespace Program
variable {σ : Type} {p : Program} {host : Host σ} {k : Continuation} {n : Nat} {e : ScopeId}

theorem advance_eval (b : BlockId) (st : Store σ) :
    (p.machine host).advance ⟨st, .eval b e k⟩ =
      some ⟨{ st with world.heap := (p.evaluate st.world.heap b e k).1 },
        (p.evaluate st.world.heap b e k).2⟩ := rfl

theorem advance_invoke (call : Invocation) (st : Store σ) :
    (p.machine host).advance ⟨st, .invoke call k⟩ =
      some ⟨{ st with world.host := (host call st.world.host).2 },
        Frame.ofResult (host call st.world.host).1 k⟩ := rfl

theorem advance_value {f : Frame} {go : Value → Resumption}
    (resume : ∀ s, f.resume s k = .ok (Frame.onValue s k go)) (v : Value) (st : Store σ) :
    (p.machine host).advance ⟨st, .value v (f :: k)⟩ =
      some ⟨{ st with world.heap := (go v st.world.heap).1 }, (go v st.world.heap).2⟩ := by
  simp [Machine.advance, machine, Machine.step, Step.value, Table.deliver, Table.standard_contains,
    Signal.isThrown, Table.resumeInnermost, resume, Frame.onValue, Machine.turn]

/-- A failure leaves every frame that only takes values. -/
theorem advance_thrown {f : Frame} {go : Value → Resumption}
    (resume : ∀ s, f.resume s k = .ok (Frame.onValue s k go)) (failure : Failure) (st : Store σ) :
    (p.machine host).advance ⟨st, .thrown failure (f :: k)⟩ = some ⟨st, .thrown failure k⟩ := by
  by_cases intercepts : f.point.intercepts <;>
    simp [Machine.advance, machine, Machine.step, Step.thrown, Table.deliver,
      Table.standard_contains, Signal.isThrown, Table.resumeInnermost, resume, Frame.onValue,
      Machine.turn, intercepts]

/-- What goes on behind a frame that only takes values, given what goes on above it. -/
theorem follows_frame {x : Direct σ Value} {g : Value → Direct σ Value} {f : Frame}
    {go : Value → Resumption} (resume : ∀ s, f.resume s k = .ok (Frame.onValue s k go))
    (above : (p.machine host).Follows (f :: k) n c (Frame.ofResult · (f :: k)) (x st))
    (follows : ∀ v st', (p.machine host).Follows k (n - 1)
      ⟨{ st' with world.heap := (go v st'.world.heap).1 }, (go v st'.world.heap).2⟩
      (Frame.ofResult · k) (g v st')) :
    (p.machine host).Follows k n c (Frame.ofResult · k) ((x >>= g) st) := by
  refine above.of_cons.bind (fun failure st' => ?_) (fun v st' => ?_)
  · exact .advance (by simp) (advance_thrown resume failure st') (.done rfl)
  · exact .advance (by simp) (advance_value resume v st') (follows v st')

theorem follows_settle (r : Except Failure Value) (st : Store σ) :
    (p.machine host).Follows k n ⟨st, Frame.ofResult r k⟩ (Frame.ofResult · k) (settle r st) := by
  cases r with
  | ok v => exact .done rfl
  | error f => exact .done rfl

theorem follows_perform (call : Invocation) (st : Store σ) :
    (p.machine host).Follows k n ⟨st, .invoke call k⟩ (Frame.ofResult · k) (perform host call st) := by
  refine .advance Step.above_invoke (advance_invoke call st) ?_
  exact follows_settle (host call st.world.host).1 _

/-- Under every continuation, the machine follows the evaluation of blocks. -/
def Computes (p : Program) (host : Host σ) (n : Nat) (value : BlockId → ScopeId → Direct σ Value) :
    Prop :=
  ∀ b e k st, (p.machine host).Follows k n ⟨st, .eval b e k⟩ (Frame.ofResult · k) (value b e st)

variable {value : BlockId → ScopeId → Direct σ Value}

theorem Computes.evalFor {g : Value → Direct σ Value} {go : Value → Resumption}
    (computes : p.Computes host n value)
    (resume : ∀ s, Frame.resume ⟨point, e, captured⟩ s k = .ok (Frame.onValue s k go))
    (follows : ∀ v st', (p.machine host).Follows k (n - 1)
      ⟨{ st' with world.heap := (go v st'.world.heap).1 }, (go v st'.world.heap).2⟩
      (Frame.ofResult · k) (g v st')) :
    (p.machine host).Follows k n ⟨st, .evalFor b e point captured k⟩ (Frame.ofResult · k)
      ((value b e >>= g) st) :=
  follows_frame resume (computes b e _ st) follows

/-- The elements of a sequence from one on. -/
theorem Computes.elements (computes : p.Computes host n value) {body rest : List BlockId}
    {index : Nat} (left : body.drop index = rest) (some_left : rest ≠ []) (before : Value)
    (st : Store σ) :
    (p.machine host).Follows k n ⟨st, Frame.afterElement body index before e k⟩ (Frame.ofResult · k)
      (lastOf (value · e) rest st) := by
  induction rest generalizing index before st with
  | nil => contradiction
  | cons b rest ih =>
    have here : body[index]? = some b := by simp [← List.head?_drop, left]
    have after : body.drop (index + 1) = rest := by simp [← List.tail_drop, left]
    have length := congrArg List.length left
    match rest with
    | [] =>
      have last : index + 1 = body.length := by simp at length; omega
      simpa [Frame.afterElement, here, last, lastOf] using computes b e k st
    | b' :: rest =>
      have not_last : index + 1 ≠ body.length := by simp at length; omega
      simp only [Frame.afterElement, here, if_neg not_last, lastOf]
      refine computes.evalFor (fun _ => rfl) fun v st' => ?_
      exact (ih after (by simp) v st').weaken (Nat.sub_le ..)

theorem Computes.ofSequence (computes : p.Computes host n value) (body : List BlockId) (st : Store σ) :
    (p.machine host).Follows k n ⟨st, .ofSequence body e k⟩ (Frame.ofResult · k)
      (lastOf (value · e) body st) := by
  match body with
  | [] => exact .done rfl
  | [last] => exact computes last e k st
  | b :: b' :: rest =>
    refine computes.evalFor (fun _ => rfl) fun v st' => ?_
    have left : (b :: b' :: rest).drop 1 = b' :: rest := rfl
    exact (computes.elements left (by simp) v st').weaken (Nat.sub_le ..)

/-- The arguments of a call from one on, and the call. -/
theorem Computes.nextArgument (computes : p.Computes host n value) {args rest : List BlockId}
    {evaluated : List Value} (left : args.drop evaluated.length = rest) (st : Store σ) :
    (p.machine host).Follows k n ⟨st, .nextArgument method args receiver evaluated e k⟩
      (Frame.ofResult · k)
      ((do
        let vs ← rest.mapM (value · e)
        perform host (.methodCall receiver method (evaluated ++ vs)) : Direct σ Value) st) := by
  induction rest generalizing evaluated st with
  | nil =>
    have none_left : args[evaluated.length]? = none := by
      simpa using List.drop_eq_nil_iff.1 left
    simpa [Step.nextArgument, none_left] using
      follows_perform (.methodCall receiver method evaluated) st
  | cons b rest ih =>
    have here : args[evaluated.length]? = some b := by simp [← List.head?_drop, left]
    have after : args.drop (evaluated.length + 1) = rest := by simp [← List.tail_drop, left]
    simp only [Step.nextArgument, here, List.mapM_cons, bind_assoc, pure_bind]
    refine computes.evalFor (fun _ => rfl) fun v st' => ?_
    have after : args.drop (evaluated ++ [v]).length = rest := by simpa using after
    simpa using (ih after st').weaken (Nat.sub_le ..)

/-- What goes on where a guarded block is left. -/
theorem Computes.leave (computes : p.Computes host n value) (cleanup : Option BlockId)
    (left : Except Failure Value) {pending : Signal}
    (arrived : Frame.ofResult left k = .resume pending k) (st : Store σ) :
    (p.machine host).Follows k n ⟨st, Frame.leave cleanup pending e k⟩ (Frame.ofResult · k)
      (leaving value cleanup e left st) := by
  match cleanup with
  | none =>
    simp only [Frame.leave, ← arrived]
    exact follows_settle left st
  | some b =>
    refine computes.evalFor (fun _ => rfl) fun v st' => ?_
    rw [← arrived]
    exact follows_settle left st'

/-- The first step of a block is followed by what the block means. -/
theorem Computes.first_step (computes : p.Computes host n value) {again : Direct σ Value}
    {block : Block} (found : p.block? b = some block)
    (repeats : ∀ st, (p.machine host).Follows k n ⟨st, .eval b e k⟩ (Frame.ofResult · k) (again st))
    (st : Store σ) :
    (p.machine host).Follows k n
      ⟨{ st with world.heap := (block.evaluate st.world.heap e k).1 },
        (block.evaluate st.world.heap e k).2⟩
      (Frame.ofResult · k) (block.meaning host value again e st) := by
  cases block with
  | constant v => exact .done rfl
  | readVariable name =>
    rw [Block.meaning, lookupFrom_apply]
    cases bound : st.world.heap.lookup e name <;> simp only [Block.evaluate, bound] <;>
      exact .done rfl
  | declare name init =>
    cases init with
    | none => exact .done rfl
    | some b =>
      refine computes.evalFor (fun _ => rfl) fun v st' => ?_
      exact .done rfl
  | assign name b =>
    refine computes.evalFor (fun _ => rfl) fun v st' => ?_
    exact .done rfl
  | logical op lhs rhs =>
    cases op <;>
      refine computes.evalFor (fun _ => rfl) fun v st' => ?_ <;>
      cases truthy : v.truthy <;>
      simp only [Frame.afterLhs, truthy, Bool.false_eq_true, if_true, if_false]
    · exact .done rfl
    · exact (computes rhs e k st').weaken (Nat.sub_le ..)
    · exact (computes rhs e k st').weaken (Nat.sub_le ..)
    · exact .done rfl
  | not operand =>
    refine computes.evalFor (fun _ => rfl) fun v st' => ?_
    exact .done rfl
  | binary op lhs rhs =>
    refine computes.evalFor (fun _ => rfl) fun l st' => ?_
    refine Machine.Follows.weaken (Nat.sub_le ..) (computes.evalFor (fun _ => rfl) fun r st'' => ?_)
    exact follows_settle _ st''
  | ifElse cond thenBranch elseBranch =>
    refine computes.evalFor (fun _ => rfl) fun v st' => ?_
    cases truthy : v.truthy <;>
      simp only [Frame.afterCondition, truthy, Bool.false_eq_true, if_true, if_false]
    · cases elseBranch with
      | none => exact .done rfl
      | some b => exact (computes b e k st').weaken (Nat.sub_le ..)
    · exact (computes thenBranch e k st').weaken (Nat.sub_le ..)
  | whileLoop cond body =>
    refine computes.evalFor (fun _ => rfl) fun v st' => ?_
    cases v.truthy <;> simp only [Bool.false_eq_true, if_true, if_false]
    · exact .done rfl
    · refine Machine.Follows.weaken (Nat.sub_le ..) (computes.evalFor (fun _ => rfl) fun _ st'' => ?_)
      have first : (p.machine host).advance ⟨st'', .eval b e k⟩ =
          some ⟨st'', .evalFor cond e .loopTest (.loop cond body) k⟩ := by
        simp [advance_eval, evaluate, found, Block.evaluate]
      refine (repeats st'').tail (fun r => ?_) first
      cases r <;> simp [Frame.ofResult, Step.value, Step.thrown]
  | sequence body => exact computes.ofSequence body st
  | scope body => exact computes body _ k _
  | property receiver name isAttribute =>
    refine computes.evalFor (fun _ => rfl) fun v st' => ?_
    exact follows_perform _ st'
  | setProperty target name b isAttribute =>
    refine computes.evalFor (fun _ => rfl) fun v st' => ?_
    simp only [bind_apply (lookupFrom e target), lookupFrom_apply, Frame.storeProperty]
    cases bound : st'.world.heap.lookup e target with
    | none => exact .done rfl
    | some receiver =>
      refine follows_frame (fun _ => rfl) (follows_perform _ st') fun updated st'' => ?_
      exact .done rfl
  | call receiver method args =>
    cases receiver with
    | none =>
      simp only [Block.meaning, Block.evaluate, pure_bind]
      exact computes.nextArgument rfl st
    | some b =>
      refine computes.evalFor (fun _ => rfl) fun v st' => ?_
      exact (computes.nextArgument rfl st').weaken (Nat.sub_le ..)
  | throw b =>
    refine computes.evalFor (fun _ => rfl) fun v st' => ?_
    exact .done rfl
  | tryCatch body clauses cleanup =>
    refine (computes body e _ st).of_cons.attempt fun r st' => ?_
    cases r with
    | ok v => exact .advance (by simp) rfl ((computes.leave cleanup (.ok v) rfl st').weaken (Nat.sub_le ..))
    | error f =>
      refine .advance (by simp) rfl (Machine.Follows.weaken (Nat.sub_le ..) ?_)
      simp only []
      cases caught : clauses.find? (·.catches f) with
      | none => exact computes.leave cleanup (.error f) rfl st'
      | some clause =>
        refine (computes clause.body _ _ _).of_cons.attempt fun r st'' => ?_
        cases r <;>
          exact .advance (by simp) rfl ((computes.leave cleanup _ rfl st'').weaken (Nat.sub_le ..))
  | yield request =>
    refine computes.evalFor (fun _ => rfl) fun v st' => ?_
    rcases st' with ⟨w, _ | ⟨signal, answers⟩⟩
    · exact ⟨0, _, .done, rfl, v, k, rfl⟩
    · cases signal <;> exact .advance (by simp) rfl (.done rfl)

theorem computes_meaning (p : Program) (host : Host σ) (n : Nat) :
    p.Computes host n (p.meaning host n) := by
  induction n with
  | zero => exact fun _ _ _ _ => .not_yet
  | succ n ih =>
    intro b e k st
    refine .advance (by simp) (advance_eval b st) ?_
    simp only [evaluate, meaning]
    cases found : p.block? b with
    | none => exact .done rfl
    | some block => exact ih.first_step found (ih b e k) st

variable {b : BlockId} {st : Store σ}

theorem Returns.delivers (returns : p.Returns host b e st signal st') :
    (p.machine host).Delivers k ⟨st, .eval b e k⟩ signal st' := by
  cases signal <;>
  · obtain ⟨depth, given⟩ := returns
    have follows := p.computes_meaning host depth b e k st
    rw [given] at follows
    obtain ⟨j, run⟩ := follows
    exact ⟨j, run.imp fun _ => Step.Above.notAt⟩

theorem RunsDry.starves (runsDry : p.RunsDry host b e st) :
    (p.machine host).Starves k ⟨st, .eval b e k⟩ := by
  obtain ⟨depth, given⟩ := runsDry
  have follows := p.computes_meaning host depth b e k st
  rw [given] at follows
  obtain ⟨j, d, run, unanswered⟩ := follows
  exact ⟨j, d, run.imp fun _ => Step.Above.notAt, unanswered⟩

theorem Diverges.runsOn (diverges : p.Diverges host b e st) :
    (p.machine host).RunsOn k ⟨st, .eval b e k⟩ := by
  intro n
  have follows := p.computes_meaning host n b e k st
  rw [diverges n] at follows
  obtain ⟨d, run⟩ := follows
  exact ⟨d, run.imp fun _ => Step.Above.notAt⟩

/-- The recursion returns, runs out of answers or goes on for ever. -/
theorem returns_or (p : Program) (host : Host σ) (b : BlockId) (e : ScopeId) (st : Store σ) :
    (∃ signal st', p.Returns host b e st signal st') ∨ p.RunsDry host b e st ∨
      p.Diverges host b e st := by
  by_cases diverges : p.Diverges host b e st
  · exact .inr (.inr diverges)
  · obtain ⟨depth, given⟩ := Classical.not_forall.1 diverges
    match ends : p.meaning host depth b e st with
    | none => exact absurd ends given
    | some (.error .outOfAnswers) => exact .inr (.inl ⟨depth, ends⟩)
    | some (.ok (.ok v, st')) => exact .inl ⟨.value v, st', depth, ends⟩
    | some (.ok (.error f, st')) => exact .inl ⟨.thrown f, st', depth, ends⟩

theorem Returns.of_delivers
    (delivers : (p.machine host).Delivers k ⟨st, .eval b e k⟩ signal st') :
    p.Returns host b e st signal st' := by
  rcases p.returns_or host b e st with ⟨signal', st'', returns⟩ | runsDry | diverges
  · obtain ⟨rfl, rfl⟩ := delivers.unique returns.delivers
    exact returns
  · exact absurd runsDry.starves delivers.not_starves
  · exact absurd diverges.runsOn delivers.not_runsOn

/-- A run that completes computes what the recursion returns. -/
theorem Returns.of_run {w w' : World σ}
    (run : (p.machine host).run n w (.eval b e []) = (w', .completed v)) (answers : List Signal) :
    p.Returns host b e ⟨w, answers⟩ (.value v) ⟨w', answers⟩ := by
  obtain ⟨j, driven⟩ := (Machine.Drives.of_run (fun _ => rfl) answers run).2.2 v rfl
  have delivers : (p.machine host).Delivers [] ⟨⟨w, answers⟩, .eval b e []⟩ (.value v) ⟨w', answers⟩ :=
    ⟨j, driven.notAt_nil⟩
  exact .of_delivers delivers

/-- The machine comes to the continuation exactly with what the recursion returns, stops at a request
exactly where the recursion has no answer left, and goes on for ever exactly where it does. -/
theorem machine_agrees_with_meaning (p : Program) (host : Host σ) (b : BlockId) (e : ScopeId)
    (k : Continuation) (st : Store σ) :
    (∀ signal st', (p.machine host).Delivers k ⟨st, .eval b e k⟩ signal st' ↔
      p.Returns host b e st signal st') ∧
    ((p.machine host).Starves k ⟨st, .eval b e k⟩ ↔ p.RunsDry host b e st) ∧
    ((p.machine host).RunsOn k ⟨st, .eval b e k⟩ ↔ p.Diverges host b e st) := by
  refine ⟨fun signal st' => ⟨Returns.of_delivers, Returns.delivers⟩,
    ⟨fun starves => ?_, RunsDry.starves⟩, ⟨fun runsOn => ?_, Diverges.runsOn⟩⟩ <;>
    rcases p.returns_or host b e st with ⟨signal', st'', returns⟩ | runsDry | diverges
  · exact absurd starves returns.delivers.not_starves
  · exact runsDry
  · exact absurd diverges.runsOn starves.not_runsOn
  · exact absurd runsOn returns.delivers.not_runsOn
  · exact absurd runsOn runsDry.starves.not_runsOn
  · exact diverges

end Program
end FlowScript
