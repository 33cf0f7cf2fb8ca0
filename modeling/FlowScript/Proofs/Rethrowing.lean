import FlowScript.Proofs.FrameRule
import FlowScript.Proofs.MeaningAgreement
import FlowScript.Proofs.Mediation
import FlowScript.Proofs.Ownership

/-! Catching a failure only to throw it again. A `try` whose one clause catches everything and throws what it
has caught cannot be told from its body: the failure that is thrown again is the one that was caught, and all
that the clause leaves behind is a scope of its own. -/
namespace FlowScript

/-- What a run asks of its host: to make a call, or to answer a request. -/
inductive Query where
  | call (call : Invocation)
  | request (request : Value)

def Step.query? : Step → Option Query
  | .invoke call _ => some (.call call)
  | .yield request _ => some (.request request)
  | _ => none

/-- The situation over further frames. -/
def Situation.onto (base : Continuation) (c : Situation σ) : Situation σ := ⟨c.store, c.step.onto base⟩

/-- The host and the answers are as they were, and so are all scopes that were there. -/
structure Store.Spared (st st' : Store σ) : Prop where
  heap : st.world.heap.Extends st'.world.heap
  host : st'.world.host = st.world.host
  answers : st'.answers = st.answers

@[simp] theorem Step.query?_onto (s : Step) (k : Continuation) : (s.onto k).query? = s.query? := by
  cases s <;> rfl

namespace Machine
variable {σ : Type} {m : Machine σ} {a b c d : Situation σ} {base k : Continuation}

/-- What the run asks in so many advances. -/
def asked (m : Machine σ) : Nat → Situation σ → List Query
  | 0, _ => []
  | n + 1, c =>
    c.step.query?.toList ++
      match m.advance c with
      | some d => asked m n d
      | none => []

/-- The run comes to the continuation for the first time with the signal and the store, and has asked that. -/
def Tells (m : Machine σ) (k : Continuation) (c : Situation σ) (queries : List Query) (signal : Signal)
    (st : Store σ) : Prop :=
  ∃ n, m.Drives (Step.NotAt k) n c ⟨st, .resume signal k⟩ ∧ m.asked n c = queries

/-- The run stops in the world at a request without an answer, and has asked that before. -/
def Waits (m : Machine σ) (k : Continuation) (c : Situation σ) (queries : List Query) (request : Value)
    (w : World σ) : Prop :=
  ∃ n k', m.Drives (Step.NotAt k) n c ⟨⟨w, []⟩, .yield request k'⟩ ∧ m.asked n c = queries

/-! ### What is asked -/

theorem asked_succ (step : m.advance a = some b) (n : Nat) :
    m.asked (n + 1) a = a.step.query?.toList ++ m.asked n b := by
  rw [asked, step]

theorem Drives.asked_add (run : m.Drives P i a b) (j : Nat) :
    m.asked (i + j) a = m.asked i a ++ m.asked j b := by
  induction run with
  | done => rw [Nat.zero_add, asked, List.nil_append]
  | more _ step _ ih => rw [Nat.add_right_comm, asked_succ step, asked_succ step, ih, List.append_assoc]

/-! ### Driven runs over frames -/

theorem advance_onto (above : c.step.NotAt []) (base : Continuation) :
    m.advance (c.onto base) = (m.advance c).map (Situation.onto base) := by
  obtain ⟨⟨w, answers⟩, s⟩ := c
  have stacked : m.step w (s.onto base) = (m.step w s).map id (Turn.onto base) := step_onto above
  simp only [advance, Situation.onto, stacked]
  rcases m.step w s with ⟨w', s' | outcome⟩
  · rfl
  · cases outcome with
    | suspended x => cases answers <;> rfl
    | completed | failed | cancelled | outOfBudget => rfl

/-- A driven run goes over whatever frames the same way. -/
theorem Drives.onto (run : m.Drives (Step.NotAt []) n c d) (base : Continuation) :
    m.Drives (Step.Over base) n (c.onto base) (d.onto base) ∧ m.asked n (c.onto base) = m.asked n c := by
  induction run with
  | done => exact ⟨.done, rfl⟩
  | @more a b n c above step _ ih =>
    have stacked : m.advance (a.onto base) = some (b.onto base) := by
      rw [advance_onto above, step]
      rfl
    refine ⟨.more ⟨a.step, rfl, above⟩ stacked ih.1, ?_⟩
    rw [asked_succ stacked, asked_succ step, ih.2, Situation.onto, Step.query?_onto]

/-- What a run does over frames, to which it does not signal, it does without them. -/
theorem Drives.alone (run : m.Drives (Step.NotAt base) n (c.onto base) d) :
    ∃ d₀, m.Drives (Step.NotAt []) n c d₀ ∧ d = d₀.onto base := by
  induction n generalizing c with
  | zero =>
    cases run with
    | done => exact ⟨c, .done, rfl⟩
  | succ n ih =>
    cases run with
    | @more _ b _ _ quiet step rest =>
      have above : c.step.NotAt [] := Step.notAt_onto.1 quiet
      rw [advance_onto above] at step
      obtain ⟨b₀, alone, rfl⟩ := Option.map_eq_some_iff.1 step
      obtain ⟨d₀, others, rfl⟩ := ih rest
      exact ⟨d₀, .more above alone others, rfl⟩

/-! ### What a run tells -/

theorem Tells.unique (first : m.Tells k c queries signal st) (second : m.Tells k c queries' signal' st') :
    queries = queries' ∧ signal = signal' ∧ st = st' := by
  obtain ⟨i, first, rfl⟩ := first
  obtain ⟨j, second, rfl⟩ := second
  have forth := first.bounded (last_at _ _ _) second
  have back := second.bounded (last_at _ _ _) first
  obtain rfl : i = j := by omega
  exact ⟨rfl, Delivers.unique ⟨i, first⟩ ⟨i, second⟩⟩

theorem Waits.unique (first : m.Waits k c queries request w) (second : m.Waits k c queries' request' w') :
    queries = queries' ∧ request = request' ∧ w = w' := by
  obtain ⟨i, _, first, rfl⟩ := first
  obtain ⟨j, _, second, rfl⟩ := second
  have last : ∀ request w (k' : Continuation), m.Last (Step.NotAt k) ⟨⟨w, []⟩, .yield request k'⟩ :=
    fun request w k' => last_unanswered ⟨rfl, request, k', rfl⟩
  have forth := first.bounded (last _ _ _) second
  have back := second.bounded (last _ _ _) first
  obtain rfl : i = j := by omega
  have same := first.last_unique second (last _ _ _) (last _ _ _)
  simp only [Situation.mk.injEq, Store.mk.injEq, Step.yield.injEq, and_true] at same
  exact ⟨rfl, same.2.1, same.1⟩

theorem Tells.delivers (tells : m.Tells k c queries signal st) : m.Delivers k c signal st := by
  obtain ⟨n, run, _⟩ := tells
  exact ⟨n, run⟩

theorem Waits.starves (waits : m.Waits k c queries request w) : m.Starves k c := by
  obtain ⟨n, k', run, _⟩ := waits
  exact ⟨n, _, run, rfl, request, k', rfl⟩

theorem Delivers.tells (delivers : m.Delivers k c signal st) : ∃ queries, m.Tells k c queries signal st := by
  obtain ⟨n, run⟩ := delivers
  exact ⟨_, n, run, rfl⟩

theorem Starves.waits (starves : m.Starves k c) : ∃ queries request w, m.Waits k c queries request w := by
  obtain ⟨n, ⟨⟨w, answers⟩, s⟩, run, none, request, k', at_request⟩ := starves
  obtain rfl : answers = [] := none
  obtain rfl : s = .yield request k' := at_request
  exact ⟨_, request, w, n, k', run, rfl⟩

end Machine

/-! ### Throwing again -/

/-- The block catches whatever failure its body has, in a variable, and throws what the variable holds. -/
def Program.Rethrows (p : Program) (b body : BlockId) : Prop :=
  ∃ name thrower reader, p.block? b = some (.tryCatch body [⟨none, name, thrower⟩] none) ∧
    p.block? thrower = some (.throw reader) ∧ p.block? reader = some (.readVariable name)

theorem Heap.lookup_of_find? {h : Heap} (here : (h.locals e).find? name = some v) :
    h.lookup e name = some v := by
  rw [lookup, chain_eq, List.findSome?_cons, here]

theorem Step.Over.notAt_below {f : Frame} (lies : Step.Over (f :: k) s) : s.NotAt k := by
  rintro signal rfl
  obtain ⟨inner, same, _⟩ := lies
  have frames : k = inner.rest ++ f :: k := by
    have rest := congrArg Step.rest same
    rwa [rest_onto] at rest
  have lengths := congrArg List.length frames
  rw [List.length_append, List.length_cons] at lengths
  omega

theorem Step.eq_resume_of_onto {s : Step} (arrives : s.onto k = .resume signal k) :
    s = .resume signal [] := by
  cases s with
  | resume signal' own =>
    obtain ⟨rfl, none⟩ := Step.resume.inj arrives
    rw [List.append_left_eq_self.1 none]
  | eval | invoke | yield => exact nomatch arrives

theorem Step.above_resume {f : Frame} : Above k (.resume signal (f :: k)) := by
  rintro _ _ ⟨⟩
  exact Nat.lt_succ_self _

namespace Program
variable {σ : Type} {p : Program} {host : Host σ} {k : Continuation} {e : ScopeId} {st : Store σ}

/-- What comes to the frame of the `try` goes on below it, and nothing is asked on the way. -/
theorem drives_rethrown {name : String} {thrower reader : BlockId}
    (throws : p.block? thrower = some (.throw reader)) (reads : p.block? reader = some (.readVariable name))
    (st : Store σ) (e : ScopeId) (signal : Signal) :
    let c : Situation σ := ⟨st, .resume signal (⟨.guarded, e, .guarded [⟨none, name, thrower⟩] none⟩ :: k)⟩
    ∃ n st', (p.machine host).Drives (Step.NotAt k) n c ⟨st', .resume signal k⟩ ∧
      (p.machine host).asked n c = [] ∧ st.Spared st' := by
  intro c
  have start : c.step.NotAt k := Step.above_resume.notAt
  cases signal with
  | value v =>
    have resumed : Frame.resume ⟨.guarded, e, .guarded [⟨none, name, thrower⟩] none⟩ (.value v) k =
      .ok fun h => (h, .value v k) := rfl
    have left : (p.machine host).advance c = some ⟨st, .value v k⟩ :=
      Machine.advance_next _ (Machine.step_resumed rfl (fun _ => rfl) resumed)
    exact ⟨1, st, .more start left .done, rfl, ⟨.refl _, rfl, rfl⟩⟩
  | thrown f =>
    let inner := st.world.heap.next
    let h := (st.world.heap.child e).declare inner name f.toValue
    let st' : Store σ := ⟨⟨h, st.world.host⟩, st.answers⟩
    let handler : Frame := ⟨.handler, e, .handler none⟩
    let throw : Frame := ⟨.throw, inner, .throw⟩
    have caught : (p.machine host).advance c = some ⟨st', .eval thrower inner (handler :: k)⟩ := by
      refine Machine.advance_next _ ((Machine.step_resumed rfl (fun _ => rfl) rfl).trans ?_)
      rfl
    have evaluated : (p.machine host).advance ⟨st', .eval thrower inner (handler :: k)⟩ =
        some ⟨st', .eval reader inner (throw :: handler :: k)⟩ := by
      rw [advance_eval, evaluate, throws]
      rfl
    have held : h.lookup inner name = some f.toValue := by
      apply Heap.lookup_of_find?
      rw [Heap.locals_declare (by simp [Heap.child, inner]), if_pos rfl, Entries.find?_insert, if_pos rfl]
    have read : (p.machine host).advance ⟨st', .eval reader inner (throw :: handler :: k)⟩ =
        some ⟨st', .value f.toValue (throw :: handler :: k)⟩ := by
      rw [advance_eval, evaluate, reads]
      simp only [Block.evaluate, st', held]
    have thrown : (p.machine host).advance ⟨st', .value f.toValue (throw :: handler :: k)⟩ =
        some ⟨st', .thrown f (handler :: k)⟩ := by
      rw [advance_value (fun _ => rfl), Failure.ofThrown_toValue]
    have left : (p.machine host).advance ⟨st', .thrown f (handler :: k)⟩ = some ⟨st', .thrown f k⟩ :=
      Machine.advance_next _ (Machine.step_handler rfl _ k)
    refine ⟨5, st', ?_, ?_, ?_⟩
    · apply Machine.Drives.more start caught
      apply Machine.Drives.more Step.above_eval.notAt evaluated
      apply Machine.Drives.more Step.above_eval.notAt read
      apply Machine.Drives.more Step.above_resume.of_cons.notAt thrown
      exact .more Step.above_resume.notAt left .done
    · rw [Machine.asked_succ caught, Machine.asked_succ evaluated, Machine.asked_succ read,
        Machine.asked_succ thrown, Machine.asked_succ left]
      rfl
    · exact ⟨.declare_child _ _ _ _, rfl, rfl⟩

/-- The body of a `try` takes the same steps as by itself, over one frame more. -/
theorem drives_body (tries : p.block? b = some (.tryCatch body clauses cleanup))
    (run : (p.machine host).Drives (Step.NotAt k) n ⟨st, .eval body e k⟩ d) :
    ∃ d₀ : Situation σ, d = d₀.onto k ∧
      (p.machine host).Drives (Step.NotAt k) (n + 1) ⟨st, .eval b e k⟩
        (d₀.onto (⟨.guarded, e, .guarded clauses cleanup⟩ :: k)) ∧
      (p.machine host).asked (n + 1) ⟨st, .eval b e k⟩ = (p.machine host).asked n ⟨st, .eval body e k⟩ := by
  let g : Frame := ⟨.guarded, e, .guarded clauses cleanup⟩
  let c : Situation σ := ⟨st, .eval body e []⟩
  have first : (p.machine host).advance ⟨st, .eval b e k⟩ = some (c.onto (g :: k)) := by
    rw [advance_eval, evaluate, tries]
    rfl
  obtain ⟨d₀, alone, rfl⟩ : ∃ d₀, (p.machine host).Drives (Step.NotAt []) n c d₀ ∧ d = d₀.onto k := run.alone
  obtain ⟨guarded, same⟩ := alone.onto (g :: k)
  refine ⟨d₀, rfl, .more Step.above_eval.notAt first (guarded.imp fun _ => Step.Over.notAt_below), ?_⟩
  rw [Machine.asked_succ first, same]
  exact (alone.onto k).2.symm

/-- What the body tells its `try` tells. -/
theorem Rethrows.tells (rethrows : p.Rethrows b body)
    (tells : (p.machine host).Tells k ⟨st, .eval body e k⟩ queries signal st₁) :
    ∃ st₂, (p.machine host).Tells k ⟨st, .eval b e k⟩ queries signal st₂ ∧ st₁.Spared st₂ := by
  obtain ⟨name, thrower, reader, tries, throws, reads⟩ := rethrows
  obtain ⟨n, run, rfl⟩ := tells
  obtain ⟨⟨st₀, s⟩, here, guarded, same⟩ := drives_body tries run
  obtain ⟨rfl, arrives⟩ := Situation.mk.inj here
  obtain rfl : s = .resume signal [] := Step.eq_resume_of_onto arrives.symm
  obtain ⟨j, st₂, rethrown, silent, spared⟩ := drives_rethrown throws reads st₁ e (k := k) signal
  refine ⟨st₂, ⟨_, guarded.trans rethrown, ?_⟩, spared⟩
  rw [guarded.asked_add, same]
  exact (congrArg (_ ++ ·) silent).trans (List.append_nil _)

theorem Rethrows.waits (rethrows : p.Rethrows b body)
    (waits : (p.machine host).Waits k ⟨st, .eval body e k⟩ queries request w) :
    (p.machine host).Waits k ⟨st, .eval b e k⟩ queries request w := by
  obtain ⟨name, thrower, reader, tries, throws, reads⟩ := rethrows
  obtain ⟨n, k', run, rfl⟩ := waits
  obtain ⟨⟨st₀, s⟩, here, guarded, same⟩ := drives_body tries run
  obtain ⟨rfl, parked⟩ := Situation.mk.inj here
  cases s with
  | yield request' own =>
    obtain ⟨rfl, rfl⟩ := Step.yield.inj parked
    exact ⟨n + 1, _, guarded, same⟩
  | eval | resume | invoke => exact nomatch parked

theorem Rethrows.runsOn (rethrows : p.Rethrows b body)
    (runsOn : (p.machine host).RunsOn k ⟨st, .eval body e k⟩) :
    (p.machine host).RunsOn k ⟨st, .eval b e k⟩ := by
  obtain ⟨name, thrower, reader, tries, throws, reads⟩ := rethrows
  intro n
  obtain ⟨d, run⟩ := runsOn n
  obtain ⟨d₀, _, guarded, _⟩ := drives_body tries run
  exact guarded.take

/-- A driven block comes to its continuation, waits without an answer or runs on. -/
theorem driven_cases (p : Program) (host : Host σ) (b : BlockId) (e : ScopeId) (k : Continuation)
    (st : Store σ) :
    (∃ queries signal st', (p.machine host).Tells k ⟨st, .eval b e k⟩ queries signal st') ∨
      (∃ queries request w, (p.machine host).Waits k ⟨st, .eval b e k⟩ queries request w) ∨
      (p.machine host).RunsOn k ⟨st, .eval b e k⟩ := by
  rcases p.returns_or host b e st with ⟨signal, st', returns⟩ | runsDry | diverges
  · obtain ⟨queries, tells⟩ := (returns.delivers (k := k)).tells
    exact .inl ⟨queries, signal, st', tells⟩
  · exact .inr (.inl runsDry.starves.waits)
  · exact .inr (.inr diverges.runsOn)

end Program

/-- Catching a failure to throw it again changes nothing. A failure that is thrown as it was caught is the
same failure. So a `try` whose one clause catches every failure in a variable and throws what the variable
holds tells its continuation what its body would tell it, no more and no less: the same signal, behind the
same calls and requests, with the same host and answers and the same contents of all scopes. It waits for the
same answers and runs on as its body does, and goes on in step with it until then. -/
theorem rethrowing_is_transparent (p : Program) (host : Host σ) (rethrows : p.Rethrows b body) (e : ScopeId)
    (k : Continuation) (st : Store σ) :
    let m := p.machine host
    let alone : Situation σ := ⟨st, .eval body e k⟩
    let tried : Situation σ := ⟨st, .eval b e k⟩
    (∀ f : Failure, .ofThrown f.toValue = f) ∧
      (∀ queries signal st₁, m.Tells k alone queries signal st₁ →
        ∃ st₂, m.Tells k tried queries signal st₂ ∧ st₁.Spared st₂) ∧
      (∀ queries signal st₂, m.Tells k tried queries signal st₂ →
        ∃ st₁, m.Tells k alone queries signal st₁ ∧ st₁.Spared st₂) ∧
      (∀ queries request w, m.Waits k alone queries request w ↔ m.Waits k tried queries request w) ∧
      (m.RunsOn k alone ↔ m.RunsOn k tried) ∧
      ∀ n d, m.Drives (Step.NotAt k) n alone d → ∃ d', m.Drives (Step.NotAt k) (n + 1) tried d' ∧
        d'.store = d.store ∧ m.asked (n + 1) tried = m.asked n alone := by
  intro m alone tried
  refine ⟨Failure.ofThrown_toValue, fun _ _ _ => rethrows.tells, ?told, ?waiting, ?running, ?lockstep⟩
  case told =>
    intro queries signal st₂ told
    rcases p.driven_cases host body e k st with ⟨_, _, st₁, tells⟩ | ⟨_, _, _, waits⟩ | runsOn
    · obtain ⟨_, told', spared⟩ := rethrows.tells tells
      obtain ⟨rfl, rfl, rfl⟩ := told.unique told'
      exact ⟨st₁, tells, spared⟩
    · exact absurd (rethrows.waits waits).starves told.delivers.not_starves
    · exact absurd (rethrows.runsOn runsOn) told.delivers.not_runsOn
  case waiting =>
    refine fun queries request w => ⟨rethrows.waits, fun waiting => ?_⟩
    rcases p.driven_cases host body e k st with ⟨_, _, _, tells⟩ | ⟨_, _, _, waits⟩ | runsOn
    · obtain ⟨_, told, _⟩ := rethrows.tells tells
      exact absurd waiting.starves told.delivers.not_starves
    · obtain ⟨rfl, rfl, rfl⟩ := waiting.unique (rethrows.waits waits)
      exact waits
    · exact absurd (rethrows.runsOn runsOn) waiting.starves.not_runsOn
  case running =>
    refine ⟨rethrows.runsOn, fun running => ?_⟩
    rcases p.driven_cases host body e k st with ⟨_, _, _, tells⟩ | ⟨_, _, _, waits⟩ | runsOn
    · obtain ⟨_, told, _⟩ := rethrows.tells tells
      exact absurd running told.delivers.not_runsOn
    · exact absurd running (rethrows.waits waits).starves.not_runsOn
    · exact runsOn
  case lockstep =>
    intro n d run
    obtain ⟨name, thrower, reader, tries, _, _⟩ := rethrows
    obtain ⟨d₀, rfl, guarded, same⟩ := Program.drives_body tries run
    exact ⟨_, guarded, rfl, same⟩

/-- A body keeps an answer in a variable and then has a failure from its host, with null as its payload. In a
`try` that throws it again it has the same failure, has asked the same and has kept the same. -/
theorem host_failure_is_rethrown :
    let p : Program := ⟨#[.constant (.str "who"), .yield 0, .assign "seen" 1, .call none "greet" [],
      .sequence [2, 3], .readVariable "e", .throw 5, .tryCatch 4 [⟨none, "e", 6⟩] none], 7⟩
    let f : Failure := ⟨"Unheard", "nobody there", some .null⟩
    let host : Host Unit := fun _ u => (.error f, u)
    let m := p.machine host
    let h : Heap := (Heap.empty.addScope none []).child 0
    let st : Store Unit := ⟨⟨h, ()⟩, [.value (.str "you")]⟩
    let st₁ : Store Unit := ⟨⟨h.assign 1 "seen" (.str "you"), ()⟩, []⟩
    let queries : List Query := [.request (.str "who"), .call (.methodCall .null "greet" [])]
    m.Tells [] ⟨st, .eval 4 1 []⟩ queries (.thrown f) st₁ ∧
      ∃ st₂, m.Tells [] ⟨st, .eval 7 1 []⟩ queries (.thrown f) st₂ ∧ st₁.Spared st₂ := by
  intro p f host m h st st₁ queries
  have rethrows : p.Rethrows 7 4 := ⟨"e", 6, 5, rfl, rfl, rfl⟩
  have alone : m.Tells [] ⟨st, .eval 4 1 []⟩ queries (.thrown f) st₁ := by
    refine ⟨10, Machine.Drives.notAt_nil (P := fun _ => True) ?_, rfl⟩
    iterate 10 refine .more trivial rfl ?_
    exact .done
  obtain ⟨_, tells, _⟩ := rethrowing_is_transparent p host rethrows 1 [] st
  exact ⟨alone, tells queries (.thrown f) st₁ alone⟩

end FlowScript
