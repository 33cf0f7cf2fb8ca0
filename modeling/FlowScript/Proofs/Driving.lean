import FlowScript.Machine

/-! Driving a run on a list of answers: each request takes the next one. A driven run comes to a
continuation, stops at a request without an answer, or goes on for ever; it does not do two of these. -/
namespace FlowScript

/-- The scopes and the state of the host, and the answers that are left. -/
structure Store (σ : Type) where
  world : World σ
  answers : List Signal

/-- Where a driven run stands. -/
structure Situation (σ : Type) where
  store : Store σ
  step : Step

/-- The machine with all resume points that nobody cancels. -/
def Program.machine (p : Program) (host : Host σ) : Machine σ := ⟨p, .standard, host, fun _ => false⟩

/-- No signal has come to the continuation. -/
def Step.NotAt (k : Continuation) (s : Step) : Prop := ∀ signal, s ≠ .resume signal k

/-- A request for which no answer is left. -/
def Situation.Unanswered (c : Situation σ) : Prop :=
  c.store.answers = [] ∧ ∃ request k, c.step = .yield request k

namespace Machine
variable {σ : Type}

/-- One step of the machine, or the next answer where the run has suspended. -/
def advance (m : Machine σ) (c : Situation σ) : Option (Situation σ) :=
  match m.step c.store.world c.step with
  | (w, .next s) => some ⟨⟨w, c.store.answers⟩, s⟩
  | (w, .ended (.suspended x)) =>
    match c.store.answers with
    | [] => none
    | answer :: rest => some ⟨⟨w, rest⟩, .resume answer x.k⟩
  | _ => none

/-- A number of advances, each from a step with the property. -/
inductive Drives (m : Machine σ) (P : Step → Prop) : Nat → Situation σ → Situation σ → Prop where
  | done : Drives m P 0 c c
  | more : P a.step → m.advance a = some b → Drives m P n b c → Drives m P (n + 1) a c

/-- The run comes to the continuation for the first time with the signal and the store. -/
def Delivers (m : Machine σ) (k : Continuation) (c : Situation σ) (signal : Signal) (st : Store σ) :
    Prop :=
  ∃ n, m.Drives (Step.NotAt k) n c ⟨st, .resume signal k⟩

/-- The run stops at a request before it comes to the continuation. -/
def Starves (m : Machine σ) (k : Continuation) (c : Situation σ) : Prop :=
  ∃ n d, m.Drives (Step.NotAt k) n c d ∧ d.Unanswered

/-- The run never comes to the continuation and never stops. -/
def RunsOn (m : Machine σ) (k : Continuation) (c : Situation σ) : Prop :=
  ∀ n, ∃ d, m.Drives (Step.NotAt k) n c d

variable {m : Machine σ} {P Q : Step → Prop} {a b c d : Situation σ}

theorem Drives.trans (first : m.Drives P i a b) (second : m.Drives P j b c) :
    m.Drives P (i + j) a c := by
  induction first with
  | done => simpa using second
  | more before step _ ih =>
    have rest := Drives.more before step (ih second)
    rwa [Nat.add_right_comm] at rest

theorem Drives.imp (weaker : ∀ s, P s → Q s) (run : m.Drives P n a b) : m.Drives Q n a b := by
  induction run with
  | done => exact .done
  | more before step _ ih => exact .more (weaker _ before) step ih

/-- A longer run goes through the end of a shorter one. -/
theorem Drives.split (short : m.Drives P i a b) (long : m.Drives P (i + j) a c) :
    m.Drives P j b c := by
  induction short with
  | done => simpa using long
  | @more _ _ _ i _ step _ ih =>
    rw [Nat.add_right_comm] at long
    cases long with
    | more _ step' rest =>
      obtain rfl := Option.some.inj (step.symm.trans step')
      exact ih rest

theorem Drives.take (long : m.Drives P (i + j) a c) : ∃ b, m.Drives P i a b := by
  induction i generalizing a with
  | zero => exact ⟨a, .done⟩
  | succ i ih =>
    rw [Nat.add_right_comm] at long
    cases long with
    | more before step rest =>
      obtain ⟨b, run⟩ := ih rest
      exact ⟨b, .more before step run⟩

/-- A run cannot go past a place that lacks the property or has no successor. -/
def Last (m : Machine σ) (P : Step → Prop) (c : Situation σ) : Prop := P c.step → m.advance c = none

theorem Drives.eq_zero (last : m.Last P a) (run : m.Drives P n a b) : n = 0 ∧ a = b := by
  cases run with
  | done => exact ⟨rfl, rfl⟩
  | more before step _ => simp [last before] at step

theorem Drives.last_unique (first : m.Drives P i a b) (second : m.Drives P j a c)
    (lastFirst : m.Last P b) (lastSecond : m.Last P c) : b = c := by
  rcases Nat.le_total i j with le | le
  · obtain ⟨d, rfl⟩ := Nat.le.dest le
    exact ((first.split second).eq_zero lastFirst).2
  · obtain ⟨d, rfl⟩ := Nat.le.dest le
    exact ((second.split first).eq_zero lastSecond).2.symm

theorem Drives.bounded (run : m.Drives P i a b) (last : m.Last P b) (long : m.Drives P j a c) :
    j ≤ i := by
  rcases Nat.le_total i j with le | le
  · obtain ⟨d, rfl⟩ := Nat.le.dest le
    have none := ((run.split long).eq_zero last).1
    omega
  · exact le

theorem last_at (k : Continuation) (signal : Signal) (st : Store σ) :
    m.Last (Step.NotAt k) ⟨st, .resume signal k⟩ :=
  fun notAt => absurd rfl (notAt signal)

theorem last_unanswered (unanswered : c.Unanswered) : m.Last P c := by
  obtain ⟨⟨w, answers⟩, s⟩ := c
  obtain ⟨rfl, request, k, rfl⟩ := unanswered
  intro _
  simp [advance, step]

variable {k : Continuation}

theorem Delivers.unique (first : m.Delivers k c signal st) (second : m.Delivers k c signal' st') :
    signal = signal' ∧ st = st' := by
  obtain ⟨_, first⟩ := first
  obtain ⟨_, second⟩ := second
  have same := first.last_unique second (last_at _ _ _) (last_at _ _ _)
  simp only [Situation.mk.injEq, Step.resume.injEq, and_true] at same
  exact same.symm

theorem Delivers.not_starves (delivers : m.Delivers k c signal st) : ¬m.Starves k c := by
  rintro ⟨_, d, run, unanswered⟩
  obtain ⟨_, delivers⟩ := delivers
  obtain rfl := delivers.last_unique run (last_at _ _ _) (last_unanswered unanswered)
  obtain ⟨_, request, k', impossible⟩ := unanswered
  simp at impossible

theorem Delivers.not_runsOn (delivers : m.Delivers k c signal st) : ¬m.RunsOn k c := by
  obtain ⟨n, run⟩ := delivers
  intro runsOn
  obtain ⟨_, long⟩ := runsOn (n + 1)
  have := run.bounded (last_at _ _ _) long
  omega

theorem Starves.not_runsOn (starves : m.Starves k c) : ¬m.RunsOn k c := by
  obtain ⟨n, _, run, unanswered⟩ := starves
  intro runsOn
  obtain ⟨_, long⟩ := runsOn (n + 1)
  have := run.bounded (last_unanswered unanswered) long
  omega

/-! ### Runs are driven -/

theorem step_ended {w w' : World σ} (step : m.step w s = (w', .ended outcome)) :
    (∃ x, outcome = .suspended x ∧ w' = w ∧ s = .yield x.request x.k) ∨
      (∃ v, outcome = .completed v ∧ w' = w ∧ s = .value v []) ∨
      ∃ f, outcome = .failed f ∧ w' = w := by
  match s with
  | .eval .. | .invoke .. => simp [Machine.step] at step
  | .yield request k =>
    obtain ⟨rfl, rfl⟩ : w = w' ∧ .suspended ⟨request, k⟩ = outcome := by
      simpa [Machine.step] using step
    exact .inl ⟨_, rfl, rfl, rfl⟩
  | .resume signal [] =>
    obtain ⟨rfl, ended⟩ : w = w' ∧ turn (.ok (.halted signal)) = .ended outcome := by
      simpa [Machine.step, Table.deliver] using step
    cases signal <;> simp_all [turn, Step.value, eq_comm]
  | .resume signal (f :: k) =>
    simp only [Machine.step, Table.deliver, Table.resumeInnermost] at step
    split at step
    · simp only [turn, Prod.mk.injEq, Turn.ended.injEq] at step
      exact .inr (.inr ⟨_, step.2.symm, step.1.symm⟩)
    · split at step
      · simp [turn] at step
      · cases resumed : f.resume signal k with
        | ok go => simp [resumed, turn] at step
        | error problem =>
          simp only [resumed, turn, Prod.mk.injEq, Turn.ended.injEq] at step
          exact .inr (.inr ⟨_, step.2.symm, step.1.symm⟩)

/-- The steps of a run are advances that take no answers. -/
theorem Drives.of_run (calm : ∀ s, m.isCancelled s = false) (answers : List Signal) {w w' : World σ}
    (run : m.run n w s = (w', outcome)) :
    (∀ s', outcome = .outOfBudget s' →
      m.Drives (fun _ => True) n ⟨⟨w, answers⟩, s⟩ ⟨⟨w', answers⟩, s'⟩) ∧
    (∀ x, outcome = .suspended x →
      ∃ j, m.Drives (fun _ => True) j ⟨⟨w, answers⟩, s⟩ ⟨⟨w', answers⟩, .yield x.request x.k⟩) ∧
    (∀ v, outcome = .completed v →
      ∃ j, m.Drives (fun _ => True) j ⟨⟨w, answers⟩, s⟩ ⟨⟨w', answers⟩, .value v []⟩) := by
  induction n generalizing w s with
  | zero =>
    obtain ⟨rfl, rfl⟩ : w = w' ∧ .outOfBudget s = outcome := by simpa [Machine.run, calm] using run
    simpa using Drives.done
  | succ n ih =>
    simp only [Machine.run, calm, Bool.false_eq_true, if_false] at run
    cases stepped : m.step w s with
    | mk between turn =>
      rw [stepped] at run
      cases turn with
      | next s₁ =>
        have first : m.advance ⟨⟨w, answers⟩, s⟩ = some ⟨⟨between, answers⟩, s₁⟩ := by
          simp [advance, stepped]
        obtain ⟨sliced, suspended, completed⟩ := ih run
        refine ⟨fun s' is => .more trivial first (sliced s' is), fun x is => ?_, fun v is => ?_⟩
        · obtain ⟨j, rest⟩ := suspended x is
          exact ⟨j + 1, .more trivial first rest⟩
        · obtain ⟨j, rest⟩ := completed v is
          exact ⟨j + 1, .more trivial first rest⟩
      | ended last =>
        obtain ⟨rfl, rfl⟩ : between = w' ∧ last = outcome := by simpa using run
        rcases step_ended stepped with ⟨x, rfl, rfl, rfl⟩ | ⟨v, rfl, rfl, rfl⟩ | ⟨f, rfl, _⟩
        · simpa using ⟨0, Drives.done⟩
        · simpa using ⟨0, Drives.done⟩
        · simp

/-- Nothing comes behind the end of a whole run. -/
theorem Drives.notAt_nil (run : m.Drives P n a b) : m.Drives (Step.NotAt []) n a b := by
  induction run with
  | done => exact .done
  | more _ step _ ih =>
    refine .more (fun signal ended => ?_) step ih
    cases signal <;> simp [advance, Machine.step, Table.deliver, turn, ended] at step

end Machine
end FlowScript
