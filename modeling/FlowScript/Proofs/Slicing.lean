import Mathlib.Algebra.GroupWithZero.Nat
import FlowScript.Proofs.Driving

/-! Running in slices. A run that gets its steps piece by piece takes the same steps as one that gets
them at once, and comes to the same end; once it is cancelled it takes none. -/
namespace FlowScript.Machine
variable {σ : Type}

/-- The steps that a run takes within a budget, each with the world that it finds. -/
def path (m : Machine σ) : Nat → World σ → Step → List (World σ × Step)
  | 0, _, _ => []
  | budget + 1, w, s =>
    if m.isCancelled w.host then []
    else
      (w, s) ::
        match m.step w s with
        | (w, .next s) => path m budget w s
        | (_, .ended _) => []

/-- Runs with one budget after the other. Each slice goes on with the step that the one before it has
left over. -/
def slices (m : Machine σ) : List Nat → World σ → Step → World σ × Outcome
  | [], w, s => (w, .outOfBudget s)
  | budget :: budgets, w, s =>
    match m.run budget w s with
    | (w, .outOfBudget s) => slices m budgets w s
    | finished => finished

/-- The steps that all slices take. -/
def slicesPath (m : Machine σ) : List Nat → World σ → Step → List (World σ × Step)
  | [], _, _ => []
  | budget :: budgets, w, s =>
    m.path budget w s ++
      match m.run budget w s with
      | (w, .outOfBudget s) => slicesPath m budgets w s
      | _ => []

/-- The run comes to an end if nothing bounds it. -/
inductive Ends (m : Machine σ) : World σ → Step → World σ → Outcome → Prop where
  | cancelled : m.isCancelled w.host = true → Ends m w s w .cancelled
  | ended : m.isCancelled w.host = false → m.step w s = (w', .ended outcome) → Ends m w s w' outcome
  | next : m.isCancelled w.host = false → m.step w s = (w₁, .next s₁) → Ends m w₁ s₁ w' outcome →
      Ends m w s w' outcome

/-! ### One budget after the other -/

variable {m : Machine σ} {w w' : World σ} {s : Step} {outcome : Outcome}

theorem run_cancelled (cancelled : m.isCancelled w.host = true) (n : Nat) :
    m.run n w s = (w, .cancelled) := by
  cases n <;> simp [run, cancelled]

theorem path_cancelled (cancelled : m.isCancelled w.host = true) (n : Nat) : m.path n w s = [] := by
  cases n <;> simp [path, cancelled]

theorem run_next (alive : m.isCancelled w.host = false) (step : m.step w s = (w₁, .next s₁)) (n : Nat) :
    m.run (n + 1) w s = m.run n w₁ s₁ := by
  simp [run, alive, step]

theorem run_ended (alive : m.isCancelled w.host = false) (step : m.step w s = (w', .ended outcome))
    (n : Nat) : m.run (n + 1) w s = (w', outcome) := by
  simp [run, alive, step]

theorem path_next (alive : m.isCancelled w.host = false) (step : m.step w s = (w₁, .next s₁)) (n : Nat) :
    m.path (n + 1) w s = (w, s) :: m.path n w₁ s₁ := by
  simp [path, alive, step]

theorem path_ended (alive : m.isCancelled w.host = false) (step : m.step w s = (w', .ended outcome))
    (n : Nat) : m.path (n + 1) w s = [(w, s)] := by
  simp [path, alive, step]

/-- The end of a run is not that its budget has run out. -/
theorem ended_not_outOfBudget (step : m.step w s = (w', .ended outcome)) (s' : Step) :
    outcome ≠ .outOfBudget s' := by
  rcases step_ended step with ⟨x, rfl, _⟩ | ⟨v, rfl, _⟩ | ⟨f, rfl, _⟩ <;> exact nofun

/-- Two budgets come to their sum: the second one goes on where the first one has run out. -/
theorem run_add (m : Machine σ) (i j : Nat) (w : World σ) (s : Step) :
    m.run (i + j) w s =
      match m.run i w s with
      | (w, .outOfBudget s) => m.run j w s
      | finished => finished := by
  induction i generalizing w s with
  | zero =>
    cases cancelled : m.isCancelled w.host with
    | true => simp only [Nat.zero_add, run_cancelled cancelled]
    | false => simp [run, cancelled]
  | succ i ih =>
    rw [Nat.add_right_comm]
    cases cancelled : m.isCancelled w.host with
    | true => simp only [run_cancelled cancelled]
    | false =>
      rcases step : m.step w s with ⟨w₁, s₁ | outcome⟩
      · simp only [run_next cancelled step, ih]
      · simp only [run_ended cancelled step]
        split
        · next same => exact absurd (Prod.mk.inj same).2 (ended_not_outOfBudget step _)
        · rfl

theorem path_add (m : Machine σ) (i j : Nat) (w : World σ) (s : Step) :
    m.path (i + j) w s =
      m.path i w s ++
        match m.run i w s with
        | (w, .outOfBudget s) => m.path j w s
        | _ => [] := by
  induction i generalizing w s with
  | zero =>
    cases cancelled : m.isCancelled w.host with
    | true => simp [path_cancelled cancelled, run_cancelled cancelled]
    | false => simp [path, run, cancelled]
  | succ i ih =>
    rw [Nat.add_right_comm]
    cases cancelled : m.isCancelled w.host with
    | true => simp [path_cancelled cancelled, run_cancelled cancelled]
    | false =>
      rcases step : m.step w s with ⟨w₁, s₁ | outcome⟩
      · simp only [path_next cancelled step, run_next cancelled step, ih, List.cons_append]
      · simp only [path_ended cancelled step, run_ended cancelled step]
        split
        · next same => exact absurd (Prod.mk.inj same).2 (ended_not_outOfBudget step _)
        · rfl

theorem slices_eq_run (m : Machine σ) (n : Nat) (budgets : List Nat) (w : World σ) (s : Step) :
    m.slices (n :: budgets) w s = m.run (n :: budgets).sum w s := by
  induction budgets generalizing n w s with
  | nil =>
    simp only [slices, List.sum_cons, List.sum_nil, Nat.add_zero]
    split
    · next left => exact left.symm
    · rfl
  | cons n' budgets ih =>
    rw [slices, List.sum_cons, run_add]
    split
    · exact ih n' _ _
    · rfl

theorem slicesPath_eq_path (m : Machine σ) (n : Nat) (budgets : List Nat) (w : World σ) (s : Step) :
    m.slicesPath (n :: budgets) w s = m.path (n :: budgets).sum w s := by
  induction budgets generalizing n w s with
  | nil =>
    simp only [slicesPath, List.sum_cons, List.sum_nil, Nat.add_zero]
    split <;> simp
  | cons n' budgets ih =>
    rw [slicesPath, List.sum_cons, path_add]
    split
    · rw [ih n']
    · rfl

/-! ### What is within a budget -/

theorem length_path_le (m : Machine σ) (n : Nat) (w : World σ) (s : Step) : (m.path n w s).length ≤ n := by
  induction n generalizing w s with
  | zero => exact Nat.le_refl 0
  | succ n ih =>
    simp only [path]
    split
    · exact Nat.zero_le _
    · split
      · exact Nat.succ_le_succ (ih _ _)
      · exact Nat.succ_le_succ (Nat.zero_le n)

/-- A run whose budget has run out has used all of it. -/
theorem length_path_of_outOfBudget (left : m.run n w s = (w', .outOfBudget s')) :
    (m.path n w s).length = n := by
  induction n generalizing w s with
  | zero => rfl
  | succ n ih =>
    cases cancelled : m.isCancelled w.host with
    | true => simp [run_cancelled cancelled] at left
    | false =>
      rcases step : m.step w s with ⟨w₁, s₁ | outcome⟩
      · rw [run_next cancelled step] at left
        rw [path_next cancelled step, List.length_cons, ih left]
      · rw [run_ended cancelled step] at left
        exact absurd (Prod.mk.inj left).2 (ended_not_outOfBudget step s')

theorem path_alive (m : Machine σ) (n : Nat) (w : World σ) (s : Step) :
    ∀ taken ∈ m.path n w s, m.isCancelled taken.1.host = false := by
  induction n generalizing w s with
  | zero => exact nofun
  | succ n ih =>
    cases cancelled : m.isCancelled w.host with
    | true =>
      rw [path_cancelled cancelled]
      exact nofun
    | false =>
      rcases step : m.step w s with ⟨w₁, s₁ | outcome⟩
      · rw [path_next cancelled step]
        exact List.forall_mem_cons.2 ⟨cancelled, ih w₁ s₁⟩
      · rw [path_ended cancelled step]
        simpa using cancelled

/-! ### Runs without a bound -/

/-- A run that comes to an end does so within every budget that is large enough. -/
theorem Ends.bounded (ends : m.Ends w s w' outcome) : ∃ j, ∀ n, j ≤ n → m.run n w s = (w', outcome) := by
  induction ends with
  | cancelled cancelled => exact ⟨0, fun n _ => run_cancelled cancelled n⟩
  | ended alive step =>
    refine ⟨1, fun n enough => ?_⟩
    obtain ⟨n, rfl⟩ := Nat.exists_eq_add_of_le' enough
    exact run_ended alive step n
  | next alive step _ ih =>
    obtain ⟨j, rest⟩ := ih
    refine ⟨j + 1, fun n enough => ?_⟩
    obtain ⟨n, rfl⟩ := Nat.exists_eq_add_of_le' (Nat.le_trans (Nat.le_add_left 1 j) enough)
    rw [run_next alive step]
    exact rest n (by omega)

theorem Ends.not_outOfBudget (ends : m.Ends w s w' outcome) (s' : Step) : outcome ≠ .outOfBudget s' := by
  induction ends with
  | cancelled => exact nofun
  | ended _ step => exact ended_not_outOfBudget step s'
  | next _ _ _ ih => exact ih

theorem ends_iff : m.Ends w s w' outcome ↔
    (∃ n, m.run n w s = (w', outcome)) ∧ ∀ s', outcome ≠ .outOfBudget s' := by
  constructor
  · intro ends
    obtain ⟨j, run⟩ := ends.bounded
    exact ⟨⟨j, run j (Nat.le_refl j)⟩, ends.not_outOfBudget⟩
  · rintro ⟨⟨n, run⟩, finished⟩
    induction n generalizing w s with
    | zero =>
      cases cancelled : m.isCancelled w.host with
      | true =>
        rw [run_cancelled cancelled] at run
        obtain ⟨rfl, rfl⟩ := Prod.mk.inj run
        exact .cancelled cancelled
      | false =>
        simp only [Machine.run, cancelled, Bool.false_eq_true, if_false, Prod.mk.injEq] at run
        exact absurd run.2.symm (finished s)
    | succ n ih =>
      cases cancelled : m.isCancelled w.host with
      | true =>
        rw [run_cancelled cancelled] at run
        obtain ⟨rfl, rfl⟩ := Prod.mk.inj run
        exact .cancelled cancelled
      | false =>
        rcases step : m.step w s with ⟨w₁, s₁ | last⟩
        · rw [run_next cancelled step] at run
          exact .next cancelled step (ih run)
        · rw [run_ended cancelled step] at run
          obtain ⟨rfl, rfl⟩ := Prod.mk.inj run
          exact .ended cancelled step

/-- Slicing a run does not change it. The slices end as one run with all their steps does, in the same
world, and take the same steps; so slices of any size lead to the end of a run that has one. Within a
budget no more steps are taken than it allows, none is taken in a world in which the run is cancelled, and
the whole budget is used where it has run out. The world holds the scopes and all that the host keeps, its
log of calls too; and whether the run is cancelled is for the host to say, at each of its calls. -/
theorem slices_run_as_one (m : Machine σ) (w : World σ) (s : Step) :
    (∀ n budgets, m.slices (n :: budgets) w s = m.run (n :: budgets).sum w s ∧
        m.slicesPath (n :: budgets) w s = m.path (n :: budgets).sum w s) ∧
      (∀ w' outcome, m.Ends w s w' outcome → ∀ n, 1 ≤ n →
        ∃ j, ∀ k, j ≤ k → m.slices (List.replicate k n) w s = (w', outcome)) ∧
      (∀ w' outcome, m.Ends w s w' outcome ↔
        (∃ n, m.run n w s = (w', outcome)) ∧ ∀ s', outcome ≠ .outOfBudget s') ∧
      (∀ n, (m.path n w s).length ≤ n ∧
        (∀ w' s', m.run n w s = (w', .outOfBudget s') → (m.path n w s).length = n) ∧
        ∀ taken ∈ m.path n w s, m.isCancelled taken.1.host = false) ∧
      (m.isCancelled w.host = true → ∀ n, m.run n w s = (w, .cancelled) ∧ m.path n w s = []) := by
  refine ⟨?sliced, ?ends, fun _ _ => ends_iff, ?within, ?cancelled⟩
  case sliced =>
    intro n budgets
    exact ⟨m.slices_eq_run n budgets w s, m.slicesPath_eq_path n budgets w s⟩
  case ends =>
    intro w' outcome ends n positive
    obtain ⟨j, run⟩ := ends.bounded
    refine ⟨j + 1, fun k enough => ?_⟩
    obtain ⟨k, rfl⟩ := Nat.exists_eq_add_of_le' (Nat.le_trans (Nat.le_add_left 1 j) enough)
    rw [List.replicate_succ, slices_eq_run, ← List.replicate_succ, List.sum_replicate_nat]
    exact run _ (Nat.le_trans (by omega) (Nat.le_mul_of_pos_right (k + 1) positive))
  case within =>
    intro n
    exact ⟨m.length_path_le n w s, fun _ _ => length_path_of_outOfBudget, m.path_alive n w s⟩
  case cancelled =>
    intro cancelled n
    exact ⟨run_cancelled cancelled n, path_cancelled cancelled n⟩

/-- The first of two calls cancels the run, at the very end of a slice: the second one is never made. -/
theorem slices_stop_where_cancelled :
    let p : Program := ⟨#[.call none "stop" [], .sequence [0, 0]], 1⟩
    let m : Machine (Bool × List String) :=
      ⟨p, .standard, fun call u => (.ok .null, true, call.member :: u.2), Prod.fst⟩
    let w : World (Bool × List String) := ⟨.empty, false, []⟩
    m.Ends w (m.start 0) ⟨.empty, true, ["stop"]⟩ .cancelled ∧
      m.slices [3, 5] w (m.start 0) = (⟨.empty, true, ["stop"]⟩, .cancelled) ∧
      ∃ j, ∀ k, j ≤ k →
        m.slices (List.replicate k 3) w (m.start 0) = (⟨.empty, true, ["stop"]⟩, .cancelled) := by
  intro p m w
  have ends : m.Ends w (m.start 0) ⟨.empty, true, ["stop"]⟩ .cancelled :=
    .next rfl rfl (.next rfl rfl (.next rfl rfl (.cancelled rfl)))
  obtain ⟨sliced, settles, _⟩ := m.slices_run_as_one w (m.start 0)
  exact ⟨ends, (sliced 3 [5]).1.trans rfl, settles _ _ ends 3 (by decide)⟩

end FlowScript.Machine
