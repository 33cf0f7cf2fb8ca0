import FlowScript.Proofs.Locality

/-! Activations of a `try` with a cleanup. The steps of a run are read one by one, and each is told by
the frames of the activation on which it stands; these are the only frames over those below the `try`,
and a run that is restored has copies of them. -/
namespace FlowScript

/-- A step that a run takes, and where the scopes of its start have been moved by then. -/
structure Visit where
  step : Step
  moved : ScopeId → ScopeId

namespace Machine
variable {σ : Type}

/-- The steps that a run takes within a budget. -/
def taken (m : Machine σ) : Nat → World σ → Step → List Step
  | 0, _, _ => []
  | budget + 1, w, s =>
    if m.isCancelled w.host then []
    else
      match m.step w s with
      | (w, .next s') => s :: taken m budget w s'
      | (_, .ended _) => [s]

/-- The steps of a move. -/
def steps (m : Machine σ) (st : Stage σ) : Move → List Step
  | .slice budget =>
    match st.standing with
    | .running s => m.taken budget st.world s
    | _ => []
  | _ => []

/-- Where a move puts the scopes: a run that is restored goes on in copies. -/
def carried (st : Stage σ) : Move → ScopeId → ScopeId
  | .persist into =>
    match st.standing with
    | .parked x => fun e => into.next + (Recorded.ofSuspension st.world.heap x).number e
    | _ => id
  | _ => id

/-- All steps that a run takes, given where its scopes have been moved before. -/
def visits (m : Machine σ) (moved : ScopeId → ScopeId) (st : Stage σ) : List Move → List Visit
  | [] => []
  | mv :: moves =>
    (m.steps st mv).map (⟨·, moved⟩) ++ m.visits (carried st mv ∘ moved) (m.move st mv) moves

end Machine

/-- An evaluation of a `try` with a cleanup. -/
structure Activation where
  block : BlockId
  body : BlockId
  clauses : List CatchClause
  cleanup : BlockId
  scope : ScopeId
  next : Continuation

/-- What an activation waits for. -/
inductive Activation.Phase where
  | entering
  | body
  | caught (clause : CatchClause)
  | handler
  | due (pending : Signal)
  | cleanup (pending : Signal)
  | leaving (signal : Signal)
  | left (signal : Signal)

namespace Activation

/-- The frames below the `try`. -/
def rest (a : Activation) (moved : ScopeId → ScopeId) : Continuation := a.next.map (Frame.moved moved)

/-- The frame that stands over the frames below while the body runs. -/
def guarded (a : Activation) (moved : ScopeId → ScopeId) : Continuation :=
  ⟨.guarded, moved a.scope, .guarded a.clauses (some a.cleanup)⟩ :: a.rest moved

/-- The frame that stands there while the body of a clause runs. -/
def handler (a : Activation) (moved : ScopeId → ScopeId) : Continuation :=
  ⟨.handler, moved a.scope, .handler (some a.cleanup)⟩ :: a.rest moved

/-- The frame that stands there while the cleanup runs. -/
def cleaning (a : Activation) (moved : ScopeId → ScopeId) (pending : Signal) : Continuation :=
  ⟨.cleanup, moved a.scope, .cleanup pending⟩ :: a.rest moved

/-- What an activation waits for next, given what it has waited for and a step of the run. -/
inductive Reads (a : Activation) : Phase → Visit → Phase → Prop where
  | enter : Reads a .entering ⟨.eval a.block (moved a.scope) (a.rest moved), moved⟩ .body
  | body : s.Over (a.guarded moved) → Reads a .body ⟨s, moved⟩ .body
  | done : Reads a .body ⟨.value v (a.guarded moved), moved⟩ (.due (.value v))
  | uncaught : a.clauses.find? (·.catches f) = none →
      Reads a .body ⟨.thrown f (a.guarded moved), moved⟩ (.due (.thrown f))
  | caught : a.clauses.find? (·.catches f) = some clause →
      Reads a .body ⟨.thrown f (a.guarded moved), moved⟩ (.caught clause)
  | handle : Reads a (.caught clause) ⟨.eval clause.body e (a.handler moved), moved⟩ .handler
  | handler : s.Over (a.handler moved) → Reads a .handler ⟨s, moved⟩ .handler
  | handled : Reads a .handler ⟨.resume signal (a.handler moved), moved⟩ (.due signal)
  | clean : Reads a (.due pending)
      ⟨.eval a.cleanup (moved a.scope) (a.cleaning moved pending), moved⟩ (.cleanup pending)
  | cleanup : s.Over (a.cleaning moved pending) →
      (∀ e, s ≠ .eval a.cleanup e (a.cleaning moved pending)) →
      Reads a (.cleanup pending) ⟨s, moved⟩ (.cleanup pending)
  | cleaned : Reads a (.cleanup pending) ⟨.value v (a.cleaning moved pending), moved⟩ (.leaving pending)
  | failed : Reads a (.cleanup pending) ⟨.thrown f (a.cleaning moved pending), moved⟩
      (.leaving (.thrown f))
  | leave : Reads a (.leaving signal) ⟨.resume signal (a.rest moved), moved⟩ (.left signal)

/-- The phases that an activation goes through on the steps of a run. -/
inductive Course (a : Activation) : Phase → List Visit → Phase → Prop where
  | nil : Course a φ [] φ
  | cons : a.Reads φ v φ' → Course a φ' t φ'' → Course a φ (v :: t) φ''

/-- The signal has gone on to the frames below. -/
def Phase.Over (φ : Phase) : Prop := ∃ signal, φ = .left signal

/-- Visits that begin with those of the activation; others come only after it is over. -/
def Follows (a : Activation) (φ : Phase) (visits : List Visit) (φ' : Phase) : Prop :=
  ∃ t others, visits = t ++ others ∧ a.Course φ t φ' ∧ (others ≠ [] → φ'.Over)

/-! ### Telling steps by their depth -/

/-- The step evaluates the cleanup for a frame right over the frames below. -/
def evaluatesCleanup (a : Activation) (v : Visit) : Bool :=
  match v.step with
  | .eval b _ (f :: k) => b == a.cleanup && f.point == .cleanup && k.length == a.next.length
  | _ => false

/-- The step hands a signal to the clauses of a frame right over the frames below. -/
def offers (a : Activation) (v : Visit) : Bool :=
  match v.step with
  | .resume _ (f :: k) => f.point == .guarded && k.length == a.next.length
  | _ => false

/-- The step hands a signal to the frames below. -/
def leaves (a : Activation) (v : Visit) : Bool :=
  match v.step with
  | .resume _ k => decide (k.length ≤ a.next.length)
  | _ => false

namespace Phase

/-- How often the cleanup has been evaluated. -/
def cleanups : Phase → Nat
  | .cleanup _ | .leaving _ | .left _ => 1
  | _ => 0

/-- How often the clauses have been asked. -/
def offers : Phase → Nat
  | .entering | .body => 0
  | _ => 1

def exits : Phase → Nat
  | .left _ => 1
  | _ => 0

end Phase

variable {a : Activation} {moved : ScopeId → ScopeId} {φ φ' : Phase} {t : List Visit} {v : Visit}

@[simp] theorem length_rest : (a.rest moved).length = a.next.length := by simp [rest]

theorem over_not_cleanup {top : Frame} (below : k.length = a.next.length) (atop : s.Over (top :: k))
    (other : top.point = .cleanup → ∀ e, s ≠ .eval a.cleanup e (top :: k)) :
    a.evaluatesCleanup ⟨s, moved⟩ = false := by
  obtain ⟨inner, rfl, _⟩ := atop
  cases inner with
  | resume | invoke | yield => rfl
  | eval b e upper =>
    cases upper with
    | cons f upper => simp [evaluatesCleanup, Step.onto]; omega
    | nil =>
      simp only [evaluatesCleanup, Step.onto, List.nil_append, Bool.and_eq_false_iff]
      by_cases here : top.point = .cleanup
      · refine .inl (.inl ?_)
        simpa [Step.onto] using other here e
      · exact .inl (.inr (by simpa using here))

theorem over_not_offers {top : Frame} (below : k.length = a.next.length) (atop : s.Over (top :: k)) :
    a.offers ⟨s, moved⟩ = false := by
  obtain ⟨inner, rfl, above⟩ := atop
  cases inner with
  | eval | invoke | yield => rfl
  | resume signal upper =>
    cases upper with
    | nil => exact absurd rfl (above signal)
    | cons f upper => simp [offers, Step.onto]; omega

theorem over_not_leaves {top : Frame} (below : k.length = a.next.length) (atop : s.Over (top :: k)) :
    a.leaves ⟨s, moved⟩ = false := by
  obtain ⟨inner, rfl, _⟩ := atop
  cases inner with
  | eval | invoke | yield => rfl
  | resume signal upper => simp [leaves, Step.onto]; omega

/-- A step on the frames below does not evaluate the cleanup over them. -/
theorem rest_not_cleanup : a.evaluatesCleanup ⟨.eval b e (a.rest moved), moved⟩ = false := by
  cases below : a.rest moved with
  | nil => rfl
  | cons f k =>
    have length : (a.rest moved).length = a.next.length := length_rest
    rw [below, List.length_cons] at length
    simp [evaluatesCleanup]
    omega

theorem rest_not_offers : a.offers ⟨.resume signal (a.rest moved), moved⟩ = false := by
  cases below : a.rest moved with
  | nil => rfl
  | cons f k =>
    have length : (a.rest moved).length = a.next.length := length_rest
    rw [below, List.length_cons] at length
    simp [offers]
    omega

theorem Reads.cleanups (reads : a.Reads φ v φ') :
    φ'.cleanups = φ.cleanups + if a.evaluatesCleanup v then 1 else 0 := by
  cases reads with
  | enter => simp [rest_not_cleanup, Phase.cleanups]
  | body atop => simp [over_not_cleanup length_rest atop, Phase.cleanups]
  | handler atop => simp [over_not_cleanup length_rest atop, Phase.cleanups]
  | cleanup atop other => simp [over_not_cleanup length_rest atop fun _ => other, Phase.cleanups]
  | handle | clean => simp [evaluatesCleanup, Activation.handler, cleaning, Phase.cleanups]
  | done | uncaught | caught | handled | cleaned | failed | leave =>
    simp [evaluatesCleanup, Step.value, Step.thrown, Phase.cleanups]

theorem Reads.offers (reads : a.Reads φ v φ') :
    φ'.offers = φ.offers + if a.offers v then 1 else 0 := by
  cases reads with
  | enter => simp [Activation.offers, Phase.offers]
  | body atop => simp [over_not_offers length_rest atop, Phase.offers]
  | handler atop => simp [over_not_offers length_rest atop, Phase.offers]
  | cleanup atop => simp [over_not_offers length_rest atop, Phase.offers]
  | leave => simp [rest_not_offers, Phase.offers]
  | handle | clean | done | uncaught | caught | handled | cleaned | failed =>
    simp [Activation.offers, Step.value, Step.thrown, guarded, Activation.handler, cleaning, Phase.offers]

theorem Reads.exits (reads : a.Reads φ v φ') :
    φ'.exits = φ.exits + if a.leaves v then 1 else 0 := by
  cases reads with
  | body atop => simp [over_not_leaves length_rest atop, Phase.exits]
  | handler atop => simp [over_not_leaves length_rest atop, Phase.exits]
  | cleanup atop => simp [over_not_leaves length_rest atop, Phase.exits]
  | enter | leave | handle | clean | done | uncaught | caught | handled | cleaned | failed =>
    simp [leaves, Step.value, Step.thrown, guarded, Activation.handler, cleaning, Phase.exits]

/-- What each step adds to a tally of the phases adds up along the steps. -/
theorem Course.tally {tally : Phase → Nat} {told : Visit → Bool}
    (adds : ∀ φ v φ', a.Reads φ v φ' → tally φ' = tally φ + if told v then 1 else 0)
    (course : a.Course φ t φ') : tally φ' = tally φ + t.countP told := by
  induction course with
  | nil => simp
  | cons reads _ ih =>
    rw [ih, adds _ _ _ reads, List.countP_cons]
    omega

end Activation

end FlowScript
