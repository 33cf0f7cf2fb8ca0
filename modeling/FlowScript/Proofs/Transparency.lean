import FlowScript.Proofs.Copies

/-! Writing out a run and restoring it cannot be seen. A run that is written out here and there goes on
as the one that never is, and copies of a run over the same heap do not see each other's writes. -/
namespace FlowScript

/-- What a host sees of a run. -/
inductive View where
  | running
  | waiting (request : Value)
  | ended (outcome : Outcome)

def Standing.view : Standing → View
  | .running _ => .running
  | .parked x => .waiting x.request
  | .ended outcome => .ended outcome

/-- What a host sees, with its own state. -/
def Stage.view (st : Stage σ) : View × σ := (st.standing.view, st.world.host)

/-- Moves that belong to the run itself, unlike writing it out. -/
def Move.plays : Move → Bool
  | .persist _ => false
  | _ => true

/-- The host keeps a list of all that it was called for. -/
def Host.logged (host : Host σ) : Host (σ × List Invocation) := fun call (s, log) =>
  let (answer, s) := host call s
  (answer, (s, log ++ [call]))

namespace Machine
variable {σ : Type}

def logged (m : Machine σ) : Machine (σ × List Invocation) :=
  ⟨m.program, m.table, m.host.logged, fun (s, _) => m.isCancelled s⟩

/-- The views after the moves that belong to the run. -/
def history (m : Machine σ) (st : Stage σ) : List Move → List (View × σ)
  | [] => []
  | mv :: moves =>
    let next := m.move st mv
    if mv.plays then next.view :: m.history next moves else m.history next moves

end Machine

/-! ### Copies of a run over one heap -/

/-- One of the copies, with its own state of the host and the moves that have led to it. -/
structure Copy (σ : Type) where
  host : σ
  standing : Standing
  past : List Move

/-- A snapshot of a copy. -/
structure Shelved (σ : Type) where
  snapshot : Snapshot
  host : σ
  past : List Move

structure Crowd (σ : Type) where
  heap : Heap
  copies : List (Copy σ)
  shelf : List (Shelved σ)

inductive Act where
  | slice (copy budget : Nat)
  | answer (copy : Nat) (signal : Signal)
  | capture (copy : Nat)
  | restore (snapshot : Nat)

def Copy.stage (h : Heap) (c : Copy σ) : Stage σ := ⟨⟨h, c.host⟩, c.standing⟩

namespace Machine
variable {σ : Type}

/-- One of the copies makes a move. -/
def play (m : Machine σ) (c : Crowd σ) (i : Nat) (mv : Move) : Crowd σ :=
  match c.copies[i]? with
  | none => c
  | some copy =>
    let st := m.move (copy.stage c.heap) mv
    { c with
      heap := st.world.heap
      copies := c.copies.set i ⟨st.world.host, st.standing, copy.past ++ [mv]⟩ }

/-- A copy that cannot be restored is over. -/
def act (m : Machine σ) (c : Crowd σ) : Act → Crowd σ
  | .slice i budget => m.play c i (.slice budget)
  | .answer i signal => m.play c i (.answer signal)
  | .capture i =>
    match c.copies[i]? with
    | some ⟨host, .parked x, past⟩ =>
      { c with shelf := c.shelf ++ [⟨Snapshot.capture c.heap x, host, past⟩] }
    | _ => c
  | .restore j =>
    match c.shelf[j]? with
    | none => c
    | some s =>
      match s.snapshot.restore .standard c.heap with
      | (h, .ok x) => { c with heap := h, copies := c.copies ++ [⟨s.host, .parked x, s.past⟩] }
      | (h, .error e) =>
        { c with
          heap := h
          copies := c.copies ++ [⟨s.host, .ended (.failed (.engineFault e.message)), s.past⟩] }

/-- The copies of one run after some acts. -/
def crowd (m : Machine σ) (st : Stage σ) (acts : List Act) : Crowd σ :=
  acts.foldl m.act ⟨st.world.heap, [⟨st.world.host, st.standing, []⟩], []⟩

end Machine

/-! ### Alike stages -/

/-- Stages that differ only in the numbers of their scopes. -/
structure Stage.Alike (R : ScopeId → ScopeId → Prop) (st st' : Stage σ) : Prop where
  matched : Matched R st.world.heap st'.world.heap
  host : st.world.host = st'.world.host
  standing : Standing.Alike R st.standing st'.standing

section
variable {σ : Type} {m : Machine σ} {R : ScopeId → ScopeId → Prop} {st st' : Stage σ}

theorem Standing.Alike.view_eq {s s' : Standing} (alike : Standing.Alike R s s') : s.view = s'.view := by
  cases alike <;> rfl

theorem Stage.Alike.view_eq (alike : Stage.Alike R st st') : st.view = st'.view := by
  simp only [view, alike.standing.view_eq, alike.host]

/-- Every stage whose frames lie in its heap is like itself. -/
theorem Stage.Alike.opening (m : Machine σ) (w : World σ) (inside : e < w.heap.next) :
    Stage.Alike (fun a a' => a = a' ∧ a < w.heap.next) (m.opening w e) (m.opening w e) where
  matched := {
    inside := by
      rintro a _ ⟨rfl, lt⟩
      exact ⟨lt, lt⟩
    locals := by
      rintro a _ ⟨rfl, _⟩
      rfl
    parents := by
      rintro a _ ⟨rfl, lt⟩
      cases up : w.heap.parent? a with
      | none => simp [Machine.opening, up]
      | some p =>
        simp only [Machine.opening, up]
        exact .some ⟨rfl, Nat.lt_trans (Heap.parent?_lt up) lt⟩
    one_to_one := by
      rintro a _ b _ ⟨rfl, _⟩ ⟨rfl, _⟩
      rfl }
  host := rfl
  standing := .running (.eval ⟨rfl, inside⟩ .nil)

/-- Stages that are alike stay so under a move of the run. -/
theorem Stage.Alike.move (standard : m.table = .standard) (fits : st.standing.Fits m.program)
    (alike : Stage.Alike R st st') {mv : Move}
    (plays : mv.plays = true) :
    ∃ R', Stage.Alike R' (m.move st mv) (m.move st' mv) ∧
      Grows R R' st'.world.heap (m.move st' mv).world.heap := by
  obtain ⟨⟨h, u⟩, standing⟩ := st
  obtain ⟨⟨h', _⟩, standing'⟩ := st'
  obtain ⟨matched, rfl, standings⟩ := alike
  cases standings with
  | running steps =>
    cases mv with
    | slice budget =>
      obtain ⟨R', matched', grows, hosts, alike'⟩ :=
        Machine.inStep_run standard budget fits steps matched u
      exact ⟨R', ⟨matched', hosts, alike'⟩, grows⟩
    | answer => exact ⟨R, ⟨matched, rfl, .running steps⟩, .refl⟩
    | persist => simp [Move.plays] at plays
  | parked frames =>
    cases mv with
    | slice => exact ⟨R, ⟨matched, rfl, .parked frames⟩, .refl⟩
    | answer => exact ⟨R, ⟨matched, rfl, .running (.resume frames)⟩, .refl⟩
    | persist => simp [Move.plays] at plays
  | ended =>
    cases mv with
    | slice | answer => exact ⟨R, ⟨matched, rfl, .ended⟩, .refl⟩
    | persist => simp [Move.plays] at plays

theorem Continuation.Alike.inside {k k' : Continuation} (matched : Matched R h h')
    (alike : k.Alike R k') : ∀ f ∈ k, f.scope < h.next := by
  induction alike with
  | nil => simp
  | cons top _ ih => exact List.forall_mem_cons.2 ⟨(matched.inside _ _ top.scope).1, ih⟩

/-- Writing out the one of two stages that are alike leaves them alike. -/
theorem Stage.Alike.persist (alike : Stage.Alike R st st') (into : Heap) :
    ∃ R', Stage.Alike R' st (m.move st' (.persist into)) := by
  obtain ⟨⟨h, u⟩, standing⟩ := st
  obtain ⟨⟨h', _⟩, standing'⟩ := st'
  obtain ⟨matched, rfl, standings⟩ := alike
  cases standings with
  | running steps => exact ⟨R, matched, rfl, .running steps⟩
  | ended => exact ⟨R, matched, rfl, .ended⟩
  | @parked k k' request frames =>
    obtain ⟨R', into', y, restored, matched', _, alike'⟩ :=
      Snapshot.restore_alike h into ⟨request, k⟩ (Continuation.Alike.inside matched frames)
    rw [Snapshot.capture_alike matched frames] at restored
    refine ⟨R', ?_⟩
    simp only [Machine.move, restored]
    exact ⟨matched', rfl, alike'⟩

theorem history_eq (wf : m.program.WellFormed) (standard : m.table = .standard)
    (fits : st.standing.Fits m.program) (alike : Stage.Alike R st st') (moves : List Move) :
    m.history st' moves = m.history st (moves.filter Move.plays) := by
  induction moves generalizing R st st' with
  | nil => rfl
  | cons mv moves ih =>
    cases plays : mv.plays with
    | true =>
      obtain ⟨R', next, _⟩ := alike.move standard fits plays
      have fits' := Machine.move_fits wf standard fits mv
      simp only [Machine.history, List.filter_cons, plays, if_true, next.view_eq, ih fits' next]
    | false =>
      match mv with
      | .persist into =>
        obtain ⟨R', next⟩ := alike.persist (m := m) into
        simpa [Machine.history, Move.plays] using ih fits next

/-! ### Crowds -/

/-- Every copy is like the one run that makes the copy's moves alone, in scopes of its own, and every
snapshot is one of such a run. -/
structure Crowd.Mirrors (m : Machine σ) (start : Stage σ) (R : Nat → ScopeId → ScopeId → Prop)
    (c : Crowd σ) : Prop where
  copies : ∀ i copy, c.copies[i]? = some copy →
    Stage.Alike (R i) (m.after start copy.past) (copy.stage c.heap)
  apart : ∀ i j a b x, i < c.copies.length → j < c.copies.length → i ≠ j →
    R i a x → R j b x → False
  shelf : ∀ s ∈ c.shelf, ∃ x, (m.after start s.past).standing = .parked x ∧
    s.snapshot = Snapshot.capture (m.after start s.past).world.heap x ∧
    s.host = (m.after start s.past).world.host ∧
    ∀ f ∈ x.k, f.scope < (m.after start s.past).world.heap.next

namespace Crowd.Mirrors
variable {start : Stage σ} {R : Nat → ScopeId → ScopeId → Prop} {c : Crowd σ}

theorem play (wf : m.program.WellFormed) (standard : m.table = .standard)
    (starts : start.standing.Fits m.program) (mirrors : c.Mirrors m start R) (i : Nat)
    (plays : mv.plays = true) : ∃ R', (m.play c i mv).Mirrors m start R' := by
  unfold Machine.play
  cases here : c.copies[i]? with
  | none => exact ⟨R, mirrors⟩
  | some copy =>
    obtain ⟨inside, _⟩ := List.getElem?_eq_some_iff.1 here
    have fits := Machine.after_fits wf standard starts copy.past
    obtain ⟨Rᵢ, alike, grows⟩ := (mirrors.copies i copy here).move standard fits plays
    have others : ∀ j < c.copies.length, j ≠ i → ∀ a b x, R i a x → R j b x → False :=
      fun j lt ne a b x => mirrors.apart i j a b x inside lt (Ne.symm ne)
    have newcomers : ∀ j < c.copies.length, j ≠ i → ∀ a b x, Rᵢ a x → R j b x → False := by
      intro j lt ne
      exact grows.apart (mirrors.copies j _ (List.getElem?_eq_getElem lt)).matched (others j lt ne)
    refine ⟨fun j => if j = i then Rᵢ else R j, ?_, ?_, mirrors.shelf⟩
    · intro j copy' there
      by_cases same : j = i
      · subst same
        rw [List.getElem?_set_self inside] at there
        obtain rfl := Option.some.inj there
        simpa [Machine.after, List.foldl_append, Copy.stage] using alike
      · rw [List.getElem?_set_ne (Ne.symm same)] at there
        obtain ⟨lt, _⟩ := List.getElem?_eq_some_iff.1 there
        have before := mirrors.copies j copy' there
        simp only [if_neg same]
        exact ⟨grows.matched before.matched fun a b x other pair => others j lt same b a x pair other,
          before.host, before.standing⟩
    · exact Apart.update mirrors.apart (fun j lt _ => by simpa using lt) newcomers

theorem capture (mirrors : c.Mirrors m start R) (i : Nat) : (m.act c (.capture i)).Mirrors m start R := by
  match here : c.copies[i]? with
  | none => simpa [Machine.act, here] using mirrors
  | some ⟨_, .running _, _⟩ | some ⟨_, .ended _, _⟩ => simpa [Machine.act, here] using mirrors
  | some ⟨u, .parked x', past⟩ =>
    simp only [Machine.act, here]
    refine ⟨mirrors.copies, mirrors.apart, fun s member => ?_⟩
    rcases List.mem_append.1 member with old | new
    · exact mirrors.shelf s old
    · obtain rfl := List.mem_singleton.1 new
      obtain ⟨matched, host, standing⟩ := mirrors.copies i _ here
      simp only [Copy.stage] at matched host standing
      generalize lone : (m.after start past).standing = s at standing
      cases standing with
      | parked frames =>
        exact ⟨_, rfl, (Snapshot.capture_alike matched frames _).symm, host.symm,
          Continuation.Alike.inside matched frames⟩

theorem restore (mirrors : c.Mirrors m start R) (j : Nat) :
    ∃ R', (m.act c (.restore j)).Mirrors m start R' := by
  cases here : c.shelf[j]? with
  | none => exact ⟨R, by simpa [Machine.act, here] using mirrors⟩
  | some s =>
    obtain ⟨x, lone, snapshot, host, inside⟩ := mirrors.shelf s (List.mem_of_getElem? here)
    obtain ⟨Rₙ, h, y, restored, matched, grows, alike⟩ := Snapshot.restore_alike _ c.heap x inside
    simp only [Machine.act, here, snapshot, restored]
    have newcomers : ∀ j < c.copies.length, j ≠ c.copies.length → ∀ a b x, Rₙ a x → R j b x → False := by
      intro j lt _
      exact grows.apart (mirrors.copies j _ (List.getElem?_eq_getElem lt)).matched fun _ _ _ => False.elim
    refine ⟨fun i => if i = c.copies.length then Rₙ else R i, ?_, ?_, mirrors.shelf⟩
    · intro i copy there
      by_cases last : i = c.copies.length
      · subst last
        obtain rfl : _ = copy := by simpa using there
        simp only [if_true]
        exact ⟨matched, host.symm, lone ▸ alike⟩
      · have lt : i < c.copies.length := by
          have := (List.getElem?_eq_some_iff.1 there).1
          simp at this
          omega
        rw [List.getElem?_append_left lt] at there
        have before := mirrors.copies i copy there
        simp only [if_neg last]
        exact ⟨grows.matched before.matched fun _ _ _ _ => id, before.host, before.standing⟩
    · refine Apart.update mirrors.apart ?_ newcomers
      intro i lt ne
      simp only [List.length_append, List.length_singleton] at lt
      omega

theorem act (wf : m.program.WellFormed) (standard : m.table = .standard)
    (starts : start.standing.Fits m.program) (mirrors : c.Mirrors m start R) (act : Act) :
    ∃ R', (m.act c act).Mirrors m start R' := by
  cases act with
  | slice i budget => exact mirrors.play wf standard starts i rfl
  | answer i signal => exact mirrors.play wf standard starts i rfl
  | capture i => exact ⟨R, mirrors.capture i⟩
  | restore j => exact mirrors.restore j

theorem acts (wf : m.program.WellFormed) (standard : m.table = .standard)
    (starts : start.standing.Fits m.program) (mirrors : c.Mirrors m start R) (acts : List Act) :
    ∃ R', (acts.foldl m.act c).Mirrors m start R' := by
  induction acts generalizing c R with
  | nil => exact ⟨R, mirrors⟩
  | cons act acts ih =>
    obtain ⟨R', next⟩ := mirrors.act wf standard starts act
    exact ih next

end Crowd.Mirrors

theorem Crowd.Mirrors.opening (m : Machine σ) (w : World σ) (inside : e < w.heap.next) :
    Crowd.Mirrors m (m.opening w e) (fun _ a a' => a = a' ∧ a < w.heap.next)
      ⟨w.heap, [⟨w.host, .running (m.start e), []⟩], []⟩ where
  copies := by
    intro i copy here
    match i with
    | 0 =>
      obtain rfl : _ = copy := by simpa using here
      exact .opening m w inside
    | i + 1 => simp at here
  apart := by
    intro i j a b x lt lt'
    simp at lt lt'
    omega
  shelf := by simp

theorem crowd_view (wf : m.program.WellFormed) (standard : m.table = .standard) (w : World σ)
    (inside : e < w.heap.next) (acts : List Act) :
    ∀ copy ∈ (m.crowd (m.opening w e) acts).copies,
      (copy.standing.view, copy.host) = (m.after (m.opening w e) copy.past).view := by
  intro copy member
  obtain ⟨R, after⟩ :=
    (Crowd.Mirrors.opening m w inside).acts wf standard (m.opening_fits w e) acts
  obtain ⟨i, here⟩ := List.getElem?_of_mem member
  exact (after.copies i copy here).view_eq.symm

/-- Writing a run out and restoring it, at whichever of its requests and over whichever heaps, changes
nothing that the host sees of it: its requests, the calls it makes, how it ends. Copies of a run over one
heap, restored as often as one likes and played in any order, each do what the one run does that makes
the copy's moves and is never written out. -/
theorem persisting_is_transparent (m : Machine σ) (valid : m.program.validate = .ok ())
    (standard : m.table = .standard) (h : Heap) (u : σ) (e : ScopeId) (inside : e < h.next) :
    let start := m.logged.opening ⟨h, u, []⟩ e
    (∀ moves, m.logged.history start moves = m.logged.history start (moves.filter Move.plays)) ∧
      ∀ acts, ∀ copy ∈ (m.logged.crowd start acts).copies,
        (copy.standing.view, copy.host) = (m.logged.after start copy.past).view := by
  have wf : m.logged.program.WellFormed := m.program.validate_eq_ok_iff.1 valid
  exact ⟨history_eq wf standard (m.logged.opening_fits _ e) (.opening m.logged ⟨h, u, []⟩ inside),
    crowd_view wf standard ⟨h, u, []⟩ inside⟩

end

/-- Two copies of a run that keeps its answer in a variable get different answers. Each of them ends with
its own. -/
theorem copies_keep_their_answers :
    ∃ (m : Machine Unit) (h : Heap) (acts : List Act),
      m.program.validate = .ok () ∧ m.table = .standard ∧ 0 < h.next ∧
        (let start := m.logged.opening ⟨h, (), []⟩ 0
        let copies := (m.logged.crowd start acts).copies
        copies.map (fun copy =>
            match copy.standing with
            | .ended (.completed (.int n)) => n.toInt
            | _ => 0) = [1, 2] ∧
          ∀ copy ∈ copies, (copy.standing.view, copy.host) = (m.logged.after start copy.past).view) := by
  let blocks : Array Block :=
    #[.constant .null, .yield 0, .declare "x" (some 1), .readVariable "x", .sequence [2, 3]]
  let m : Machine Unit := Program.machine ⟨blocks, 4⟩ fun _ u => (.ok .null, u)
  let h : Heap := Heap.empty.addScope none []
  let acts : List Act :=
    [.slice 0 9, .capture 0, .restore 0, .answer 1 (.value (.int 2)), .slice 1 2,
      .answer 0 (.value (.int 1)), .slice 0 9, .slice 1 9]
  exact ⟨m, h, acts, rfl, rfl, by decide, by decide +kernel,
    (persisting_is_transparent m rfl rfl h () 0 (by decide)).2 acts⟩

end FlowScript
