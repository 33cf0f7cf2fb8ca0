import FlowScript.Proofs.Ownership

/-! The runs of one script over a heap. Scripts of one program whose scopes hold the same go through the
same runs, and leave all other scopes alone. -/
namespace FlowScript

/-- A host whose answers depend on the invocation only. -/
def Host.pure (answer : Invocation → Except Failure Value) : Host Unit := fun call u => (answer call, u)

/-- A heap, and the runs of a script that have been started over it. -/
structure Life where
  heap : Heap
  runs : List Standing

/-- What may be done with the runs of a script. -/
inductive Play where
  | start
  | slice (run budget : Nat)
  | answer (run : Nat) (signal : Signal)

def Life.move (m : Machine Unit) (l : Life) (i : Nat) (mv : Move) : Life :=
  match l.runs[i]? with
  | none => l
  | some standing =>
    let st := m.move ⟨⟨l.heap, ()⟩, standing⟩ mv
    ⟨st.world.heap, l.runs.set i st.standing⟩

def Script.play (answer : Invocation → Except Failure Value) (s : Script) (l : Life) : Play → Life
  | .start => { l with runs := l.runs ++ [.running s.start] }
  | .slice i budget => l.move (s.machine (.pure answer)) i (.slice budget)
  | .answer i signal => l.move (s.machine (.pure answer)) i (.answer signal)

/-- The scripts have the same program and the same runs, and their scopes hold the same. -/
structure Life.Alike (R : ScopeId → ScopeId → Prop) (s s' : Script) (l l' : Life) : Prop where
  program : s.program = s'.program
  matched : Matched R l.heap l'.heap
  binding : R s.binding s'.binding
  fields : R s.fields s'.fields
  runs : List.Forall₂ (Standing.Alike R) l.runs l'.runs

/-- The frames of all runs fit. -/
def Life.Fits (p : Program) (l : Life) : Prop := ∀ st ∈ l.runs, st.Fits p

theorem forall₂_getElem? {P : α → β → Prop} {l : List α} {l' : List β} (all : List.Forall₂ P l l')
    (i : Nat) : Option.Rel P l[i]? l'[i]? := by
  induction all generalizing i with
  | nil => exact .none
  | cons first _ ih =>
    cases i with
    | zero => exact .some first
    | succ i => exact ih i

theorem forall₂_set {P : α → β → Prop} {l : List α} {l' : List β} (all : List.Forall₂ P l l')
    (new : P a a') (i : Nat) : List.Forall₂ P (l.set i a) (l'.set i a') := by
  induction all generalizing i with
  | nil => exact .nil
  | cons first others ih =>
    cases i with
    | zero => exact .cons new others
    | succ i => exact .cons first (ih i)

namespace Life
variable {R : ScopeId → ScopeId → Prop} {s s' : Script} {l l' : Life}
variable {answer : Invocation → Except Failure Value}

theorem Alike.contents (alike : Alike R s s' l l') : s.contents l.heap = s'.contents l'.heap := by
  simp only [Script.contents, alike.matched.locals _ _ alike.binding, alike.matched.locals _ _ alike.fields]

theorem Fits.move {m : Machine Unit} (fits : l.Fits m.program) (i : Nat) (plays : mv.plays = true) :
    (l.move m i mv).Fits m.program := by
  unfold Life.move
  cases here : l.runs[i]? with
  | none => exact fits
  | some standing =>
    intro st member
    rcases List.mem_or_eq_of_mem_set member with old | rfl
    · exact fits st old
    · exact Machine.move_plays_fits (fits standing (List.mem_of_getElem? here)) plays

theorem Fits.play (fits : l.Fits s.program) (p : Play) : (s.play answer l p).Fits s.program := by
  cases p with
  | start =>
    intro st member
    rcases List.mem_append.1 member with old | new
    · exact fits st old
    · obtain rfl := List.mem_singleton.1 new
      exact s.start_fits
  | slice i budget => exact Fits.move (m := s.machine (.pure answer)) fits i rfl
  | answer i signal => exact Fits.move (m := s.machine (.pure answer)) fits i rfl

theorem Alike.move {m : Machine Unit} (standard : m.table = .standard) (fits : l.Fits m.program)
    (alike : Alike R s s' l l') (i : Nat) (plays : mv.plays = true) :
    ∃ R', Alike R' s s' (l.move m i mv) (l'.move m i mv) ∧ Grows R R' l'.heap (l'.move m i mv).heap := by
  obtain ⟨program, matched, binding, fields, runs⟩ := alike
  have pair := forall₂_getElem? runs i
  unfold Life.move
  cases here : l.runs[i]? with
  | none =>
    cases here' : l'.runs[i]? with
    | none => exact ⟨R, ⟨program, matched, binding, fields, runs⟩, .refl⟩
    | some st' =>
      rw [here, here'] at pair
      exact nomatch pair
  | some st =>
    cases here' : l'.runs[i]? with
    | none =>
      rw [here, here'] at pair
      exact nomatch pair
    | some st' =>
      rw [here, here'] at pair
      obtain ⟨standings⟩ := pair
      have stages : Stage.Alike R (⟨⟨l.heap, ()⟩, st⟩ : Stage Unit) ⟨⟨l'.heap, ()⟩, st'⟩ :=
        ⟨matched, rfl, standings⟩
      obtain ⟨R', next, grows⟩ := stages.move standard (fits st (List.mem_of_getElem? here)) plays
      have others := runs.imp fun _ _ => Standing.Alike.imp grows.keeps
      refine ⟨R', ⟨program, next.matched, grows.keeps _ _ binding, grows.keeps _ _ fields, ?_⟩, grows⟩
      exact forall₂_set others next.standing i

/-- Scripts that are alike stay so, and what is not theirs stays as it is. -/
theorem Alike.play (fits : l.Fits s.program) (alike : Alike R s s' l l') (p : Play) :
    ∃ R', Alike R' s s' (s.play answer l p) (s'.play answer l' p) ∧
      Grows R R' l'.heap (s'.play answer l' p).heap := by
  have same : s'.machine (.pure answer) = s.machine (.pure answer) := by
    simp only [Script.machine, alike.program]
  cases p with
  | start =>
    refine ⟨R, ⟨alike.program, alike.matched, alike.binding, alike.fields, ?_⟩, .refl⟩
    refine List.rel_append alike.runs (.cons ?_ .nil)
    rw [Script.start, alike.program]
    exact .running (.eval alike.fields .nil)
  | slice i budget =>
    simp only [Script.play, same]
    exact alike.move (m := s.machine (.pure answer)) rfl fits i rfl
  | answer i signal =>
    simp only [Script.play, same]
    exact alike.move (m := s.machine (.pure answer)) rfl fits i rfl

end Life
end FlowScript
