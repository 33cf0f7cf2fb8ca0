import FlowScript.Proofs.Transparency
import FlowScript.Script

/-! Scripts own the scopes that they run in. Scripts of one program whose scopes hold the same cannot be
told apart, whatever else is in their heaps. -/
namespace FlowScript

namespace Heap
variable {h h' h'' : Heap}

/-- All scopes are still there and hold what they held; there may be further ones. -/
structure Extends (h h' : Heap) : Prop where
  next_le : h.next ≤ h'.next
  parents : ∀ e < h.next, h'.parent? e = h.parent? e
  locals : ∀ e < h.next, h'.locals e = h.locals e

namespace Extends

theorem refl (h : Heap) : h.Extends h := ⟨Nat.le_refl _, fun _ _ => rfl, fun _ _ => rfl⟩

theorem trans (first : h.Extends h') (second : h'.Extends h'') : h.Extends h'' where
  next_le := Nat.le_trans first.next_le second.next_le
  parents e lt := (second.parents e (Nat.lt_of_lt_of_le lt first.next_le)).trans (first.parents e lt)
  locals e lt := (second.locals e (Nat.lt_of_lt_of_le lt first.next_le)).trans (first.locals e lt)

theorem addScope (h : Heap) (parent : Option ScopeId) (bindings : Bindings) :
    h.Extends (h.addScope parent bindings) where
  next_le := by simp
  parents e lt := by rw [parent?_addScope, if_neg (Nat.ne_of_lt lt)]
  locals e lt := by rw [locals_addScope, if_neg (Nat.ne_of_lt lt)]

/-- A new scope with a binding. -/
theorem declare_child (h : Heap) (e : ScopeId) (name : String) (v : Value) :
    h.Extends ((h.child e).declare h.next name v) where
  next_le := by simp [Heap.child]
  parents x old := by rw [parent?_declare, Heap.child, parent?_addScope, if_neg (Nat.ne_of_lt old)]
  locals x old := by
    rw [locals_declare (by simp [Heap.child]), if_neg (Nat.ne_of_gt old), Heap.child, locals_addScope,
      if_neg (Nat.ne_of_lt old)]

theorem matched {S : ScopeId → ScopeId → Prop} {g : Heap} (larger : h.Extends h')
    (before : Matched S g h) : Matched S g h' := by
  have grows : Grows (fun _ _ => False) (fun _ _ => False) h h' :=
    ⟨fun _ _ => id, fun _ _ => False.elim, larger.next_le, larger.parents, fun e lt _ => larger.locals e lt⟩
  exact grows.matched before fun _ _ _ _ => id

end Extends
end Heap

/-! ### The scopes of a script -/

/-- What the scopes of a script hold. -/
structure Contents where
  binding : Bindings
  fields : Bindings

namespace Script
variable {s s' : Script} {h h' : Heap}

def contents (s : Script) (h : Heap) : Contents := ⟨h.locals s.binding, h.locals s.fields⟩

/-- The root scope of the script is a root, and its fields stand right below it. -/
structure Own (s : Script) (h : Heap) : Prop where
  inside : s.fields < h.next
  root : h.parent? s.binding = none
  below : h.parent? s.fields = some s.binding

/-- The script has been made between the two heaps, in scopes of its own. -/
structure Fresh (s : Script) (h h' : Heap) : Prop where
  own : s.Own h'
  larger : h.Extends h'
  new : h.next ≤ s.binding

theorem Own.lt (own : s.Own h) : s.binding < s.fields := Heap.parent?_lt own.below

theorem Fresh.fields_new (fresh : s.Fresh h h') : h.next ≤ s.fields :=
  Nat.le_trans fresh.new (Nat.le_of_lt fresh.own.lt)

section
variable {name : String} {p : Program} {binding fields : Bindings} {execution : Option ExecutionId}

theorem create_fresh : (create name p binding fields execution h).2.Fresh h
    (create name p binding fields execution h).1 where
  own := {
    inside := by simp [create]
    root := by simp [create, Heap.parent?_addScope]
    below := by simp [create, Heap.parent?_addScope] }
  larger := (Heap.Extends.addScope h none binding).trans (.addScope _ _ fields)
  new := Nat.le_refl _

@[simp] theorem contents_create :
    (create name p binding fields execution h).2.contents (create name p binding fields execution h).1 =
      ⟨binding, fields⟩ := by
  simp [contents, create, Heap.locals_addScope]

end

/-- The root scopes of two scripts, and their fields. -/
def paired (s s' : Script) (e e' : ScopeId) : Prop :=
  e = s.binding ∧ e' = s'.binding ∨ e = s.fields ∧ e' = s'.fields

/-- Scripts whose scopes hold the same match. -/
theorem matched_paired (own : s.Own h) (own' : s'.Own h') (same : s.contents h = s'.contents h') :
    Matched (paired s s') h h' where
  inside := by
    have lt := own.lt
    have lt' := own'.lt
    rintro e e' (⟨rfl, rfl⟩ | ⟨rfl, rfl⟩)
    · exact ⟨Nat.lt_trans lt own.inside, Nat.lt_trans lt' own'.inside⟩
    · exact ⟨own.inside, own'.inside⟩
  locals := by
    rintro e e' (⟨rfl, rfl⟩ | ⟨rfl, rfl⟩)
    · exact congrArg Contents.binding same
    · exact congrArg Contents.fields same
  parents := by
    rintro e e' (⟨rfl, rfl⟩ | ⟨rfl, rfl⟩)
    · rw [own.root, own'.root]
      exact .none
    · rw [own.below, own'.below]
      exact .some (.inl ⟨rfl, rfl⟩)
  one_to_one := by
    have ne := Nat.ne_of_lt own.lt
    have ne' := Nat.ne_of_lt own'.lt
    rintro a a' b b' (⟨rfl, rfl⟩ | ⟨rfl, rfl⟩) (⟨rfl, rfl⟩ | ⟨rfl, rfl⟩)
    · simp
    · simp [ne, ne']
    · simp [ne.symm, ne'.symm]
    · simp

end Script

/-! ### Runs of scripts that match -/

section
variable {R R' : ScopeId → ScopeId → Prop} {σ : Type} {m : Machine σ}

theorem Step.Alike.imp (weaker : ∀ a a', R a a' → R' a a') (alike : Step.Alike R s s') :
    Step.Alike R' s s' := by
  cases alike with
  | eval related rest => exact .eval (weaker _ _ related) (rest.imp weaker)
  | resume rest => exact .resume (rest.imp weaker)
  | invoke rest => exact .invoke (rest.imp weaker)
  | yield rest => exact .yield (rest.imp weaker)

theorem Standing.Alike.imp (weaker : ∀ a a', R a a' → R' a a') (alike : Standing.Alike R st st') :
    Standing.Alike R' st st' := by
  cases alike with
  | running steps => exact .running (steps.imp weaker)
  | parked rest => exact .parked (rest.imp weaker)
  | ended => exact .ended

/-- Frames fit after every move of the run itself, also where the program is not valid. -/
theorem Machine.move_plays_fits {st : Stage σ} (fits : st.standing.Fits m.program)
    (plays : mv.plays = true) : (m.move st mv).standing.Fits m.program := by
  obtain ⟨w, standing⟩ := st
  match mv, standing with
  | .slice budget, .running s =>
    obtain ⟨s', fits', left⟩ := run_invariant (m := m) (I := fun _ s => s.Fits m.program)
      (fun _ _ _ _ fits step => leads_fits rfl fits (leads_of_step step)) budget (w := w) fits
    exact fits'.standing left
  | .answer signal, .parked x => exact fits
  | .slice _, .parked _ | .slice _, .ended _ | .answer _, .running _ | .answer _, .ended _ => exact fits
  | .persist _, _ => exact absurd plays nofun

theorem Script.start_fits (s : Script) : s.start.Fits s.program := ⟨.root, fun _ member => nomatch member⟩

/-- A host cannot tell stages that are alike. -/
theorem Stage.Alike.history_eq {st st' : Stage σ} (standard : m.table = .standard)
    (fits : st.standing.Fits m.program) (alike : Stage.Alike R st st') {moves : List Move}
    (play : ∀ mv ∈ moves, mv.plays = true) : m.history st moves = m.history st' moves := by
  induction moves generalizing R st st' with
  | nil => rfl
  | cons mv moves ih =>
    obtain ⟨plays, others⟩ := List.forall_mem_cons.1 play
    obtain ⟨R', next, _⟩ := alike.move standard fits plays
    have rest := ih (Machine.move_plays_fits fits plays) next others
    simp only [Machine.history, plays, if_true, next.view_eq, rest]

end
end FlowScript
