import FlowScript.Proofs.Locality

/-! What a block or a frame leads to by itself, whatever state it holds and whatever is below it: at most one
frame, at most one new scope, and at most one binding that is written. -/
namespace FlowScript

/-- The scope from which the frame assigns when it is resumed with the signal, the name and its value. -/
def Frame.assignment? (f : Frame) (s : Signal) : Option (ScopeId × String × Value) :=
  match f.point, f.captured, s with
  | .assign, .assign name, .value v => some (f.scope, name, v)
  | .storeReceiver, .storeReceiver target _, .value v => some (f.scope, target, v)
  | _, _, _ => none

namespace Step

/-- The scope from which the step assigns, the name and its value. -/
def assignment? : Step → Option (ScopeId × String × Value)
  | .resume s (f :: _) => f.assignment? s
  | _ => none

/-- The scopes that the step and its frames hold. -/
def scopes : Step → List ScopeId
  | .eval _ e k => e :: k.map Frame.scope
  | .resume _ k | .invoke _ k | .yield _ k => k.map Frame.scope

/-- The step with no frame but the one that it resumes. -/
def own : Step → Step
  | .eval b e _ => .eval b e []
  | .resume signal k => .resume signal (k.take 1)
  | .invoke call _ => .invoke call []
  | .yield request _ => .yield request []

/-- The frames that the step has no part in. -/
def below : Step → Continuation
  | .resume _ k => k.drop 1
  | .eval _ _ k | .invoke _ k | .yield _ k => k

theorem own_onto_below (s : Step) : s.own.onto s.below = s := by
  cases s with
  | resume signal k => exact congrArg (Step.resume signal) (List.take_append_drop 1 k)
  | eval | invoke | yield => rfl

theorem length_rest_own (s : Step) : s.own.rest.length ≤ 1 := by
  cases s with
  | resume signal k => exact List.length_take_le 1 k
  | eval | invoke | yield => exact Nat.zero_le 1

@[simp] theorem scopes_onto (s : Step) (k : Continuation) :
    (s.onto k).scopes = s.scopes ++ k.map Frame.scope := by
  cases s <;> simp [onto, scopes]

theorem mem_scopes_of_below {s : Step} (member : f ∈ s.below) : f.scope ∈ s.scopes := by
  rw [← s.own_onto_below, scopes_onto]
  exact List.mem_append_right _ (List.mem_map_of_mem member)

end Step

/-- What comes at once of a block or a frame in a scope. -/
inductive Footprint (h : Heap) (e : ScopeId) (assigned : Option (ScopeId × String × Value)) :
    Heap × Step → Prop where
  | signals : Footprint h e assigned (h, .resume signal [])
  | calls : Footprint h e assigned (h, .invoke call [])
  | callsFor : Footprint h e assigned (h, .invoke call [⟨point, e, captured⟩])
  | asks : Footprint h e assigned (h, .yield request [])
  | evaluates : Footprint h e assigned (h, .eval b e [])
  | evaluatesFor : Footprint h e assigned (h, .evalFor b e point captured [])
  | declares : Footprint h e assigned (h.declare e name v, .resume signal [])
  | assigns : assigned = some (e, name, v) → Footprint h e assigned (h.assign e name v, .resume signal [])
  | opens : Footprint h e assigned (h.child e, .eval b h.next [])
  | catches : Footprint h e assigned
      ((h.child e).declare h.next name v, .eval b h.next [⟨point, e, captured⟩])

namespace Footprint
variable {h : Heap} {e : ScopeId} {assigned : Option (ScopeId × String × Value)} {v : Value}

theorem nextArgument :
    Footprint h e assigned (h, .nextArgument method args receiver evaluated e []) := by
  unfold Step.nextArgument
  split
  · exact .calls
  · exact .evaluatesFor

theorem ofSequence : Footprint h e assigned (h, .ofSequence body e []) := by
  unfold Step.ofSequence
  split
  · exact .signals
  · exact .evaluates
  · exact .evaluatesFor

theorem ofResult : Footprint h e assigned (h, Frame.ofResult r []) := by
  cases r <;> exact .signals

theorem leave : Footprint h e assigned (h, Frame.leave cleanup pending e []) := by
  cases cleanup with
  | some block => exact .evaluatesFor
  | none => exact .signals

theorem afterLhs : Footprint h e assigned (h, Frame.afterLhs op rhs v e []) := by
  unfold Frame.afterLhs
  split
  · exact .signals
  · exact .signals
  · exact .evaluates

theorem afterCondition :
    Footprint h e assigned (h, Frame.afterCondition thenBranch elseBranch v e []) := by
  unfold Frame.afterCondition
  split
  · exact .evaluates
  · exact .evaluates
  · exact .signals

theorem afterElement : Footprint h e assigned (h, Frame.afterElement body index v e []) := by
  unfold Frame.afterElement
  split
  · exact .signals
  · split
    · exact .evaluates
    · exact .evaluatesFor

theorem storeProperty :
    Footprint h e assigned (Frame.storeProperty target name isAttribute v e [] h) := by
  unfold Frame.storeProperty
  split
  · exact .signals
  · exact .callsFor

theorem catchFailure : Footprint h e assigned (Frame.catchFailure clauses cleanup f e [] h) := by
  unfold Frame.catchFailure
  split
  · exact .catches
  · exact .leave

theorem onValue {go : Value → Resumption} (goes : ∀ v, Footprint h e assigned (go v h)) :
    Footprint h e assigned (Frame.onValue s [] go h) := by
  cases s with
  | value v => exact goes v
  | thrown f => exact .signals

theorem length_rest {r : Heap × Step} (print : Footprint h e assigned r) : r.2.rest.length ≤ 1 := by
  cases print <;> exact Nat.le_of_ble_eq_true rfl

end Footprint

/-- A frame works in its scope. -/
theorem Frame.footprint_resume {f : Frame} (resumed : f.resume s [] = .ok go) (h : Heap) :
    Footprint h f.scope (f.assignment? s) (go h) := by
  have suits := suits_of_resume resumed
  obtain ⟨point, e, captured⟩ := f
  cases suits with
  | decide =>
    cases resumed
    exact .onValue fun _ => .afterLhs
  | not | throw | cleanup =>
    cases resumed
    exact .onValue fun _ => .signals
  | lhs | loopBody =>
    cases resumed
    exact .onValue fun _ => .evaluatesFor
  | rhs =>
    cases resumed
    exact .onValue fun _ => .ofResult
  | declare =>
    cases resumed
    exact .onValue fun _ => .declares
  | assign | storeReceiver =>
    cases resumed
    cases s with
    | value v => exact .assigns rfl
    | thrown failure => exact .signals
  | branch =>
    cases resumed
    exact .onValue fun _ => .afterCondition
  | loopTest =>
    cases resumed
    refine .onValue fun v => ?_
    cases v.truthy
    · exact .signals
    · exact .evaluatesFor
  | sequence =>
    cases resumed
    exact .onValue fun _ => .afterElement
  | property =>
    cases resumed
    exact .onValue fun _ => .calls
  | propertyStore =>
    cases resumed
    exact .onValue fun _ => .storeProperty
  | callReceiver | callArgument =>
    cases resumed
    exact .onValue fun _ => .nextArgument
  | guarded =>
    cases s <;> cases resumed
    · exact .leave
    · exact .catchFailure
  | handler =>
    cases resumed
    exact .leave
  | request =>
    cases resumed
    exact .onValue fun _ => .asks

/-- A block works in the scope that it is evaluated in, and assigns nothing by itself. -/
theorem Block.footprint_evaluate (block : Block) (h : Heap) (e : ScopeId) :
    Footprint h e none (block.evaluate h e []) := by
  cases block with
  | constant => exact .signals
  | readVariable name =>
    simp only [evaluate]
    split <;> exact .signals
  | declare name init =>
    cases init with
    | none => exact .declares
    | some b => exact .evaluatesFor
  | sequence body => exact .ofSequence
  | scope body => exact .opens
  | call receiver method args =>
    cases receiver with
    | none => exact .nextArgument
    | some b => exact .evaluatesFor
  | assign | logical | not | binary | ifElse | whileLoop | property | setProperty | throw | tryCatch
  | yield => exact .evaluatesFor

/-- A step does nothing to the heap and signals to the frames that it has no part in, or it does what its
block or its innermost frame does over them. -/
theorem Machine.Acts.footprint {m : Machine σ} {w w' : World σ} {s s' : Step} (acts : m.Acts w s w' s') :
    (w'.heap = w.heap ∧ ∃ signal, s' = .resume signal s.below) ∨
      ∃ e ∈ s.scopes, ∃ r, Footprint w.heap e s.assignment? r ∧ w'.heap = r.1 ∧
        s' = r.2.onto s.below := by
  cases acts with
  | missing => exact .inl ⟨rfl, _, rfl⟩
  | @block b block e k found =>
    exact .inr ⟨e, by simp [Step.scopes], _, block.footprint_evaluate w.heap e, rfl, rfl⟩
  | passed => exact .inl ⟨rfl, _, rfl⟩
  | @resumed signal f k go resumed =>
    exact .inr ⟨f.scope, by simp [Step.scopes], _, f.footprint_resume resumed w.heap, rfl, rfl⟩
  | @invoked call k =>
    cases (m.host call w.host).1 <;> exact .inl ⟨rfl, _, rfl⟩

end FlowScript
