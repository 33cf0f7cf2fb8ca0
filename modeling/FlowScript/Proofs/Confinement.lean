import FlowScript.Proofs.Locality

/-! What a step can bring up. Calls of a method come only from the blocks and frames of such calls, and
requests only from those of requests. -/
namespace FlowScript

variable (methods : String → Prop) (requests : Prop)

/-- The state of a call is one of the methods, and that of a request is there only if requests are. -/
def Captured.Confined : Captured → Prop
  | .call method _ _ _ => methods method
  | .yield => requests
  | _ => True

def Continuation.Confined (k : Continuation) : Prop := ∀ f ∈ k, f.captured.Confined methods requests

def Invocation.Confined : Invocation → Prop
  | .methodCall _ method _ => methods method
  | _ => True

/-- The step and its frames call the methods only, and request only if requests are allowed. -/
inductive Step.Confined : Step → Prop where
  | eval : k.Confined methods requests → Confined (.eval b e k)
  | resume : k.Confined methods requests → Confined (.resume signal k)
  | invoke : call.Confined methods → k.Confined methods requests → Confined (.invoke call k)
  | yield : requests → k.Confined methods requests → Confined (.yield request k)

def Block.Confined : Block → Prop
  | .call _ method _ => methods method
  | .yield _ => requests
  | _ => True

variable {methods : String → Prop} {requests : Prop}

theorem Continuation.confined_nil : Confined methods requests [] := nofun

theorem Continuation.confined_one {f : Frame} (frame : f.captured.Confined methods requests) :
    Confined methods requests [f] :=
  fun _ member => List.mem_singleton.1 member ▸ frame

namespace Step
variable {e : ScopeId} {b : BlockId} {v : Value}

theorem confined_value : (value v []).Confined methods requests := .resume Continuation.confined_nil

theorem confined_thrown : (thrown f []).Confined methods requests := .resume Continuation.confined_nil

theorem confined_evalFor (state : captured.Confined methods requests) :
    (evalFor b e point captured []).Confined methods requests :=
  .eval (Continuation.confined_one state)

theorem confined_nextArgument (named : methods method) :
    (nextArgument method args receiver evaluated e []).Confined methods requests := by
  unfold nextArgument
  split
  · exact .invoke named Continuation.confined_nil
  · exact confined_evalFor named

theorem confined_ofSequence : (ofSequence body e []).Confined methods requests := by
  unfold ofSequence
  split
  · exact confined_value
  · exact .eval Continuation.confined_nil
  · exact confined_evalFor trivial

end Step

namespace Frame
variable {e : ScopeId} {v : Value} {h : Heap}

theorem confined_leave : (leave cleanup pending e []).Confined methods requests := by
  cases cleanup with
  | some block => exact Step.confined_evalFor trivial
  | none => exact .resume Continuation.confined_nil

theorem confined_afterLhs : (afterLhs op rhs v e []).Confined methods requests := by
  unfold afterLhs
  split
  · exact Step.confined_value
  · exact Step.confined_value
  · exact .eval Continuation.confined_nil

theorem confined_afterCondition :
    (afterCondition thenBranch elseBranch v e []).Confined methods requests := by
  unfold afterCondition
  split
  · exact .eval Continuation.confined_nil
  · exact .eval Continuation.confined_nil
  · exact Step.confined_value

theorem confined_afterElement : (afterElement body index v e []).Confined methods requests := by
  unfold afterElement
  split
  · exact Step.confined_value
  · split
    · exact .eval Continuation.confined_nil
    · exact Step.confined_evalFor trivial

theorem confined_ofResult : (ofResult r []).Confined methods requests := by
  cases r <;> exact .resume Continuation.confined_nil

theorem confined_storeProperty :
    (storeProperty target name isAttribute v e [] h).2.Confined methods requests := by
  unfold storeProperty
  split
  · exact Step.confined_thrown
  · refine .invoke ?_ (Continuation.confined_one trivial)
    split <;> trivial

theorem confined_catchFailure :
    (catchFailure clauses cleanup f e [] h).2.Confined methods requests := by
  unfold catchFailure
  split
  · exact .eval (Continuation.confined_one trivial)
  · exact confined_leave

theorem confined_onValue {go : Value → Resumption}
    (goes : ∀ v h, (go v h).2.Confined methods requests) (h : Heap) :
    (onValue s [] go h).2.Confined methods requests := by
  cases s with
  | value v => exact goes v h
  | thrown f => exact Step.confined_thrown

/-- What a frame leads to by itself is confined as the frame is. -/
theorem confined_resume {f : Frame} (confined : f.captured.Confined methods requests)
    (resumed : f.resume s [] = .ok go) (h : Heap) : (go h).2.Confined methods requests := by
  have suits := suits_of_resume resumed
  obtain ⟨point, e, captured⟩ := f
  cases suits with
  | request =>
    cases resumed
    exact confined_onValue (fun _ _ => .yield confined Continuation.confined_nil) h
  | decide =>
    cases resumed
    exact confined_onValue (fun _ _ => confined_afterLhs) h
  | not | declare | assign | throw | storeReceiver | cleanup =>
    cases resumed
    exact confined_onValue (fun _ _ => .resume Continuation.confined_nil) h
  | lhs | loopBody =>
    cases resumed
    refine confined_onValue (fun v h => ?_) h
    exact Step.confined_evalFor trivial
  | rhs =>
    cases resumed
    exact confined_onValue (fun _ _ => confined_ofResult) h
  | branch =>
    cases resumed
    exact confined_onValue (fun _ _ => confined_afterCondition) h
  | loopTest =>
    cases resumed
    refine confined_onValue (fun v h => ?_) h
    split
    · exact Step.confined_evalFor trivial
    · exact Step.confined_value
  | sequence =>
    cases resumed
    exact confined_onValue (fun _ _ => confined_afterElement) h
  | property =>
    cases resumed
    refine confined_onValue (fun v h => .invoke ?_ Continuation.confined_nil) h
    split <;> trivial
  | propertyStore =>
    cases resumed
    exact confined_onValue (fun _ _ => confined_storeProperty) h
  | callReceiver | callArgument =>
    cases resumed
    exact confined_onValue (fun _ _ => Step.confined_nextArgument confined) h
  | guarded =>
    cases s <;> cases resumed
    · exact confined_leave
    · exact confined_catchFailure
  | handler =>
    cases resumed
    exact confined_leave

end Frame

/-- What a block does first by itself is confined as the block is. -/
theorem Block.confined_evaluate {block : Block} (confined : block.Confined methods requests) (h : Heap)
    (e : ScopeId) : (block.evaluate h e []).2.Confined methods requests := by
  cases block with
  | constant => exact Step.confined_value
  | readVariable name =>
    simp only [evaluate]
    split
    · exact Step.confined_value
    · exact Step.confined_thrown
  | declare name init =>
    cases init with
    | none => exact Step.confined_value
    | some b => exact Step.confined_evalFor trivial
  | scope => exact .eval Continuation.confined_nil
  | sequence => exact Step.confined_ofSequence
  | call receiver method args =>
    cases receiver with
    | none => exact Step.confined_nextArgument confined
    | some b => exact Step.confined_evalFor confined
  | yield => exact Step.confined_evalFor confined
  | _ => exact Step.confined_evalFor trivial

end FlowScript
