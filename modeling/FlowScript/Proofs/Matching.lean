import FlowScript.Proofs.Locality
import Mathlib.Data.List.Forall2

/-! Runs that differ only in the numbers of their scopes. A relation pairs the scopes of one heap with
those of another; paired scopes hold the same bindings, and steps on them keep it so. -/
namespace FlowScript

namespace Heap
variable {h h' : Heap} {e x : ScopeId}

@[simp] theorem next_declare : (h.declare e name v).next = h.next := by simp [next, declare]

@[simp] theorem parent?_declare : (h.declare e name v).parent? x = h.parent? x := by
  simp only [parent?, declare, Array.getElem?_modify]
  split
  · next same =>
    subst same
    cases h.scopes[e]? <;> rfl
  · rfl

theorem locals_declare (inside : e < h.next) :
    (h.declare e name v).locals x = if e = x then (h.locals e).insert name v else h.locals x := by
  simp only [locals, declare, Array.getElem?_modify]
  split
  · next same =>
    subst same
    simp [Array.getElem?_eq_getElem inside]
  · rfl

@[simp] theorem next_addScope : (h.addScope parent bindings).next = h.next + 1 := by
  simp [next, addScope]

theorem parent?_addScope :
    (h.addScope parent bindings).parent? x =
      if x = h.next then parent.filter (· < h.next) else h.parent? x := by
  simp only [parent?, addScope, Array.getElem?_push, next]
  split <;> simp_all

theorem locals_addScope :
    (h.addScope parent bindings).locals x = if x = h.next then bindings else h.locals x := by
  simp only [locals, addScope, Array.getElem?_push, next]
  split <;> simp_all

end Heap

/-- The paired scopes are there, one to one, with the same bindings and with paired parents. -/
structure Matched (R : ScopeId → ScopeId → Prop) (h h' : Heap) : Prop where
  inside : ∀ e e', R e e' → e < h.next ∧ e' < h'.next
  locals : ∀ e e', R e e' → h.locals e = h'.locals e'
  parents : ∀ e e', R e e' → Option.Rel R (h.parent? e) (h'.parent? e')
  one_to_one : ∀ a a' b b', R a a' → R b b' → (a = b ↔ a' = b')

namespace Matched
variable {R : ScopeId → ScopeId → Prop} {h h' : Heap} {e e' : ScopeId}

theorem chain (matched : Matched R h h') (related : R e e') :
    List.Forall₂ R (h.chain e) (h'.chain e') := by
  induction e using Nat.strongRecOn generalizing e' with
  | _ e ih =>
    rw [h.chain_eq, h'.chain_eq]
    have parents := matched.parents e e' related
    cases up : h.parent? e with
    | none =>
      rw [up] at parents
      cases up' : h'.parent? e' with
      | none => simp [related]
      | some _ =>
        rw [up'] at parents
        cases parents
    | some p =>
      rw [up] at parents
      cases up' : h'.parent? e' with
      | none =>
        rw [up'] at parents
        cases parents
      | some p' =>
        rw [up'] at parents
        obtain ⟨above⟩ := parents
        exact .cons related (ih p (Heap.parent?_lt up) above)

theorem lookup (matched : Matched R h h') (related : R e e') (name : String) :
    h.lookup e name = h'.lookup e' name := by
  unfold Heap.lookup
  generalize h.chain e = c, h'.chain e' = c', matched.chain related = chains
  induction chains with
  | nil => rfl
  | cons above _ ih => simp [List.findSome?_cons, matched.locals _ _ above, ih]

theorem target (matched : Matched R h h') (related : R e e') (name : String) :
    R (h.target e name) (h'.target e' name) := by
  have lasts : ∀ c c' a a', R a a' → List.Forall₂ R c c' → R (c.getLastD a) (c'.getLastD a') := by
    intro c c' a a' first chains
    induction chains generalizing a a' with
    | nil => exact first
    | cons above _ ih =>
      simp only [List.getLastD_cons]
      exact ih _ _ above
  have last := lasts _ _ e e' related (matched.chain related)
  unfold Heap.target
  generalize (h.chain e).getLastD e = l, (h'.chain e').getLastD e' = l' at last
  generalize h.chain e = c, h'.chain e' = c', matched.chain related = chains
  induction chains with
  | nil => exact last
  | @cons a a' _ _ above _ ih =>
    simp only [List.find?_cons, matched.locals a a' above]
    split
    · exact above
    · exact ih

end Matched

/-- How a step of the one run may change the heap of the other: pairs stay paired, further pairs are
with new scopes, and scopes outside of the pairs stay as they are. -/
structure Grows (R R' : ScopeId → ScopeId → Prop) (h h' : Heap) : Prop where
  keeps : ∀ e e', R e e' → R' e e'
  fresh : ∀ e e', R' e e' → R e e' ∨ h.next ≤ e'
  next_le : h.next ≤ h'.next
  parents : ∀ x < h.next, h'.parent? x = h.parent? x
  locals : ∀ x < h.next, (∀ e, ¬R e x) → h'.locals x = h.locals x

namespace Grows
variable {R R' S : ScopeId → ScopeId → Prop} {g h h' h'' : Heap} {e e' : ScopeId}

theorem refl : Grows R R h h :=
  ⟨fun _ _ => id, fun _ _ => .inl, Nat.le_refl _, fun _ _ => rfl, fun _ _ _ => rfl⟩

theorem trans (first : Grows R R' h h') (second : Grows R' R'' h' h'') : Grows R R'' h h'' where
  keeps e e' related := second.keeps e e' (first.keeps e e' related)
  fresh e e' related := by
    rcases second.fresh e e' related with before | new
    · exact first.fresh e e' before
    · exact .inr (Nat.le_trans first.next_le new)
  next_le := Nat.le_trans first.next_le second.next_le
  parents x lt := (second.parents x (Nat.lt_of_lt_of_le lt first.next_le)).trans (first.parents x lt)
  locals x lt outside := by
    have outside' : ∀ e, ¬R' e x := by
      intro e related
      rcases first.fresh e x related with before | new
      · exact outside e before
      · exact Nat.not_le.2 lt new
    rw [second.locals x (Nat.lt_of_lt_of_le lt first.next_le) outside', first.locals x lt outside]

/-- What is paired elsewhere stays so. -/
theorem matched (grows : Grows R R' h h') (elsewhere : Matched S g h)
    (apart : ∀ a b x, S a x → R b x → False) : Matched S g h' where
  inside e e' related :=
    (elsewhere.inside e e' related).imp_right (Nat.lt_of_lt_of_le · grows.next_le)
  locals e e' related := by
    rw [elsewhere.locals e e' related]
    exact (grows.locals e' (elsewhere.inside e e' related).2 fun b => apart e b e' related).symm
  parents e e' related := by
    rw [grows.parents e' (elsewhere.inside e e' related).2]
    exact elsewhere.parents e e' related
  one_to_one := elsewhere.one_to_one

/-- What is paired elsewhere has none of the new scopes. -/
theorem apart (grows : Grows R R' h h') (elsewhere : Matched S g h)
    (apart : ∀ a b x, R a x → S b x → False) : ∀ a b x, R' a x → S b x → False := by
  intro a b x pair other
  rcases grows.fresh a x pair with before | new
  · exact apart a b x before other
  · exact Nat.not_le.2 (elsewhere.inside b x other).2 new

theorem declare (related : R e e') (inside : e' < h.next) : Grows R R h (h.declare e' name v) where
  keeps _ _ := id
  fresh _ _ := .inl
  next_le := by simp
  parents _ _ := by simp
  locals x lt outside := by
    have ne : e' ≠ x := fun same => outside e (same ▸ related)
    rw [Heap.locals_declare inside, if_neg ne]

end Grows

namespace Matched
variable {R : ScopeId → ScopeId → Prop} {h h' : Heap} {e e' : ScopeId}

theorem declare (matched : Matched R h h') (related : R e e') :
    Matched R (h.declare e name v) (h'.declare e' name v) where
  inside a a' pair := by simpa using matched.inside a a' pair
  locals a a' pair := by
    obtain ⟨lt, lt'⟩ := matched.inside e e' related
    rw [Heap.locals_declare lt, Heap.locals_declare lt', matched.locals e e' related,
      matched.locals a a' pair]
    simp only [matched.one_to_one e e' a a' related pair]
  parents a a' pair := by simpa using matched.parents a a' pair
  one_to_one := matched.one_to_one

/-- The pairs and the next scopes of both heaps. -/
def withNext (R : ScopeId → ScopeId → Prop) (h h' : Heap) (a a' : ScopeId) : Prop :=
  R a a' ∨ a = h.next ∧ a' = h'.next

theorem optionRel_imp {R' : ScopeId → ScopeId → Prop} (weaker : ∀ a a', R a a' → R' a a')
    {o o' : Option ScopeId} (related : Option.Rel R o o') : Option.Rel R' o o' := by
  cases related with
  | some pair => exact .some (weaker _ _ pair)
  | none => exact .none

theorem child (matched : Matched R h h') (related : R e e') :
    Matched (withNext R h h') (h.child e) (h'.child e') where
  inside := by
    rintro a a' (pair | ⟨rfl, rfl⟩)
    · obtain ⟨lt, lt'⟩ := matched.inside a a' pair
      simp only [Heap.child, Heap.next_addScope]
      exact ⟨Nat.lt_succ_of_lt lt, Nat.lt_succ_of_lt lt'⟩
    · simp [Heap.child]
  locals := by
    rintro a a' (pair | ⟨rfl, rfl⟩)
    · obtain ⟨lt, lt'⟩ := matched.inside a a' pair
      simp [Heap.child, Heap.locals_addScope, Nat.ne_of_lt lt, Nat.ne_of_lt lt', matched.locals a a' pair]
    · simp [Heap.child, Heap.locals_addScope]
  parents := by
    rintro a a' (pair | ⟨rfl, rfl⟩)
    · obtain ⟨lt, lt'⟩ := matched.inside a a' pair
      simp only [Heap.child, Heap.parent?_addScope, Nat.ne_of_lt lt, Nat.ne_of_lt lt', if_false]
      exact optionRel_imp (fun _ _ => .inl) (matched.parents a a' pair)
    · obtain ⟨lt, lt'⟩ := matched.inside e e' related
      simp only [Heap.child, Heap.parent?_addScope, if_true, Option.filter_some, lt, lt', decide_true]
      exact .some (.inl related)
  one_to_one := by
    rintro a a' b b' (left | ⟨rfl, rfl⟩) (right | ⟨rfl, rfl⟩)
    · exact matched.one_to_one a a' b b' left right
    · obtain ⟨lt, lt'⟩ := matched.inside a a' left
      simp [Nat.ne_of_lt lt, Nat.ne_of_lt lt']
    · obtain ⟨lt, lt'⟩ := matched.inside b b' right
      simp [Nat.ne_of_gt lt, Nat.ne_of_gt lt']
    · simp

theorem grows_child : Grows R (withNext R h h') h' (h'.child e') where
  keeps _ _ := .inl
  fresh := by
    rintro a a' (pair | ⟨_, rfl⟩)
    · exact .inl pair
    · exact .inr (Nat.le_refl _)
  next_le := by simp [Heap.child]
  parents x lt := by simp [Heap.child, Heap.parent?_addScope, Nat.ne_of_lt lt]
  locals x lt _ := by simp [Heap.child, Heap.locals_addScope, Nat.ne_of_lt lt]

end Matched

/-- No two of the first relations share a scope of the second heap. -/
def Apart (n : Nat) (R : Nat → ScopeId → ScopeId → Prop) : Prop :=
  ∀ i j a b x, i < n → j < n → i ≠ j → R i a x → R j b x → False

/-- A relation that shares no scope with the others may come in at any place. -/
theorem Apart.update {R : Nat → ScopeId → ScopeId → Prop} {S : ScopeId → ScopeId → Prop} {i n n' : Nat}
    (apart : Apart n R) (others : ∀ j < n', j ≠ i → j < n)
    (new : ∀ j < n, j ≠ i → ∀ a b x, S a x → R j b x → False) :
    Apart n' fun j => if j = i then S else R j := by
  intro j j' a b x lt lt' ne
  by_cases here : j = i <;> by_cases here' : j' = i
  · exact absurd (here.trans here'.symm) ne
  · simp only [if_pos here, if_neg here']
    exact new j' (others j' lt' here') here' a b x
  · simp only [if_neg here, if_pos here']
    exact fun other pair => new j (others j lt here) here b a x pair other
  · simp only [if_neg here, if_neg here']
    exact apart j j' a b x (others j lt here) (others j' lt' here') ne

/-- Frames that differ only in the numbers of their scopes. -/
structure Frame.Alike (R : ScopeId → ScopeId → Prop) (f f' : Frame) : Prop where
  point : f.point = f'.point
  captured : f.captured = f'.captured
  scope : R f.scope f'.scope

abbrev Continuation.Alike (R : ScopeId → ScopeId → Prop) : Continuation → Continuation → Prop :=
  List.Forall₂ (Frame.Alike R)

inductive Step.Alike (R : ScopeId → ScopeId → Prop) : Step → Step → Prop where
  | eval : R e e' → Continuation.Alike R k k' → Alike R (.eval b e k) (.eval b e' k')
  | resume : Continuation.Alike R k k' → Alike R (.resume signal k) (.resume signal k')
  | invoke : Continuation.Alike R k k' → Alike R (.invoke call k) (.invoke call k')
  | yield : Continuation.Alike R k k' → Alike R (.yield request k) (.yield request k')

/-- Standings that differ only in the numbers of scopes. -/
inductive Standing.Alike (R : ScopeId → ScopeId → Prop) : Standing → Standing → Prop where
  | running : Step.Alike R s s' → Alike R (.running s) (.running s')
  | parked : Continuation.Alike R k k' → Alike R (.parked ⟨request, k⟩) (.parked ⟨request, k'⟩)
  | ended : Alike R (.ended outcome) (.ended outcome)

/-- Two heaps with steps, after a pair of heaps of which the second is given: the heaps match, and the
steps are alike. -/
def InStep (R : ScopeId → ScopeId → Prop) (h' : Heap) (a a' : Heap × Step) : Prop :=
  ∃ R', Matched R' a.1 a'.1 ∧ Grows R R' h' a'.1 ∧ Step.Alike R' a.2 a'.2

section
variable {R R' : ScopeId → ScopeId → Prop} {h h' : Heap} {e e' : ScopeId} {k k' : Continuation}

theorem Frame.Alike.imp (weaker : ∀ a a', R a a' → R' a a') (alike : Frame.Alike R f f') :
    Frame.Alike R' f f' :=
  ⟨alike.point, alike.captured, weaker _ _ alike.scope⟩

theorem Continuation.Alike.imp (weaker : ∀ a a', R a a' → R' a a') (alike : Alike R k k') :
    Alike R' k k' :=
  List.Forall₂.imp (fun _ _ => Frame.Alike.imp weaker) alike

theorem Step.alike_evalFor (related : R e e') (rest : k.Alike R k') :
    Step.Alike R (.evalFor b e point captured k) (.evalFor b e' point captured k') :=
  .eval related (.cons ⟨rfl, rfl, related⟩ rest)

namespace InStep

theorem same (matched : Matched R h h') (alike : Step.Alike R s s') : InStep R h' (h, s) (h', s') :=
  ⟨R, matched, .refl, alike⟩

theorem declare (matched : Matched R h h') (related : R e e') (alike : Step.Alike R s s') :
    InStep R h' (h.declare e name v, s) (h'.declare e' name v, s') :=
  ⟨R, matched.declare related, .declare related (matched.inside e e' related).2, alike⟩

theorem assign (matched : Matched R h h') (related : R e e') (alike : Step.Alike R s s') :
    InStep R h' (h.assign e name v, s) (h'.assign e' name v, s') :=
  declare matched (matched.target related name) alike

theorem child (matched : Matched R h h') (related : R e e')
    (alike : Step.Alike (Matched.withNext R h h') s s') : InStep R h' (h.child e, s) (h'.child e', s') :=
  ⟨_, matched.child related, Matched.grows_child, alike⟩

end InStep

theorem Step.alike_nextArgument (related : R e e') (rest : k.Alike R k') :
    Step.Alike R (nextArgument method args receiver evaluated e k)
      (nextArgument method args receiver evaluated e' k') := by
  unfold nextArgument
  cases args[evaluated.length]? with
  | none => exact .invoke rest
  | some arg => exact alike_evalFor related rest

theorem Step.alike_ofSequence (related : R e e') (rest : k.Alike R k') :
    Step.Alike R (ofSequence body e k) (ofSequence body e' k') := by
  match body with
  | [] => exact .resume rest
  | [_] => exact .eval related rest
  | _ :: _ :: _ => exact alike_evalFor related rest

namespace Frame

theorem alike_ofResult (rest : k.Alike R k') : Step.Alike R (ofResult r k) (ofResult r k') := by
  cases r <;> exact .resume rest

theorem alike_leave (related : R e e') (rest : k.Alike R k') :
    Step.Alike R (leave cleanup pending e k) (leave cleanup pending e' k') := by
  cases cleanup with
  | none => exact .resume rest
  | some b => exact Step.alike_evalFor related rest

theorem alike_afterLhs (related : R e e') (rest : k.Alike R k') :
    Step.Alike R (afterLhs op rhs v e k) (afterLhs op rhs v e' k') := by
  unfold afterLhs
  cases op <;> cases v.truthy <;> first | exact .resume rest | exact .eval related rest

theorem alike_afterCondition (related : R e e') (rest : k.Alike R k') :
    Step.Alike R (afterCondition thenBranch elseBranch v e k)
      (afterCondition thenBranch elseBranch v e' k') := by
  unfold afterCondition
  cases v.truthy <;> cases elseBranch <;> first | exact .resume rest | exact .eval related rest

theorem alike_afterElement (related : R e e') (rest : k.Alike R k') :
    Step.Alike R (afterElement body index v e k) (afterElement body index v e' k') := by
  unfold afterElement
  cases body[index]? with
  | none => exact .resume rest
  | some b =>
    simp only
    split
    · exact .eval related rest
    · exact Step.alike_evalFor related rest

theorem inStep_onValue {go go' : Value → Resumption} (matched : Matched R h h')
    (rest : k.Alike R k') (goes : ∀ v, InStep R h' (go v h) (go' v h')) :
    InStep R h' (onValue s k go h) (onValue s k' go' h') := by
  cases s with
  | value v => exact goes v
  | thrown f => exact .same matched (.resume rest)

theorem inStep_storeProperty (matched : Matched R h h') (related : R e e') (rest : k.Alike R k') :
    InStep R h' (storeProperty target name isAttribute v e k h)
      (storeProperty target name isAttribute v e' k' h') := by
  unfold storeProperty
  rw [matched.lookup related]
  cases h'.lookup e' target with
  | none => exact .same matched (.resume rest)
  | some receiver => exact .same matched (.invoke (.cons ⟨rfl, rfl, related⟩ rest))

theorem inStep_catchFailure (matched : Matched R h h') (related : R e e') (rest : k.Alike R k') :
    InStep R h' (catchFailure clauses cleanup thrown e k h)
      (catchFailure clauses cleanup thrown e' k' h') := by
  unfold catchFailure
  cases clauses.find? (·.catches thrown) with
  | none => exact .same matched (alike_leave related rest)
  | some clause =>
    have nexts : Matched.withNext R h h' h.next h'.next := .inr ⟨rfl, rfl⟩
    have inner := matched.child related
    refine ⟨_, inner.declare nexts, Matched.grows_child.trans (.declare nexts (inner.inside _ _ nexts).2), ?_⟩
    exact .eval nexts (.cons ⟨rfl, rfl, .inl related⟩ (rest.imp fun _ _ => .inl))

/-- Frames that are alike, and of which one fits, do alike. -/
theorem inStep_resume {f f' : Frame} (fits : f.captured.Fits p f.point) (alike : Frame.Alike R f f')
    (matched : Matched R h h') (rest : k.Alike R k') (s : Signal) :
    ∃ go go', f.resume s k = .ok go ∧ f'.resume s k' = .ok go' ∧ InStep R h' (go h) (go' h') := by
  obtain ⟨point, e, captured⟩ := f
  obtain ⟨_, e', _⟩ := f'
  obtain ⟨rfl, rfl, related⟩ := alike
  cases fits with
  | decide =>
    exact ⟨_, _, rfl, rfl, inStep_onValue matched rest fun v =>
      .same matched (alike_afterLhs related rest)⟩
  | not => exact ⟨_, _, rfl, rfl, inStep_onValue matched rest fun v => .same matched (.resume rest)⟩
  | lhs =>
    exact ⟨_, _, rfl, rfl, inStep_onValue matched rest fun v =>
      .same matched (Step.alike_evalFor related rest)⟩
  | rhs =>
    exact ⟨_, _, rfl, rfl, inStep_onValue matched rest fun v => .same matched (alike_ofResult rest)⟩
  | declare =>
    exact ⟨_, _, rfl, rfl, inStep_onValue matched rest fun v => .declare matched related (.resume rest)⟩
  | assign =>
    exact ⟨_, _, rfl, rfl, inStep_onValue matched rest fun v => .assign matched related (.resume rest)⟩
  | branch =>
    exact ⟨_, _, rfl, rfl, inStep_onValue matched rest fun v =>
      .same matched (alike_afterCondition related rest)⟩
  | loopTest =>
    refine ⟨_, _, rfl, rfl, inStep_onValue matched rest fun v => .same matched ?_⟩
    split
    · exact Step.alike_evalFor related rest
    · exact .resume rest
  | loopBody =>
    exact ⟨_, _, rfl, rfl, inStep_onValue matched rest fun v =>
      .same matched (Step.alike_evalFor related rest)⟩
  | sequence =>
    exact ⟨_, _, rfl, rfl, inStep_onValue matched rest fun v =>
      .same matched (alike_afterElement related rest)⟩
  | property =>
    exact ⟨_, _, rfl, rfl, inStep_onValue matched rest fun v => .same matched (.invoke rest)⟩
  | propertyStore =>
    exact ⟨_, _, rfl, rfl, inStep_onValue matched rest fun v => inStep_storeProperty matched related rest⟩
  | storeReceiver =>
    exact ⟨_, _, rfl, rfl, inStep_onValue matched rest fun v => .assign matched related (.resume rest)⟩
  | callReceiver =>
    exact ⟨_, _, rfl, rfl, inStep_onValue matched rest fun v =>
      .same matched (Step.alike_nextArgument related rest)⟩
  | callArgument =>
    exact ⟨_, _, rfl, rfl, inStep_onValue matched rest fun v =>
      .same matched (Step.alike_nextArgument related rest)⟩
  | throw => exact ⟨_, _, rfl, rfl, inStep_onValue matched rest fun v => .same matched (.resume rest)⟩
  | guarded =>
    cases s with
    | value v => exact ⟨_, _, rfl, rfl, .same matched (alike_leave related rest)⟩
    | thrown f => exact ⟨_, _, rfl, rfl, inStep_catchFailure matched related rest⟩
  | handler => exact ⟨_, _, rfl, rfl, .same matched (alike_leave related rest)⟩
  | cleanup => exact ⟨_, _, rfl, rfl, inStep_onValue matched rest fun v => .same matched (.resume rest)⟩
  | request => exact ⟨_, _, rfl, rfl, inStep_onValue matched rest fun v => .same matched (.yield rest)⟩

end Frame

theorem Block.inStep_evaluate (block : Block) (matched : Matched R h h') (related : R e e')
    (rest : k.Alike R k') : InStep R h' (block.evaluate h e k) (block.evaluate h' e' k') := by
  cases block with
  | constant => exact .same matched (.resume rest)
  | readVariable name =>
    simp only [evaluate, matched.lookup related]
    cases h'.lookup e' name <;> exact .same matched (.resume rest)
  | declare name init =>
    cases init with
    | none => exact .declare matched related (.resume rest)
    | some b => exact .same matched (Step.alike_evalFor related rest)
  | assign | logical | not | binary | ifElse | whileLoop | property | setProperty | throw | tryCatch
  | yield => exact .same matched (Step.alike_evalFor related rest)
  | sequence => exact .same matched (Step.alike_ofSequence related rest)
  | scope => exact .child matched related (.eval (.inr ⟨rfl, rfl⟩) (rest.imp fun _ _ => .inl))
  | call receiver =>
    cases receiver with
    | none => exact .same matched (Step.alike_nextArgument related rest)
    | some b => exact .same matched (Step.alike_evalFor related rest)

theorem Program.inStep_evaluate (p : Program) (b : BlockId) (matched : Matched R h h')
    (related : R e e') (rest : k.Alike R k') :
    InStep R h' (p.evaluate h b e k) (p.evaluate h' b e' k') := by
  unfold evaluate
  cases p.block? b with
  | none => exact .same matched (.resume rest)
  | some block => exact block.inStep_evaluate matched related rest

namespace Machine
variable {σ : Type} {m : Machine σ}

/-- From steps that are alike over matched heaps, the machine goes on or ends alike. -/
theorem inStep_step (standard : m.table = .standard)
    (fits : s.Fits m.program) (alike : Step.Alike R s s') (matched : Matched R h h') (u : σ) :
    (∃ host a a', m.step ⟨h, u⟩ s = (⟨a.1, host⟩, .next a.2) ∧
      m.step ⟨h', u⟩ s' = (⟨a'.1, host⟩, .next a'.2) ∧ InStep R h' a a') ∨
    ∃ outcome outcome', m.step ⟨h, u⟩ s = (⟨h, u⟩, .ended outcome) ∧
      m.step ⟨h', u⟩ s' = (⟨h', u⟩, .ended outcome') ∧
      Standing.Alike R (.ofOutcome outcome) (.ofOutcome outcome') := by
  cases alike with
  | eval related rest => exact .inl ⟨u, _, _, rfl, rfl, m.program.inStep_evaluate _ matched related rest⟩
  | invoke rest => exact .inl ⟨_, (h, _), (h', _), rfl, rfl, .same matched (Frame.alike_ofResult rest)⟩
  | yield rest => exact .inr ⟨_, _, rfl, rfl, .parked rest⟩
  | @resume _ _ signal rest =>
    cases rest with
    | nil => cases signal <;> exact .inr ⟨_, _, rfl, rfl, .ended⟩
    | @cons f f' k k' top below =>
      by_cases passed : signal.isThrown && !f.point.intercepts
      · refine .inl ⟨u, (h, .resume signal k), (h', .resume signal k'), ?_, ?_, .same matched (.resume below)⟩ <;>
          simp [Machine.step, standard, Table.deliver, Table.standard_contains, turn, ← top.point, passed]
      · have fit := (Continuation.fits_cons.1 fits).1
        obtain ⟨go, go', resumed, resumed', inStep⟩ :=
          Frame.inStep_resume fit top matched below signal
        refine .inl ⟨u, go h, go' h', ?_, ?_, inStep⟩ <;>
          simp [Machine.step, standard, Table.deliver, Table.standard_contains, turn, ← top.point, passed,
            Table.resumeInnermost, resumed, resumed']

theorem inStep_run (standard : m.table = .standard) (n : Nat) (fits : s.Fits m.program)
    (alike : Step.Alike R s s') (matched : Matched R h h') (u : σ) :
    ∃ R', Matched R' (m.run n ⟨h, u⟩ s).1.heap (m.run n ⟨h', u⟩ s').1.heap ∧
      Grows R R' h' (m.run n ⟨h', u⟩ s').1.heap ∧
      (m.run n ⟨h, u⟩ s).1.host = (m.run n ⟨h', u⟩ s').1.host ∧
      Standing.Alike R' (.ofOutcome (m.run n ⟨h, u⟩ s).2) (.ofOutcome (m.run n ⟨h', u⟩ s').2) := by
  induction n generalizing R h h' u s s' with
  | zero =>
    simp only [Machine.run]
    split
    · exact ⟨R, matched, .refl, rfl, .ended⟩
    · exact ⟨R, matched, .refl, rfl, .running alike⟩
  | succ n ih =>
    simp only [Machine.run]
    split
    · exact ⟨R, matched, .refl, rfl, .ended⟩
    · rcases inStep_step standard fits alike matched u with
        ⟨host, a, a', step, step', R₁, matched₁, grows₁, alike₁⟩ |
        ⟨outcome, outcome', step, step', alike₁⟩
      · simp only [step, step']
        obtain ⟨R', matched', grows', hosts, alike'⟩ :=
          ih (leads_fits rfl fits (leads_of_step step)) alike₁ matched₁ host
        exact ⟨R', matched', grows₁.trans grows', hosts, alike'⟩
      · simp only [step, step']
        exact ⟨R, matched, .refl, trivial, alike₁⟩

end Machine
end
end FlowScript
