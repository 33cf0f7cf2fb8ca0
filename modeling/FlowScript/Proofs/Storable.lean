import FlowScript.Proofs.Copies
import FlowScript.Proofs.SnapshotText

/-! What runs keep in order: the maps among their values have sorted entries, and the numbers in their
frames are words of the machine. So every snapshot of a run can be stored. -/
namespace FlowScript

/-! ### Values -/

/-- The value is in order, or the payload of the failure is. -/
def OrderedResult : Except Failure Value → Prop
  | .ok v => v.Ordered
  | .error f => f.Ordered

theorem Entries.mem_of_find? {entries : Entries α} (found : entries.find? name = some a) :
    (name, a) ∈ entries := by
  induction entries with
  | nil => simp at found
  | cons entry rest ih =>
    obtain ⟨key, b⟩ := entry
    simp only [find?] at found
    split at found
    · simp_all
    · exact .tail _ (ih found)

theorem Bindings.Ordered.find? {b : Bindings} (ordered : b.Ordered) (found : b.find? name = some v) :
    v.Ordered := ordered.2 _ (Entries.mem_of_find? found)

theorem Bindings.Ordered.insert {b : Bindings} (ordered : b.Ordered) (value : v.Ordered) (name : String) :
    Bindings.Ordered (Entries.insert b name v) := by
  refine ⟨Entries.sorted_insert ordered.1 name v, fun e member => ?_⟩
  rcases Entries.mem_of_mem_insert member with rfl | before
  · exact value
  · exact ordered.2 e before

theorem Bindings.ordered_nil : Bindings.Ordered [] := ⟨Entries.sorted_nil, by simp⟩

namespace Failure

theorem plain_ordered : (plain k m).Ordered := by simp [Ordered, plain]

theorem ofThrown_ordered (ordered : v.Ordered) : (ofThrown v).Ordered := by
  cases v with
  | str message => exact plain_ordered
  | map entries =>
    intro payload found
    exact Value.orderedEntries_iff.1 ordered.2 _ (Entries.mem_of_find? found)
  | _ => simpa [ofThrown, Ordered] using ordered

theorem toValue_ordered {f : Failure} (ordered : f.Ordered) : f.toValue.Ordered := by
  obtain ⟨kind, message, payload⟩ := f
  have first : "kind" < "message" := by decide
  have second : "kind" < "payload" := by decide
  have third : "message" < "payload" := by decide
  cases payload with
  | none =>
    have sorted : Entries.Sorted [("kind", Value.str kind), ("message", .str message)] := by
      simp only [Entries.Sorted, List.pairwise_cons, List.forall_mem_cons]
      exact ⟨⟨first, nofun⟩, nofun, .nil⟩
    exact ⟨sorted, trivial, trivial, trivial⟩
  | some v =>
    have sorted : Entries.Sorted [("kind", Value.str kind), ("message", .str message), ("payload", v)] := by
      simp only [Entries.Sorted, List.pairwise_cons, List.forall_mem_cons]
      exact ⟨⟨first, second, nofun⟩, ⟨third, nofun⟩, nofun, .nil⟩
    exact ⟨sorted, trivial, trivial, ordered v rfl, trivial⟩

end Failure

namespace Value

theorem arithmetic_ordered (op : BinaryOp) (lhs rhs : Value) :
    OrderedResult (arithmetic op lhs rhs) := by
  unfold arithmetic
  split
  · unfold integerArithmetic
    repeat' split
    all_goals first
      | exact Failure.plain_ordered
      | trivial
  · repeat' split
    all_goals first
      | exact Failure.plain_ordered
      | trivial

theorem comparison_ordered (op : BinaryOp) (lhs rhs : Value) :
    OrderedResult (comparison op lhs rhs) := by
  unfold comparison
  split
  · trivial
  · exact Failure.plain_ordered

theorem addition_ordered (left : lhs.Ordered) (right : rhs.Ordered) :
    OrderedResult (addition lhs rhs) := by
  unfold addition
  split
  · trivial
  · next as bs =>
    refine orderedItems_iff.2 ?_
    rw [List.forall_mem_append]
    exact ⟨orderedItems_iff.1 left, orderedItems_iff.1 right⟩
  · refine orderedItems_iff.2 ?_
    rw [List.forall_mem_append]
    exact ⟨orderedItems_iff.1 left, by simpa using right⟩
  · exact arithmetic_ordered ..

end Value

theorem BinaryOp.apply_ordered (op : BinaryOp) (left : lhs.Ordered) (right : rhs.Ordered) :
    OrderedResult (op.apply lhs rhs) := by
  cases op with
  | eq | ne => trivial
  | lt | le | gt | ge => exact Value.comparison_ordered ..
  | add => exact Value.addition_ordered left right
  | sub | mul | div | mod => exact Value.arithmetic_ordered ..

/-! ### Scopes -/

namespace Heap

def Ordered (h : Heap) : Prop := ∀ e, Bindings.Ordered (h.locals e)

variable {h : Heap}

theorem Ordered.lookup (ordered : h.Ordered) (found : h.lookup e name = some v) : v.Ordered := by
  obtain ⟨s, -, here⟩ := List.exists_of_findSome?_eq_some found
  exact (ordered s).find? here

theorem Ordered.declare (ordered : h.Ordered) (value : v.Ordered) (e : ScopeId) (name : String) :
    (h.declare e name v).Ordered := by
  intro x
  by_cases inside : e < h.next
  · rw [locals_declare inside]
    split
    · exact (ordered e).insert value name
    · exact ordered x
  · have same : (h.declare e name v).locals x = h.locals x := by
      have outside : h.scopes[e]? = none := Array.getElem?_eq_none (Nat.not_lt.1 inside)
      simp only [locals, Heap.declare, Array.getElem?_modify]
      split
      · next here =>
        subst here
        simp [outside]
      · rfl
    exact same ▸ ordered x

theorem Ordered.assign (ordered : h.Ordered) (value : v.Ordered) (e : ScopeId) (name : String) :
    (h.assign e name v).Ordered := ordered.declare value _ name

theorem Ordered.addScope (ordered : h.Ordered) (bindings : Bindings.Ordered b)
    (parent : Option ScopeId) : (h.addScope parent b).Ordered := by
  intro x
  rw [locals_addScope]
  split
  · exact bindings
  · exact ordered x

theorem Ordered.child (ordered : h.Ordered) (e : ScopeId) : (h.child e).Ordered :=
  ordered.addScope Bindings.ordered_nil _

end Heap

/-! ### Steps -/

/-- The numbers in the block are words of the machine, and its constant is in order. -/
structure Block.Storable (block : Block) : Prop where
  children : ∀ c ∈ block.children, c < UInt32.size
  constant : ∀ v, block = .constant v → v.Ordered
  sequence : ∀ body, block = .sequence body → body.length ≤ UInt64.size

structure Program.Storable (p : Program) : Prop where
  root : p.root < UInt32.size
  blocks : ∀ b block, p.block? b = some block → block.Storable

def Invocation.Ordered : Invocation → Prop
  | .methodCall receiver _ args => receiver.Ordered ∧ ∀ v ∈ args, v.Ordered
  | .getProperty receiver _ | .getAttribute receiver _ => receiver.Ordered
  | .setProperty receiver _ value | .setAttribute receiver _ value => receiver.Ordered ∧ value.Ordered

def Continuation.Storable (k : Continuation) : Prop := ∀ f ∈ k, f.captured.Storable

def Step.Storable : Step → Prop
  | .eval b _ k => b < UInt32.size ∧ k.Storable
  | .resume s k => s.Ordered ∧ k.Storable
  | .invoke call k => call.Ordered ∧ k.Storable
  | .yield v k => v.Ordered ∧ k.Storable

/-- What a resumption or an evaluation comes to. -/
def Kept (r : Heap × Step) : Prop := r.1.Ordered ∧ r.2.Storable

variable {k : Continuation} {e : ScopeId} {h : Heap}

@[simp] theorem Continuation.storable_cons :
    Storable (f :: k) ↔ f.captured.Storable ∧ Storable k := by
  simp [Storable]

namespace Step

@[simp] theorem storable_evalFor :
    (evalFor b e point captured k).Storable ↔ b < UInt32.size ∧ captured.Storable ∧ k.Storable := by
  simp [evalFor, Storable]

theorem plain_storable (below : k.Storable) : (thrown (.plain kind message) k).Storable :=
  ⟨Failure.plain_ordered, below⟩

theorem nextArgument_storable (args_small : ∀ b ∈ args, b < UInt32.size) (receiver : r.Ordered)
    (evaluated : ∀ v ∈ vs, v.Ordered) (below : k.Storable) :
    (nextArgument method args r vs e k).Storable := by
  unfold nextArgument
  split
  · exact ⟨⟨receiver, evaluated⟩, below⟩
  · next arg here =>
    have args_storable : (Captured.call method args (some r) vs).Storable :=
      ⟨args_small, by simpa using receiver, evaluated⟩
    exact storable_evalFor.2 ⟨args_small arg (List.mem_of_getElem? here), args_storable, below⟩

theorem ofSequence_storable (body_small : ∀ b ∈ body, b < UInt32.size)
    (length : body.length ≤ UInt64.size) (below : k.Storable) :
    (ofSequence body e k).Storable := by
  unfold ofSequence
  split
  · exact ⟨trivial, below⟩
  · exact ⟨body_small _ (by simp), below⟩
  · exact storable_evalFor.2 ⟨body_small _ (by simp), ⟨body_small, length, by decide⟩, below⟩

end Step

namespace Frame

theorem ofResult_storable {r : Except Failure Value} (result : OrderedResult r) (below : k.Storable) :
    (ofResult r k).Storable := by
  cases r <;> exact ⟨result, below⟩

theorem leave_storable (cleanup_small : ∀ b ∈ cleanup, b < UInt32.size) (pending : s.Ordered)
    (below : k.Storable) : (leave cleanup s e k).Storable := by
  cases cleanup with
  | none => exact ⟨pending, below⟩
  | some b => exact Step.storable_evalFor.2 ⟨cleanup_small b rfl, pending, below⟩

theorem afterLhs_storable (rhs_small : rhs < UInt32.size) (below : k.Storable) :
    (afterLhs op rhs v e k).Storable := by
  unfold afterLhs
  split
  · exact ⟨trivial, below⟩
  · exact ⟨trivial, below⟩
  · exact ⟨rhs_small, below⟩

theorem afterCondition_storable (then_small : thenBranch < UInt32.size)
    (else_small : ∀ b ∈ elseBranch, b < UInt32.size) (below : k.Storable) :
    (afterCondition thenBranch elseBranch v e k).Storable := by
  unfold afterCondition
  split
  · exact ⟨then_small, below⟩
  · exact ⟨else_small _ rfl, below⟩
  · exact ⟨trivial, below⟩

theorem afterElement_storable (storable : (Captured.sequence body index).Storable)
    (value : v.Ordered) (below : k.Storable) : (afterElement body index v e k).Storable := by
  obtain ⟨body_small, length, -⟩ := storable
  unfold afterElement
  split
  · exact ⟨value, below⟩
  · next b here =>
    obtain ⟨lt, _⟩ := List.getElem?_eq_some_iff.1 here
    have small := body_small b (List.mem_of_getElem? here)
    split
    · exact ⟨small, below⟩
    · exact Step.storable_evalFor.2 ⟨small, ⟨body_small, length, by omega⟩, below⟩

theorem storeProperty_kept (value : v.Ordered) (below : k.Storable) (ordered : h.Ordered) :
    Kept (storeProperty target name isAttribute v e k h) := by
  unfold storeProperty
  split
  · exact ⟨ordered, Step.plain_storable below⟩
  · next receiver found =>
    have receiver_ordered := ordered.lookup found
    have store : (⟨.storeReceiver, e, .storeReceiver target v⟩ : Frame).captured.Storable := value
    cases isAttribute <;>
      exact ⟨ordered, ⟨receiver_ordered, value⟩, Continuation.storable_cons.2 ⟨store, below⟩⟩

theorem catchFailure_kept (storable : (Captured.guarded clauses cleanup).Storable)
    (failure : f.Ordered) (below : k.Storable) (ordered : h.Ordered) :
    Kept (catchFailure clauses cleanup f e k h) := by
  unfold catchFailure
  split
  · next clause found =>
    refine ⟨(ordered.child e).declare (Failure.toValue_ordered failure) _ _,
      storable.1 clause (List.mem_of_find?_eq_some found), ?_⟩
    exact Continuation.storable_cons.2 ⟨storable.2, below⟩
  · exact ⟨ordered, leave_storable storable.2 failure below⟩

theorem onValue_kept {go : Value → Resumption} (signal : s.Ordered) (below : k.Storable)
    (ordered : h.Ordered) (goes : ∀ v, v.Ordered → Kept (go v h)) : Kept (onValue s k go h) := by
  cases s with
  | value v => exact goes v signal
  | thrown f => exact ⟨ordered, signal, below⟩

/-- A frame that can be stored leads to a step that can be, over scopes in order. -/
theorem resume_kept {f : Frame} (storable : f.captured.Storable) (signal : s.Ordered)
    (below : k.Storable) (resumed : f.resume s k = .ok go) (ordered : h.Ordered) : Kept (go h) := by
  have suits := suits_of_resume resumed
  obtain ⟨point, e, captured⟩ := f
  cases suits with
  | decide =>
    cases resumed
    exact onValue_kept signal below ordered fun v _ => ⟨ordered, afterLhs_storable storable below⟩
  | not =>
    cases resumed
    exact onValue_kept signal below ordered fun v _ => ⟨ordered, trivial, below⟩
  | lhs =>
    cases resumed
    exact onValue_kept signal below ordered fun v value =>
      ⟨ordered, Step.storable_evalFor.2 ⟨storable, value, below⟩⟩
  | @rhs op =>
    cases resumed
    exact onValue_kept signal below ordered fun v value =>
      ⟨ordered, ofResult_storable (op.apply_ordered storable value) below⟩
  | declare =>
    cases resumed
    exact onValue_kept signal below ordered fun v value =>
      ⟨ordered.declare value _ _, value, below⟩
  | assign =>
    cases resumed
    exact onValue_kept signal below ordered fun v value => ⟨ordered.assign value _ _, value, below⟩
  | branch =>
    cases resumed
    exact onValue_kept signal below ordered fun v _ =>
      ⟨ordered, afterCondition_storable storable.1 storable.2 below⟩
  | loopTest =>
    cases resumed
    refine onValue_kept signal below ordered fun v _ => ⟨ordered, ?_⟩
    cases v.truthy
    · exact ⟨trivial, below⟩
    · exact Step.storable_evalFor.2 ⟨storable.2, storable, below⟩
  | loopBody =>
    cases resumed
    exact onValue_kept signal below ordered fun v _ =>
      ⟨ordered, Step.storable_evalFor.2 ⟨storable.1, storable, below⟩⟩
  | sequence =>
    cases resumed
    exact onValue_kept signal below ordered fun v value =>
      ⟨ordered, afterElement_storable storable value below⟩
  | @property name isAttribute =>
    cases resumed
    refine onValue_kept signal below ordered fun v value => ⟨ordered, ?_⟩
    cases isAttribute <;> exact ⟨value, below⟩
  | propertyStore =>
    cases resumed
    exact onValue_kept signal below ordered fun v value => storeProperty_kept value below ordered
  | storeReceiver =>
    cases resumed
    exact onValue_kept signal below ordered fun v value =>
      ⟨ordered.assign value _ _, storable, below⟩
  | callReceiver =>
    cases resumed
    exact onValue_kept signal below ordered fun v value =>
      ⟨ordered, Step.nextArgument_storable storable.1 value storable.2.2 below⟩
  | @callArgument _ _ receiver =>
    cases resumed
    refine onValue_kept signal below ordered fun v value => ⟨ordered, ?_⟩
    obtain ⟨args_small, receiver_ordered, evaluated_ordered⟩ := storable
    refine Step.nextArgument_storable args_small ?_ ?_ below
    · cases receiver with
      | none => trivial
      | some r => exact receiver_ordered r rfl
    · rw [List.forall_mem_append]
      exact ⟨evaluated_ordered, by simpa using value⟩
  | throw =>
    cases resumed
    exact onValue_kept signal below ordered fun v value =>
      ⟨ordered, Failure.ofThrown_ordered value, below⟩
  | guarded =>
    cases s <;> cases resumed
    · exact ⟨ordered, leave_storable storable.2 signal below⟩
    · exact catchFailure_kept storable signal below ordered
  | handler =>
    cases resumed
    exact ⟨ordered, leave_storable storable signal below⟩
  | cleanup =>
    cases resumed
    exact onValue_kept signal below ordered fun v value => ⟨ordered, storable, below⟩
  | request =>
    cases resumed
    exact onValue_kept signal below ordered fun v value => ⟨ordered, value, below⟩

end Frame

theorem Block.evaluate_kept {block : Block} (storable : block.Storable) (below : k.Storable)
    (ordered : h.Ordered) : Kept (block.evaluate h e k) := by
  obtain ⟨children, constant, sequence⟩ := storable
  cases block with
  | constant v => exact ⟨ordered, constant v rfl, below⟩
  | readVariable name =>
    simp only [evaluate]
    split
    · next v found => exact ⟨ordered, ordered.lookup found, below⟩
    · exact ⟨ordered, Step.plain_storable below⟩
  | declare name init =>
    cases init with
    | none => exact ⟨ordered.declare (v := .null) trivial _ _, trivial, below⟩
    | some b => exact ⟨ordered, Step.storable_evalFor.2 ⟨children b (by simp [Block.children]), trivial, below⟩⟩
  | assign =>
    exact ⟨ordered, Step.storable_evalFor.2 ⟨children _ (by simp [Block.children]), trivial, below⟩⟩
  | logical | binary =>
    simp only [Block.children, List.forall_mem_cons] at children
    exact ⟨ordered, Step.storable_evalFor.2 ⟨children.1, children.2.1, below⟩⟩
  | not =>
    exact ⟨ordered, Step.storable_evalFor.2 ⟨children _ (by simp [Block.children]), trivial, below⟩⟩
  | ifElse =>
    simp only [Block.children, List.forall_mem_cons, Option.mem_toList] at children
    exact ⟨ordered, Step.storable_evalFor.2 ⟨children.1, ⟨children.2.1, children.2.2⟩, below⟩⟩
  | whileLoop =>
    simp only [Block.children, List.forall_mem_cons] at children
    exact ⟨ordered, Step.storable_evalFor.2 ⟨children.1, ⟨children.1, children.2.1⟩, below⟩⟩
  | sequence body => exact ⟨ordered, Step.ofSequence_storable children (sequence body rfl) below⟩
  | scope body => exact ⟨ordered.child e, children body (by simp [Block.children]), below⟩
  | property | setProperty | throw | yield =>
    exact ⟨ordered, Step.storable_evalFor.2 ⟨children _ (by simp [Block.children]), trivial, below⟩⟩
  | call receiver method args =>
    have arguments : ∀ b ∈ args, b < UInt32.size :=
      fun b member => children b (by simp [Block.children, member])
    cases receiver with
    | none => exact ⟨ordered, Step.nextArgument_storable arguments trivial (by simp) below⟩
    | some b =>
      have captured : (Captured.call method args none []).Storable := ⟨arguments, by simp, by simp⟩
      exact ⟨ordered, Step.storable_evalFor.2 ⟨children b (by simp [Block.children]), captured, below⟩⟩
  | tryCatch body clauses cleanup =>
    simp only [Block.children, List.cons_append, List.forall_mem_cons, List.forall_mem_append,
      List.forall_mem_map, Option.mem_toList] at children
    exact ⟨ordered, Step.storable_evalFor.2 ⟨children.1, ⟨children.2.1, children.2.2⟩, below⟩⟩

theorem Program.evaluate_kept {p : Program} (storable : p.Storable) (below : k.Storable)
    (ordered : h.Ordered) : Kept (p.evaluate h b e k) := by
  unfold evaluate
  split
  · next block found => exact Block.evaluate_kept (storable.blocks b block found) below ordered
  · exact ⟨ordered, Step.plain_storable below⟩

theorem Table.deliver_kept {t : Table} (signal : s.Ordered) (below : k.Storable) (ordered : h.Ordered) :
    (t.deliver h k s).1.Ordered ∧
      ∀ step, (t.deliver h k s).2 = .ok (.next step) → step.Storable := by
  cases k with
  | nil => exact ⟨ordered, by simp [deliver]⟩
  | cons f rest =>
    obtain ⟨captured, below⟩ := Continuation.storable_cons.1 below
    simp only [deliver, resumeInnermost]
    split
    · exact ⟨ordered, by rintro _ ⟨⟩⟩
    · split
      · refine ⟨ordered, ?_⟩
        rintro _ ⟨⟩
        exact ⟨signal, below⟩
      · split
        · exact ⟨ordered, by rintro _ ⟨⟩⟩
        · next go resumed =>
          obtain ⟨after, next⟩ := Frame.resume_kept captured signal below resumed ordered
          refine ⟨after, ?_⟩
          rintro _ ⟨⟩
          exact next

/-! ### Runs -/

/-- While its state is fit the host answers in order, and its state stays fit. -/
structure Host.Keeps (host : Host σ) (fit : σ → Prop) : Prop where
  answer : ∀ call s, call.Ordered → fit s → OrderedResult (host call s).1
  state : ∀ call s, call.Ordered → fit s → fit (host call s).2

def Standing.Storable : Standing → Prop
  | .running s => s.Storable
  | .parked x => x.request.Ordered ∧ x.k.Storable
  | .ended _ => True

theorem Step.Storable.standing {s : Step} {standing : Standing} (storable : s.Storable)
    (left : standing.At s) : standing.Storable := by
  cases standing with
  | running s' => exact left ▸ storable
  | parked x =>
    obtain rfl := left
    exact storable
  | ended => trivial

def World.Kept (fit : σ → Prop) (w : World σ) : Prop := w.heap.Ordered ∧ fit w.host

def Stage.Kept (fit : σ → Prop) (st : Stage σ) : Prop := st.world.Kept fit ∧ st.standing.Storable

/-- What the host gives to the run is in order. -/
def Move.Ordered : Move → Prop
  | .slice _ => True
  | .answer signal => signal.Ordered
  | .persist into => into.Ordered

namespace Machine
variable {σ : Type} {m : Machine σ} {fit : σ → Prop}

theorem turn_eq_next : turn d = .next s ↔ d = .ok (.next s) := by
  match d with
  | .ok (.next _) | .ok (.halted (.value _)) | .ok (.halted (.thrown _)) | .error _ => simp [turn]

theorem step_kept (storable : m.program.Storable) (keeps : m.host.Keeps fit) {w : World σ} {s : Step}
    (world : w.Kept fit) (step : s.Storable) :
    (m.step w s).1.Kept fit ∧ ∀ s', (m.step w s).2 = .next s' → s'.Storable := by
  obtain ⟨ordered, fits⟩ := world
  cases s with
  | eval b e k =>
    obtain ⟨after, next⟩ := Program.evaluate_kept storable step.2 ordered
    exact ⟨⟨after, fits⟩, by rintro _ ⟨⟩; exact next⟩
  | resume signal k =>
    obtain ⟨after, next⟩ := Table.deliver_kept (t := m.table) step.1 step.2 ordered
    exact ⟨⟨after, fits⟩, fun s' turned => next s' (turn_eq_next.1 turned)⟩
  | invoke call k =>
    have answer := keeps.answer call w.host step.1 fits
    refine ⟨⟨ordered, keeps.state call w.host step.1 fits⟩, ?_⟩
    rintro _ ⟨⟩
    exact Frame.ofResult_storable answer step.2
  | yield request k => exact ⟨⟨ordered, fits⟩, by simp [Machine.step]⟩

theorem run_kept (storable : m.program.Storable) (keeps : m.host.Keeps fit) (n : Nat) {w : World σ}
    {s : Step} (world : w.Kept fit) (step : s.Storable) :
    (m.run n w s).1.Kept fit ∧ (Standing.ofOutcome (m.run n w s).2).Storable := by
  have kept : ∀ w s w' s', w.Kept fit ∧ s.Storable → m.step w s = (w', .next s') →
      w'.Kept fit ∧ s'.Storable := by
    rintro w s w' s' ⟨world, step⟩ next
    obtain ⟨after, goes⟩ := step_kept storable keeps world step
    rw [next] at after goes
    exact ⟨after, goes s' rfl⟩
  obtain ⟨s', ⟨after, storable'⟩, left⟩ := run_invariant kept n ⟨world, step⟩
  exact ⟨after, storable'.standing left⟩

end Machine

/-! ### Snapshots -/

namespace Snapshot
variable {x : Suspension}

theorem record_ordered (ordered : h.Ordered) (member : r ∈ (capture h x).scopes) :
    r.bindings.Ordered ∧ ∀ p ∈ r.parent, p < (capture h x).scopes.length := by
  simp only [capture_eq] at member ⊢
  have faithful := Recorded.ofSuspension_faithful h x
  obtain ⟨i, lt, here⟩ := List.getElem_of_mem member
  obtain ⟨e, placed⟩ := faithful.onto i (by simpa [faithful.sizes] using lt)
  have record := faithful.record e i placed
  obtain rfl : r = ⟨(h.parent? e).bind (Recorded.ofSuspension h x).place?, h.locals e⟩ := by
    rw [← Array.getElem?_toList, List.getElem?_eq_getElem lt, here] at record
    exact Option.some.inj record
  refine ⟨ordered e, fun p above => ?_⟩
  obtain ⟨q, up, there⟩ := Option.bind_eq_some_iff.1 above
  simpa [faithful.sizes] using Recorded.place?_lt there

theorem capture_storable (ordered : h.Ordered) (request : x.request.Ordered) (frames : x.k.Storable)
    (few : (capture h x).scopes.length ≤ UInt64.size) : (capture h x).Storable where
  request := by simpa [capture_eq] using request
  parents r member p above :=
    Nat.lt_of_lt_of_le ((record_ordered ordered member).2 p above) few
  bindings r member := (record_ordered ordered member).1
  scopes := by
    rw [capture_eq] at few ⊢
    refine List.forall_mem_map.2 fun f member => Nat.lt_of_lt_of_le ?_ few
    exact Recorded.number_lt (Recorded.ofSuspension_faithful h x) (Recorded.ofSuspension_place? member)
  captured := by
    rw [capture_eq]
    exact List.forall_mem_map.2 fun f member => frames f member

theorem addScopes_ordered (base : ScopeId) (ordered : h.Ordered) {records : List ScopeRecord}
    (bindings : ∀ r ∈ records, r.bindings.Ordered) : (addScopes base h records).Ordered := by
  induction records generalizing h with
  | nil => exact ordered
  | cons r records ih =>
    obtain ⟨first, others⟩ := List.forall_mem_cons.1 bindings
    exact ih (ordered.addScope first _) others

end Snapshot

namespace Machine
variable {σ : Type} {m : Machine σ} {fit : σ → Prop}

theorem move_kept (storable : m.program.Storable) (keeps : m.host.Keeps fit) {st : Stage σ}
    (kept : st.Kept fit) {mv : Move} (given : mv.Ordered) : (m.move st mv).Kept fit := by
  obtain ⟨w, standing⟩ := st
  match mv, standing with
  | .slice budget, .running s => exact run_kept storable keeps budget kept.1 kept.2
  | .answer signal, .parked x => exact ⟨kept.1, given, kept.2.2⟩
  | .persist into, .parked x =>
    obtain ⟨⟨ordered, fits⟩, request, frames⟩ := kept
    have records : ∀ r ∈ (Recorded.ofSuspension w.heap x).records.toList, r.bindings.Ordered := by
      intro r member
      exact (Snapshot.record_ordered (x := x) ordered (by simpa [Snapshot.capture_eq] using member)).1
    simp only [move, Snapshot.restore_capture]
    refine ⟨⟨Snapshot.addScopes_ordered _ given records, fits⟩, request, ?_⟩
    exact List.forall_mem_map.2 fun f member => frames f member
  | .slice _, .parked _ | .slice _, .ended _ | .answer _, .running _ | .answer _, .ended _
  | .persist _, .running _ | .persist _, .ended _ => exact kept

theorem after_kept (storable : m.program.Storable) (keeps : m.host.Keeps fit) {st : Stage σ}
    (kept : st.Kept fit) {moves : List Move} (given : ∀ mv ∈ moves, mv.Ordered) :
    (m.after st moves).Kept fit :=
  after_invariant (I := Stage.Kept fit)
    (fun _ _ given kept => move_kept storable keeps kept given) kept given

theorem opening_kept (storable : m.program.Storable) {w : World σ} (kept : w.Kept fit) (e : ScopeId) :
    (m.opening w e).Kept fit := ⟨kept, storable.root, by simp [Continuation.Storable]⟩

end Machine
end FlowScript
