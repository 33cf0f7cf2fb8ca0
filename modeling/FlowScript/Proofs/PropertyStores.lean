import FlowScript.Proofs.Rethrowing
import FlowScript.Proofs.Scoping

/-! Assigning to a property. The value comes first, and only then is the target looked up; what the host
answers takes the place of what the target holds, and if anything goes wrong nothing is written. -/
namespace FlowScript

/-- The access that sets a property or an attribute. -/
def Invocation.setting (isAttribute : Bool) (receiver : Value) (name : String) (v : Value) : Invocation :=
  if isAttribute then .setAttribute receiver name v else .setProperty receiver name v

/-- Where the scopes of a parked run are once it has been restored over a heap. -/
def Suspension.moving (x : Suspension) (h into : Heap) (e : ScopeId) : ScopeId :=
  into.next + (Recorded.ofSuspension h x).number e

/-- The nearest binding of the name on the chain has become the value, and nothing else has changed. -/
structure Heap.Rebinds (h : Heap) (e : ScopeId) (name : String) (v : Value) (h' : Heap) : Prop where
  next : h'.next = h.next
  parents : ∀ x, h'.parent? x = h.parent? x
  nearest : ∃ before x after, h.chain e = before ++ x :: after ∧
    (∀ y ∈ before, (h.locals y).binds name = false) ∧ (h.locals x).binds name = true ∧
    (h'.locals x).find? name = some v ∧
    ∀ y other, y ≠ x ∨ other ≠ name → (h'.locals y).find? other = (h.locals y).find? other

namespace Machine
variable {σ : Type}

/-- From the step in the world the run comes to the continuation for the first time, with the signal and in
the other world. Its requests are answered, and it may be restored in between; the map says where the scopes
are after that. -/
inductive Evaluates (m : Machine σ) :
    Continuation → World σ → Step → (ScopeId → ScopeId) → Signal → World σ → Prop where
  | arrives : Evaluates m k w (.resume signal k) id signal w
  | step : s.NotAt k → m.step w s = (w₁, .next s₁) → Evaluates m k w₁ s₁ moved signal w' →
      Evaluates m k w s moved signal w'
  | answered {x : Suspension} : Evaluates m k w (.resume answer x.k) moved signal w' →
      Evaluates m k w (.yield x.request x.k) moved signal w'
  | restored {x y : Suspension} : m.move ⟨w, .parked x⟩ (.persist into) = ⟨w₁, .parked y⟩ →
      Evaluates m (k.map (Frame.moved (x.moving w.heap into))) w₁ (.yield y.request y.k) moved signal w' →
      Evaluates m k w (.yield x.request x.k) (moved ∘ x.moving w.heap into) signal w'

/-- What becomes of the outcome of the value. A failure goes on, and so does a refusal of the host; what the
host answers is stored. -/
def store (m : Machine σ) (target name : String) (isAttribute : Bool) (e : ScopeId) :
    Signal → World σ → Signal × World σ
  | .thrown f, w => (.thrown f, w)
  | .value v, w =>
    match w.heap.lookup e target with
    | none => (.thrown (.missingVariable target), w)
    | some receiver =>
      match m.host (.setting isAttribute receiver name v) w.host with
      | (.error f, u) => (.thrown f, ⟨w.heap, u⟩)
      | (.ok updated, u) => (.value v, ⟨w.heap.assign e target updated, u⟩)

/-! ### Evaluations over a frame -/

variable {m : Machine σ} {w w' w₁ : World σ} {s s₁ : Step} {k : Continuation} {g : Frame}
  {moved : ScopeId → ScopeId}

theorem map_moved_id (k : Continuation) : k.map (Frame.moved id) = k := List.map_id k

theorem map_moved_comp (first second : ScopeId → ScopeId) (k : Continuation) :
    (k.map (Frame.moved first)).map (Frame.moved second) = k.map (Frame.moved (second ∘ first)) :=
  List.map_map

/-- A restored run has the frames of the parked one, over other scopes. -/
theorem frames_of_restored {x y : Suspension}
    (restored : m.move ⟨w, .parked x⟩ (.persist into) = ⟨w₁, .parked y⟩) :
    y.k = x.k.map (Frame.moved (x.moving w.heap into)) := by
  simp only [move, Snapshot.restore_capture] at restored
  obtain ⟨_, parked⟩ := Stage.mk.inj restored
  rw [← Standing.parked.inj parked]
  rfl

/-- The scopes of a restored run see what those of the parked one see. -/
theorem lookup_restored {x y : Suspension}
    (restored : m.move ⟨w, .parked x⟩ (.persist into) = ⟨w₁, .parked y⟩)
    (inside : ∀ f ∈ x.k, f.scope < w.heap.next) (member : f ∈ x.k) (name : String) :
    w₁.heap.lookup (x.moving w.heap into f.scope) name = w.heap.lookup f.scope name := by
  have frames := frames_of_restored restored
  obtain ⟨R, into', z, copied, matched, _, alike⟩ := Snapshot.restore_alike w.heap into x inside
  simp only [move, copied, Stage.mk.injEq, Standing.parked.injEq] at restored
  obtain ⟨rfl, rfl⟩ := restored
  have pairs : x.k.Alike R z.k := by
    cases alike with
    | parked alike => exact alike
  rw [frames, Continuation.Alike, List.forall₂_map_right_iff, List.forall₂_same] at pairs
  exact (matched.lookup (pairs f member).scope name).symm

namespace Evaluates

theorem of_step (quiet : s.NotAt k) (step : m.step w s = (w₁, .next s₁)) :
    m.Evaluates k w s moved signal w' ↔ m.Evaluates k w₁ s₁ moved signal w' := by
  refine ⟨fun evaluates => ?_, .step quiet step⟩
  cases evaluates with
  | arrives => exact absurd rfl (quiet _)
  | step _ step' rest =>
    obtain ⟨rfl, same⟩ := Prod.mk.inj (step.symm.trans step')
    obtain rfl := Turn.next.inj same
    exact rest
  | answered | restored => exact nomatch (Prod.mk.inj step).2

theorem at_end :
    m.Evaluates k w (.resume signal k) moved signal' w' ↔ moved = id ∧ signal' = signal ∧ w' = w := by
  constructor
  · intro evaluates
    cases evaluates with
    | arrives => exact ⟨rfl, rfl, rfl⟩
    | step quiet => exact absurd rfl (quiet signal)
  · rintro ⟨rfl, rfl, rfl⟩
    exact .arrives

/-- A run that does not signal to the continuation goes on where it leaves off. -/
theorem of_run (quiet : Quiet k (m.path n w s))
    (left : (Standing.ofOutcome (m.run n w s).2).current? = some s₁)
    (rest : m.Evaluates k (m.run n w s).1 s₁ moved signal w') : m.Evaluates k w s moved signal w' := by
  induction n generalizing w s with
  | zero =>
    cases cancelled : m.isCancelled w.host with
    | true =>
      rw [run_cancelled cancelled] at left
      cases left
    | false =>
      simp only [Machine.run, cancelled, Bool.false_eq_true, if_false] at left rest
      obtain rfl := Option.some.inj left
      exact rest
  | succ n ih =>
    cases cancelled : m.isCancelled w.host with
    | true =>
      rw [run_cancelled cancelled] at left
      cases left
    | false =>
      rcases step : m.step w s with ⟨w₂, s₂ | outcome⟩
      · rw [path_next cancelled step] at quiet
        rw [run_next cancelled step] at left rest
        obtain ⟨first, others⟩ := List.forall_mem_cons.1 quiet
        exact .step first step (ih others left rest)
      · rw [run_ended cancelled step] at left rest
        rcases step_ended step with ⟨x, rfl, rfl, rfl⟩ | ⟨v, rfl, _⟩ | ⟨f, rfl, _⟩
        · obtain rfl := Option.some.inj left
          exact rest
        · cases left
        · cases left

/-- An evaluation over a frame comes to the frame first. -/
theorem split (evaluates : m.Evaluates k w s moved signal w') (inner : Step)
    (stacked : s = inner.onto (g :: k)) :
    ∃ outcome w₁ first second, moved = second ∘ first ∧ m.Evaluates (g :: k) w s first outcome w₁ ∧
      m.Evaluates (k.map (Frame.moved first)) w₁ (.resume outcome ((g :: k).map (Frame.moved first)))
        second signal w' := by
  induction evaluates generalizing g inner with
  | @arrives k w signal =>
    have lengths := congrArg (·.rest.length) stacked
    simp only [Step.rest_onto, List.length_append, List.length_cons] at lengths
    simp only [Step.rest] at lengths
    omega
  | @step w s w₁ s₁ k moved signal w' quiet step rest ih =>
    by_cases above : inner.NotAt []
    · subst stacked
      obtain ⟨s₂, _, rfl⟩ := step_under above step
      obtain ⟨outcome, w₂, first, second, rfl, frame, below⟩ := ih s₂ rfl
      exact ⟨outcome, w₂, first, second, rfl, .step (Step.notAt_onto.2 above) step frame, below⟩
    · obtain ⟨outcome, rfl⟩ : ∃ outcome, inner = .resume outcome [] := by
        simpa [Step.NotAt] using above
      have here : s = .resume outcome (g :: k) := stacked
      refine ⟨outcome, w, id, moved, rfl, here ▸ .arrives, ?_⟩
      rw [map_moved_id, map_moved_id, ← here]
      exact .step quiet step rest
  | @answered k w answer moved signal w' x rest ih =>
    cases inner with
    | yield request own =>
      obtain ⟨_, frames⟩ := Step.yield.inj stacked
      obtain ⟨outcome, w₂, first, second, rfl, frame, below⟩ :=
        ih (.resume answer own) (congrArg (Step.resume answer) frames)
      exact ⟨outcome, w₂, first, second, rfl, .answered frame, below⟩
    | eval | resume | invoke => exact nomatch stacked
  | @restored w into w₁ moved signal w' k x y restored rest ih =>
    cases inner with
    | yield request own =>
      obtain ⟨_, frames⟩ := Step.yield.inj stacked
      let there := x.moving w.heap into
      have copied : y.k = own.map (Frame.moved there) ++ g.moved there :: k.map (Frame.moved there) := by
        rw [frames_of_restored restored, frames, List.map_append, List.map_cons]
      obtain ⟨outcome, w₂, first, second, rfl, frame, below⟩ :=
        ih (.yield y.request (own.map (Frame.moved there))) (congrArg (Step.yield y.request) copied)
      rw [List.map_cons, map_moved_comp] at below
      exact ⟨outcome, w₂, first ∘ there, second, rfl, .restored restored frame, below⟩
    | eval | resume | invoke => exact nomatch stacked

/-- What comes to the frame first goes on below it. -/
theorem join (frame : m.Evaluates base w s first outcome w₁) (inner : Step) (stacked : s = inner.onto base)
    (frames : base = g :: k)
    (below : m.Evaluates (k.map (Frame.moved first)) w₁ (.resume outcome (base.map (Frame.moved first)))
      second signal w') : m.Evaluates k w s (second ∘ first) signal w' := by
  induction frame generalizing g k inner with
  | @arrives base w outcome =>
    rw [map_moved_id, map_moved_id] at below
    exact below
  | @step w s w₁ s₁ base first outcome w₂ quiet step rest ih =>
    subst stacked frames
    have above : inner.NotAt [] := Step.notAt_onto.1 quiet
    obtain ⟨s₂, _, rfl⟩ := step_under above step
    exact .step (Step.Over.notAt_below ⟨inner, rfl, above⟩) step (ih s₂ rfl rfl below)
  | @answered base w answer first outcome w₂ x rest ih =>
    cases inner with
    | yield request own =>
      obtain ⟨_, parked⟩ := Step.yield.inj stacked
      exact .answered (ih (.resume answer own) (congrArg (Step.resume answer) parked) frames below)
    | eval | resume | invoke => exact nomatch stacked
  | @restored w into w₁ first outcome w₂ base x y restored rest ih =>
    cases inner with
    | yield request own =>
      obtain ⟨_, parked⟩ := Step.yield.inj stacked
      let there := x.moving w.heap into
      have copied : y.k = own.map (Frame.moved there) ++ base.map (Frame.moved there) := by
        rw [frames_of_restored restored, parked, List.map_append]
      refine .restored restored (ih (.yield y.request (own.map (Frame.moved there)))
        (congrArg (Step.yield y.request) copied) (congrArg (List.map (Frame.moved there)) frames) ?_)
      rw [map_moved_comp, map_moved_comp]
      exact below
    | eval | resume | invoke => exact nomatch stacked

end Evaluates

/-! ### The store -/

variable {e : ScopeId} {target name : String} {isAttribute : Bool}

theorem step_value (standard : m.table = .standard) {f : Frame} (resumed : f.resume (.value v) k = .ok go) :
    m.step w (.resume (.value v) (f :: k)) = (⟨(go w.heap).1, w.host⟩, .next (go w.heap).2) :=
  step_resumed standard (fun thrown => nomatch thrown) resumed

theorem step_unbound (standard : m.table = .standard) (unbound : w.heap.lookup e target = none) :
    m.step w (.resume (.value v) (⟨.propertyStore, e, .propertyStore target name isAttribute⟩ :: k)) =
      (w, .next (.resume (.thrown (.missingVariable target)) k)) := by
  refine (step_value standard rfl).trans ?_
  simp only [Frame.onValue, Frame.storeProperty, unbound]
  rfl

theorem step_bound (standard : m.table = .standard) (bound : w.heap.lookup e target = some receiver) :
    m.step w (.resume (.value v) (⟨.propertyStore, e, .propertyStore target name isAttribute⟩ :: k)) =
      (w, .next (.invoke (.setting isAttribute receiver name v)
        (⟨.storeReceiver, e, .storeReceiver target v⟩ :: k))) := by
  refine (step_value standard rfl).trans ?_
  simp only [Frame.onValue, Frame.storeProperty, bound]
  rfl

theorem step_written (standard : m.table = .standard) :
    m.step w (.resume (.value updated) (⟨.storeReceiver, e, .storeReceiver target v⟩ :: k)) =
      (⟨w.heap.assign e target updated, w.host⟩, .next (.resume (.value v) k)) := by
  have resumed : Frame.resume ⟨.storeReceiver, e, .storeReceiver target v⟩ (.value updated) k =
    .ok fun h => (h.assign e target updated, .value v k) := rfl
  exact step_value standard resumed

theorem step_answered (answer : m.host call w.host = (.ok v, u)) :
    m.step w (.invoke call k) = (⟨w.heap, u⟩, .next (.resume (.value v) k)) := by
  simp only [Machine.step, answer]
  rfl

theorem step_refused (answer : m.host call w.host = (.error f, u)) :
    m.step w (.invoke call k) = (⟨w.heap, u⟩, .next (.resume (.thrown f) k)) := by
  simp only [Machine.step, answer]
  rfl

/-- What comes to the frame of a property assignment is stored, or a failure goes on. -/
theorem evaluates_propertyStore (standard : m.table = .standard) (outcome : Signal) :
    m.Evaluates k w (.resume outcome (⟨.propertyStore, e, .propertyStore target name isAttribute⟩ :: k))
        moved signal w' ↔
      moved = id ∧ (signal, w') = m.store target name isAttribute e outcome w := by
  cases outcome with
  | thrown f =>
    have passes : Frame.Passes f ⟨.propertyStore, e, .propertyStore target name isAttribute⟩ := .unseen rfl
    rw [Evaluates.of_step Step.above_resume.notAt (step_passes standard passes w k), Evaluates.at_end,
      store, Prod.mk.injEq]
  | value v =>
    cases bound : w.heap.lookup e target with
    | none =>
      rw [Evaluates.of_step Step.above_resume.notAt (step_unbound standard bound), Evaluates.at_end]
      simp only [store, bound, Prod.mk.injEq]
    | some receiver =>
      let write : Frame := ⟨.storeReceiver, e, .storeReceiver target v⟩
      rw [Evaluates.of_step Step.above_resume.notAt (step_bound standard bound)]
      rcases answer : m.host (.setting isAttribute receiver name v) w.host with ⟨f | updated, u⟩
      · have passes : Frame.Passes f write := .unseen rfl
        rw [Evaluates.of_step Step.above_invoke.notAt (step_refused answer),
          Evaluates.of_step Step.above_resume.notAt (step_passes standard passes _ k), Evaluates.at_end]
        simp only [store, bound, answer, Prod.mk.injEq]
      · rw [Evaluates.of_step Step.above_invoke.notAt (step_answered answer),
          Evaluates.of_step Step.above_resume.notAt (step_written standard), Evaluates.at_end]
        simp only [store, bound, answer, Prod.mk.injEq]

/-- The evaluation of a property assignment is that of its value, and then the store. -/
theorem evaluates_setProperty (standard : m.table = .standard)
    (stores : m.program.block? b = some (.setProperty target name value isAttribute)) :
    m.Evaluates k w (.eval b e k) moved signal w' ↔
      ∃ outcome w₁,
        m.Evaluates (⟨.propertyStore, e, .propertyStore target name isAttribute⟩ :: k) w
          (.evalFor value e .propertyStore (.propertyStore target name isAttribute) k) moved outcome w₁ ∧
        (signal, w') = m.store target name isAttribute (moved e) outcome w₁ := by
  have first : m.step w (.eval b e k) =
      (w, .next (.evalFor value e .propertyStore (.propertyStore target name isAttribute) k)) := by
    simp only [Machine.step, Program.evaluate, stores]
    rfl
  rw [Evaluates.of_step Step.above_eval.notAt first]
  constructor
  · intro evaluates
    obtain ⟨outcome, w₁, first, second, rfl, frame, below⟩ := evaluates.split (.eval value e []) rfl
    obtain ⟨rfl, stored⟩ := (evaluates_propertyStore standard outcome).1 below
    exact ⟨outcome, w₁, frame, stored⟩
  · rintro ⟨outcome, w₁, frame, stored⟩
    exact frame.join (.eval value e []) rfl rfl ((evaluates_propertyStore standard outcome).2 ⟨rfl, stored⟩)

end Machine

/-! ### What is written -/

namespace Heap
variable {h h' : Heap} {e : ScopeId} {name : String} {u v : Value}

/-- An assignment to a name that is bound changes its nearest binding only. -/
theorem rebinds_assign (bound : h.lookup e name = some v) (u : Value) :
    h.Rebinds e name u (h.assign e name u) where
  next := next_declare
  parents _ := parent?_declare
  nearest := by
    obtain ⟨y, member, binds⟩ := lookup_isSome_iff.1 (Option.isSome_of_eq_some bound)
    have some : ((h.chain e).find? fun x => (h.locals x).binds name).isSome = true :=
      List.find?_isSome.2 ⟨y, member, binds⟩
    obtain ⟨x, found⟩ := Option.isSome_iff_exists.1 some
    obtain ⟨here, before, after, chain, earlier⟩ := List.find?_eq_some_iff_append.1 found
    have target : h.target e name = x := by simp [Heap.target, found]
    have inside : x < h.next := by
      refine Nat.lt_of_not_le fun beyond => ?_
      rw [locals_of_next_le beyond] at here
      exact nomatch here
    rw [assign, target]
    refine ⟨before, x, after, chain, fun y member => by simpa using earlier y member, here, ?_, ?_⟩
    · rw [locals_declare inside, if_pos rfl, Entries.find?_insert, if_pos rfl]
    · exact fun _ _ elsewhere => find?_declare elsewhere

/-- The new value is what is seen. -/
theorem Rebinds.lookup (rebinds : h.Rebinds e name u h') : h'.lookup e name = some u := by
  obtain ⟨before, x, after, chain, earlier, binds, here, elsewhere⟩ := rebinds.nearest
  have unbound : before.findSome? (fun y => (h'.locals y).find? name) = none := by
    refine List.findSome?_eq_none_iff.2 fun y member => ?_
    have apart : y ≠ x := by
      rintro rfl
      exact nomatch (earlier y member).symm.trans binds
    rw [elsewhere y name (.inl apart)]
    simpa [Entries.binds] using earlier y member
  rw [Heap.lookup, chain_congr fun y _ => rebinds.parents y, chain, List.findSome?_append, unbound,
    List.findSome?_cons, here]
  rfl

end Heap

/-- A store binds the target to the answer of the host, or leaves all scopes as they are and fails. -/
theorem Machine.store_cases {σ : Type} {m : Machine σ} {w w' : World σ}
    (stored : (signal, w') = m.store target name isAttribute e outcome w) :
    (∃ v receiver updated, outcome = .value v ∧ signal = .value v ∧
      w.heap.lookup e target = some receiver ∧
      m.host (.setting isAttribute receiver name v) w.host = (.ok updated, w'.host) ∧
      w.heap.Rebinds e target updated w'.heap) ∨
    w'.heap = w.heap ∧ ∃ f, signal = .thrown f ∧
      (outcome = .thrown f ∨ ∃ v, outcome = .value v ∧
        (w.heap.lookup e target = none ∧ f = .missingVariable target ∨
          ∃ receiver, w.heap.lookup e target = some receiver ∧
            m.host (.setting isAttribute receiver name v) w.host = (.error f, w'.host))) := by
  cases outcome with
  | thrown f =>
    obtain ⟨rfl, rfl⟩ := Prod.mk.inj stored
    exact .inr ⟨rfl, f, rfl, .inl rfl⟩
  | value v =>
    cases bound : w.heap.lookup e target with
    | none =>
      simp only [Machine.store, bound] at stored
      obtain ⟨rfl, rfl⟩ := Prod.mk.inj stored
      exact .inr ⟨rfl, _, rfl, .inr ⟨v, rfl, .inl ⟨rfl, rfl⟩⟩⟩
    | some receiver =>
      rcases answer : m.host (.setting isAttribute receiver name v) w.host with ⟨f | updated, u⟩
      · simp only [Machine.store, bound, answer] at stored
        obtain ⟨rfl, rfl⟩ := Prod.mk.inj stored
        exact .inr ⟨rfl, f, rfl, .inr ⟨v, rfl, .inr ⟨receiver, rfl, answer⟩⟩⟩
      · simp only [Machine.store, bound, answer] at stored
        obtain ⟨rfl, rfl⟩ := Prod.mk.inj stored
        exact .inl ⟨v, receiver, updated, rfl, rfl, rfl, answer, Heap.rebinds_assign bound updated⟩

theorem Invoker.builtin_setting (functions : Entries (HostFunction σ)) (isAttribute : Bool) (receiver : Value)
    (name : String) (v : Value) (u : σ) :
    (builtin functions).invoke (.setting isAttribute receiver name v) u =
      (builtinSet receiver name v, u) := by
  cases isAttribute <;> rfl

/-- Assigning to a property is all or nothing, and loses no update. The block evaluates its value, and then
what the value has come to is stored. If the value fails, the target is not bound by then or the host refuses,
no scope changes and that failure goes on; otherwise the nearest binding of the target becomes what the host
answers to a store to what the target holds by then, nothing else changes, and the block has the value. With
the built-in members the target becomes the map that it holds by then with one entry set, and keeps all other
entries. A store that a sandbox does not permit changes nothing at all. The value may assign, ask and wait,
and the run may be restored while it does. -/
theorem property_assignment_is_whole (m : Machine σ) (standard : m.table = .standard)
    (stores : m.program.block? b = some (.setProperty target name value isAttribute)) (w : World σ)
    (e : ScopeId) (k : Continuation) :
    let frame : Frame := ⟨.propertyStore, e, .propertyStore target name isAttribute⟩
    (∀ moved signal w', m.Evaluates k w (.eval b e k) moved signal w' ↔
      ∃ outcome w₁, m.Evaluates (frame :: k) w (.eval value e (frame :: k)) moved outcome w₁ ∧
        (signal, w') = m.store target name isAttribute (moved e) outcome w₁) ∧
    (∀ x outcome w₁ signal w', (signal, w') = m.store target name isAttribute x outcome w₁ →
      (∃ v receiver updated, outcome = .value v ∧ signal = .value v ∧
        w₁.heap.lookup x target = some receiver ∧
        m.host (.setting isAttribute receiver name v) w₁.host = (.ok updated, w'.host) ∧
        w₁.heap.Rebinds x target updated w'.heap) ∨
      w'.heap = w₁.heap ∧ ∃ f, signal = .thrown f ∧
        (outcome = .thrown f ∨ ∃ v, outcome = .value v ∧
          (w₁.heap.lookup x target = none ∧ f = .missingVariable target ∨
            ∃ receiver, w₁.heap.lookup x target = some receiver ∧
              m.host (.setting isAttribute receiver name v) w₁.host = (.error f, w'.host)))) ∧
    (∀ functions, m.host = (Invoker.builtin functions).invoke →
      ∀ moved v w', m.Evaluates k w (.eval b e k) moved (.value v) w' →
        ∃ (w₁ : World σ) (entries : Entries Value),
          m.Evaluates (frame :: k) w (.eval value e (frame :: k)) moved (.value v) w₁ ∧
          w₁.heap.lookup (moved e) target = some (.map entries) ∧
          w₁.heap.Rebinds (moved e) target (.map (entries.insert name v)) w'.heap ∧
          w'.heap.lookup (moved e) target = some (.map (entries.insert name v)) ∧
          (entries.insert name v).find? name = some v ∧
          ∀ other, other ≠ name → (entries.insert name v).find? other = entries.find? other) ∧
    ∀ (policy : Policy) (inner : Invoker σ), m.host = (inner.sandboxed policy).invoke →
      ∀ moved v w₁ receiver, m.Evaluates (frame :: k) w (.eval value e (frame :: k)) moved (.value v) w₁ →
        w₁.heap.lookup (moved e) target = some receiver →
        policy.permits (.setting isAttribute receiver name v) = false →
        m.Evaluates k w (.eval b e k) moved
          (.thrown (Policy.rejection (.setting isAttribute receiver name v))) w₁ := by
  intro frame
  refine ⟨?whole, ?all_or_nothing, ?builtin, ?sandbox⟩
  case whole =>
    exact fun _ _ _ => Machine.evaluates_setProperty standard stores
  case all_or_nothing =>
    exact fun _ _ _ _ _ => Machine.store_cases
  case builtin =>
    intro functions host moved v w' evaluates
    obtain ⟨outcome, w₁, valued, stored⟩ := (Machine.evaluates_setProperty standard stores).1 evaluates
    rcases Machine.store_cases stored with ⟨_, receiver, updated, rfl, same, bound, answer, rebinds⟩ | failed
    · obtain rfl := Signal.value.inj same
      rw [host, Invoker.builtin_setting] at answer
      cases receiver with
      | map entries =>
        obtain rfl := Except.ok.inj (Prod.mk.inj answer).1
        refine ⟨w₁, entries, valued, bound, rebinds, rebinds.lookup, ?_, fun other apart => ?_⟩
        · rw [Entries.find?_insert, if_pos rfl]
        · rw [Entries.find?_insert, if_neg apart.symm]
      | null | bool | int | float | str | list => exact nomatch (Prod.mk.inj answer).1
    · obtain ⟨_, _, thrown, _⟩ := failed
      exact nomatch thrown
  case sandbox =>
    intro policy inner host moved v w₁ receiver evaluates bound refused
    refine (Machine.evaluates_setProperty standard stores).2 ⟨.value v, w₁, evaluates, ?_⟩
    simp only [Machine.store, bound, host, Invoker.sandboxed_refused refused]

/-- The value of the one entry sets another entry of the same map, asks, and is restored in a new scope before
it is answered: both entries are there in the end. And where nothing is permitted nothing is set. -/
theorem entry_set_meanwhile_is_kept :
    let p : Program := ⟨#[.constant (.int 1), .setProperty "m" "a" 0 false, .yield 0, .sequence [1, 2],
      .setProperty "m" "b" 3 false], 4⟩
    let m : Machine Unit := p.machine (Invoker.builtin []).invoke
    let guarded : Machine Unit := p.machine ((Invoker.builtin []).sandboxed (.strict "nothing")).invoke
    let w : World Unit := ⟨Heap.empty.addScope none [("m", .map [])], ()⟩
    let x : Suspension := ⟨.int 1, [⟨.propertyStore, 0, .propertyStore "m" "b" false⟩]⟩
    let parked : World Unit := (m.run 12 w (.eval 3 0 x.k)).1
    let back : World Unit := (m.move ⟨parked, .parked x⟩ (.persist w.heap)).world
    let both : Value := .map [("a", .int 1), ("b", .int 2)]
    let w' : World Unit := ⟨back.heap.assign 1 "m" both, ()⟩
    m.table = .standard ∧ m.program.block? 4 = some (.setProperty "m" "b" 3 false) ∧
      m.Evaluates [] w (.eval 4 0 []) (x.moving parked.heap w.heap) (.value (.int 2)) w' ∧
      w'.heap.lookup 1 "m" = some both ∧
      (∃ (w₁ : World Unit) (entries : Entries Value), w₁.heap.lookup 1 "m" = some (.map entries) ∧
        w₁.heap.Rebinds 1 "m" (.map (entries.insert "b" (.int 2))) w'.heap) ∧
      guarded.Evaluates [] w (.eval 1 0 []) id
        (.thrown (Policy.rejection (.setProperty (.map []) "a" (.int 1)))) w := by
  intro p m guarded w x parked back both w'
  have restored : m.move ⟨parked, .parked x⟩ (.persist w.heap) =
      ⟨back, .parked ⟨x.request, x.k.map (Frame.moved (x.moving parked.heap w.heap))⟩⟩ := by
    simp only [back, Machine.move, Snapshot.restore_capture]
    rfl
  have asked : Standing.ofOutcome (m.run 12 w (.eval 3 0 x.k)).2 = .parked x := rfl
  have valued : m.Evaluates x.k w (.eval 3 0 x.k) (x.moving parked.heap w.heap) (.value (.int 2)) back := by
    refine .of_run (n := 12) ?quiet (congrArg Standing.current? asked) ?rest
    case quiet =>
      apply quiet_of_lengths
      decide +kernel
    case rest =>
      exact .restored restored (.answered .arrives)
  have there : x.moving parked.heap w.heap 0 = 1 := by
    decide +kernel
  have bound : back.heap.lookup 1 "m" = some (.map [("a", .int 1)]) := by
    rw [← there, Machine.lookup_restored restored (by decide +kernel) (List.mem_singleton_self _)]
    rfl
  obtain ⟨whole, _, builtin, _⟩ := property_assignment_is_whole m rfl (b := 4) rfl w 0 []
  have stored : m.Evaluates [] w (.eval 4 0 []) (x.moving parked.heap w.heap) (.value (.int 2)) w' := by
    refine (whole _ _ _).2 ⟨.value (.int 2), back, valued, ?_⟩
    rw [there]
    simp only [Machine.store, bound]
    rfl
  obtain ⟨w₁, entries, _, holds, rebinds, _⟩ := builtin [] rfl _ _ _ stored
  rw [there] at holds rebinds
  obtain ⟨_, _, _, sandbox⟩ := property_assignment_is_whole guarded rfl (b := 1) rfl w 0 []
  have one : guarded.Evaluates [⟨.propertyStore, 0, .propertyStore "m" "a" false⟩] w
      (.eval 0 0 [⟨.propertyStore, 0, .propertyStore "m" "a" false⟩]) id (.value (.int 1)) w :=
    .step Step.above_eval.notAt rfl .arrives
  have refused := sandbox (.strict "nothing") (.builtin []) rfl id (.int 1) w (.map []) one rfl rfl
  exact ⟨rfl, rfl, stored, (Heap.rebinds_assign bound both).lookup, ⟨w₁, entries, holds, rebinds⟩, refused⟩

end FlowScript
