import FlowScript.Proofs.FrameRule
import FlowScript.Proofs.Heights

/-! Where names come to be bound. A block or a clause with a scope of its own declares there and in further
new scopes only, and an assignment goes to a scope that binds the name already or, if none does, to the end
of its chain; so all other scopes bind the names that they have bound. -/
namespace FlowScript

namespace Heap
variable {h h' h'' : Heap} {c e t x y : ScopeId} {name other : String} {v : Value}

/-! ### Chains -/

/-- The last scope of the chain. -/
def root (h : Heap) (e : ScopeId) : ScopeId := (h.chain e).getLastD e

theorem mem_chain_self (h : Heap) (e : ScopeId) : e ∈ h.chain e := by
  rw [chain_eq]
  exact List.mem_cons_self ..

theorem mem_chain_of_parent? {p : ScopeId} (up : h.parent? x = some p) (above : c ∈ h.chain p) :
    c ∈ h.chain x := by
  rw [chain_eq, up]
  exact List.mem_cons_of_mem x above

/-- What goes from each scope to its parent holds of all scopes of the chain. -/
theorem forall_mem_chain {P : ScopeId → Prop} (closed : ∀ x p, P x → h.parent? x = some p → P p)
    (start : P e) : ∀ x ∈ h.chain e, P x := by
  induction e using Nat.strongRecOn with
  | _ e ih =>
    rw [chain_eq]
    cases up : h.parent? e with
    | none => exact List.forall_mem_singleton.2 start
    | some p => exact List.forall_mem_cons.2 ⟨start, ih p (parent?_lt up) (closed e p start up)⟩

theorem le_of_mem_chain (member : x ∈ h.chain e) : x ≤ e :=
  forall_mem_chain (P := (· ≤ e))
    (fun _ _ le up => Nat.le_trans (Nat.le_of_lt (parent?_lt up)) le) (Nat.le_refl e) x member

theorem root_of_parent? {p : ScopeId} (up : h.parent? e = some p) : h.root e = h.root p := by
  rw [root, root, chain_eq h e, up, Option.map_some, Option.getD_some, List.getLastD_cons, chain_eq h p,
    List.getLastD_cons, List.getLastD_cons]

theorem root_of_parent?_none (top : h.parent? e = none) : h.root e = e := by
  rw [root, chain_eq, top]
  rfl

theorem root_mem_chain (h : Heap) (e : ScopeId) : h.root e ∈ h.chain e := by
  induction e using Nat.strongRecOn with
  | _ e ih =>
    cases up : h.parent? e with
    | none =>
      rw [root_of_parent?_none up]
      exact h.mem_chain_self e
    | some p =>
      rw [root_of_parent? up]
      exact mem_chain_of_parent? up (ih p (parent?_lt up))

theorem root_of_mem_chain (member : c ∈ h.chain x) : h.root x = h.root c := by
  induction x using Nat.strongRecOn with
  | _ x ih =>
    rw [chain_eq] at member
    cases up : h.parent? x with
    | none =>
      rw [up] at member
      rw [List.mem_singleton.1 member]
    | some p =>
      rw [up] at member
      rcases List.mem_cons.1 member with rfl | above
      · rfl
      · rw [root_of_parent? up]
        exact ih p (parent?_lt up) above

theorem chain_congr (parents : ∀ x ∈ h.chain e, h'.parent? x = h.parent? x) : h'.chain e = h.chain e := by
  induction e using Nat.strongRecOn with
  | _ e ih =>
    rw [chain_eq h', chain_eq h, parents e (h.mem_chain_self e)]
    cases up : h.parent? e with
    | none => rfl
    | some p =>
      have above := ih p (parent?_lt up) fun x member => parents x (mem_chain_of_parent? up member)
      simp only [Option.map_some, above]

theorem Wider.chain (wider : h.Wider h') (inside : e < h.next) : h'.chain e = h.chain e :=
  chain_congr fun x member => wider.parents x (Nat.lt_of_le_of_lt (le_of_mem_chain member) inside)

theorem Wider.root (wider : h.Wider h') (inside : e < h.next) : h'.root e = h.root e := by
  rw [Heap.root, Heap.root, wider.chain inside]

/-! ### Names -/

theorem binds_declare_here (inside : t < h.next) (name : String) (v : Value) :
    ((h.declare t name v).locals t).binds name = true := by
  rw [locals_declare inside, if_pos rfl]
  simp [Entries.binds]

theorem binds_declare_elsewhere (elsewhere : x ≠ t ∨ other ≠ name) :
    ((h.declare t name v).locals x).binds other = (h.locals x).binds other := by
  rw [Entries.binds, Entries.binds, find?_declare elsewhere]

theorem binds_child : ((h.child e).locals x).binds other = (h.locals x).binds other := by
  rw [Entries.binds, Entries.binds, find?_child]

/-- An assignment goes to a scope of the chain that binds the name, or to its end if none does. -/
theorem target_cases (h : Heap) (e : ScopeId) (name : String) :
    (h.target e name ∈ h.chain e ∧ (h.locals (h.target e name)).binds name = true) ∨
      (h.target e name = h.root e ∧ ∀ y ∈ h.chain e, (h.locals y).binds name = false) := by
  unfold target
  cases found : (h.chain e).find? fun s => (h.locals s).binds name with
  | some y => exact .inl ⟨List.mem_of_find?_eq_some found, by simpa using List.find?_some found⟩
  | none => exact .inr ⟨rfl, by simpa using found⟩

theorem lookup_isSome_iff :
    (h.lookup e name).isSome = true ↔ ∃ y ∈ h.chain e, (h.locals y).binds name = true := by
  rw [lookup, List.findSome?_isSome_iff]
  rfl

/-- All scopes are still there, each below its parent, and bind what they have bound. -/
structure Enlarges (h h' : Heap) : Prop extends h.Wider h' where
  binds : ∀ x name, (h.locals x).binds name = true → (h'.locals x).binds name = true

namespace Enlarges

theorem refl (h : Heap) : h.Enlarges h := ⟨.refl h, fun _ _ => id⟩

theorem trans (first : h.Enlarges h') (second : h'.Enlarges h'') : h.Enlarges h'' where
  toWider := first.toWider.trans second.toWider
  binds x name bound := second.binds x name (first.binds x name bound)

theorem declare (h : Heap) (t : ScopeId) (name : String) (v : Value) : h.Enlarges (h.declare t name v) where
  toWider := h.wider_declare t name v
  binds x other bound := by
    by_cases elsewhere : x ≠ t ∨ other ≠ name
    · rwa [binds_declare_elsewhere elsewhere]
    · obtain ⟨rfl, rfl⟩ : x = t ∧ other = name := by simpa [not_or] using elsewhere
      refine binds_declare_here (Nat.lt_of_not_le fun beyond => ?_) _ _
      rw [locals_of_next_le beyond] at bound
      exact nomatch bound

theorem child (h : Heap) (e : ScopeId) : h.Enlarges (h.child e) where
  toWider := h.wider_child e
  binds x other bound := by rwa [binds_child]

theorem ofExtends (extends_ : h.Extends h') : h.Enlarges h' where
  next_le := extends_.next_le
  parents := extends_.parents
  binds x other bound := by
    by_cases inside : x < h.next
    · rwa [extends_.locals x inside]
    · rw [locals_of_next_le (Nat.le_of_not_lt inside)] at bound
      exact nomatch bound

/-- What is visible stays visible. -/
theorem lookup (enlarges : h.Enlarges h') (visible : (h.lookup e name).isSome = true) :
    (h'.lookup e name).isSome = true := by
  obtain ⟨y, member, bound⟩ := lookup_isSome_iff.1 visible
  refine lookup_isSome_iff.2 ⟨y, ?_, enlarges.binds y name bound⟩
  by_cases inside : e < h.next
  · rwa [enlarges.chain inside]
  · -- A scope that is not there has itself only on its chain, and binds nothing.
    have top : h.parent? e = none := by simp [parent?, Array.getElem?_eq_none (Nat.le_of_not_lt inside)]
    rw [chain_eq, top] at member
    rw [List.mem_singleton.1 member, locals_of_next_le (Nat.le_of_not_lt inside)] at bound
    cases bound

end Enlarges
end Heap

/-! ### What a step binds -/

/-- The step assigns the name from a chain that ends at the root and does not bind it. -/
def Step.Founds (h : Heap) (s : Step) (root : ScopeId) (name : String) : Prop :=
  ∃ e v, s.assignment? = some (e, name, v) ∧ h.root e = root ∧
    ∀ y ∈ h.chain e, (h.locals y).binds name = false

namespace Footprint
variable {h : Heap} {e x : ScopeId} {r : Heap × Step}

theorem enlarges (print : Footprint h e assigned r) : h.Enlarges r.1 := by
  cases print with
  | declares | assigns => exact .declare h _ _ _
  | opens => exact .child h e
  | catches => exact .trans (.child h e) (.declare _ _ _ _)
  | signals | calls | callsFor | asks | evaluates | evaluatesFor => exact .refl h

/-- Of the scopes that are there, other than its own, a step founds a name at the end of the chain at most. -/
theorem binds {s : Step} (print : Footprint h e s.assignment? r) (old : x < h.next) (apart : x ≠ e)
    (name : String) :
    (r.1.locals x).binds name = (h.locals x).binds name ∨
      (r.1.locals x).binds name = true ∧ s.Founds h x name := by
  cases print with
  | signals | calls | callsFor | asks | evaluates | evaluatesFor => exact .inl rfl
  | declares => exact .inl (Heap.binds_declare_elsewhere (.inl apart))
  | opens => exact .inl Heap.binds_child
  | catches =>
    exact .inl ((Heap.binds_declare_elsewhere (.inl (Nat.ne_of_lt old))).trans Heap.binds_child)
  | @assigns target v _ assigns =>
    by_cases elsewhere : x ≠ h.target e target ∨ name ≠ target
    · exact .inl (Heap.binds_declare_elsewhere elsewhere)
    · obtain ⟨rfl, rfl⟩ : x = h.target e target ∧ name = target := by simpa [not_or] using elsewhere
      have bound : ((h.assign e name v).locals (h.target e name)).binds name = true :=
        Heap.binds_declare_here old name v
      rcases h.target_cases e name with ⟨_, before⟩ | ⟨ends, nowhere⟩
      · exact .inl (bound.trans before.symm)
      · exact .inr ⟨bound, e, v, assigns, ends.symm, nowhere⟩

end Footprint

theorem Nearby.scope {h : Heap} {r : Heap × Step} (near : Nearby h e r) (member : x ∈ r.2.scopes) :
    x = e ∨ r.1.parent? x = some e := by
  have frames : x ∈ r.2.rest.map Frame.scope → x = e ∨ r.1.parent? x = some e := by
    intro framed
    obtain ⟨f, here, rfl⟩ := List.mem_map.1 framed
    exact .inl (near.scopes f here)
  cases s : r.2 with
  | eval b y k =>
    rw [s] at member frames
    rcases List.mem_cons.1 member with rfl | framed
    · exact near.evaluates b x k s
    · exact frames framed
  | resume | invoke | yield =>
    rw [s] at member frames
    exact frames member

namespace Machine
variable {σ : Type} {m : Machine σ} {w w' w₁ : World σ} {s s' s₀ s₁ : Step}

theorem Acts.enlarges (acts : m.Acts w s w' s') : w.heap.Enlarges w'.heap := by
  rcases acts.footprint with ⟨same, _⟩ | ⟨e, _, r, print, heap, _⟩
  · rw [same]
    exact .refl _
  · rw [heap]
    exact print.enlarges

/-- A property of scopes that holds of those right below such as have it, and stays with a scope, goes from
the scopes of a step to those of the next one. -/
theorem Acts.scopes {P P' : ScopeId → Prop} (acts : m.Acts w s w' s')
    (inside : ∀ x ∈ s.scopes, x < w.heap.next) (holds : ∀ x ∈ s.scopes, P x) (stays : ∀ x, P x → P' x)
    (below : ∀ x p, P p → w'.heap.parent? x = some p → P' x) : ∀ x ∈ s'.scopes, P' x := by
  have kept : ∀ f ∈ s.below, P' f.scope :=
    fun f member => stays _ (holds _ (Step.mem_scopes_of_below member))
  rcases acts.footprint with ⟨_, signal, rfl⟩ | ⟨e, member, r, print, heap, rfl⟩
  · exact List.forall_mem_map.2 kept
  · rw [Step.scopes_onto]
    refine List.forall_mem_append.2 ⟨fun x own => ?_, List.forall_mem_map.2 kept⟩
    rcases (print.nearby (inside e member)).scope own with rfl | up
    · exact stays x (holds x member)
    · exact below x e (holds e member) (heap ▸ up)

end Machine

/-! ### Behind a block with a scope of its own -/

/-- The step enters a block or a clause that has a scope of its own below the scope; its signal goes to the
frames. -/
inductive Machine.Enters {σ : Type} (m : Machine σ) : Step → ScopeId → Continuation → Prop where
  | scope : m.program.block? b = some (.scope body) → Enters m (.eval b e k) e k
  | clause : clauses.find? (·.catches f) = some clause →
      Enters m (.resume (.thrown f) (⟨.guarded, e, .guarded clauses cleanup⟩ :: k)) e
        (⟨.handler, e, .handler cleanup⟩ :: k)

/-- A copy of the run is restored over a heap that still has all of its scopes. -/
def Stage.Spares (st : Stage σ) (mv : Move) : Prop := ∀ into, mv = .persist into → st.world.heap.Extends into

/-- The scopes of the one heap bind the same names in the other, but that the root may have got further ones,
which the steps have founded. -/
structure NamesKept (steps : List (World σ × Step)) (root : ScopeId) (h h' : Heap) : Prop where
  wider : h.Wider h'
  others : ∀ x < h.next, x ≠ root → ∀ name, (h'.locals x).binds name = (h.locals x).binds name
  kept : ∀ name, (h.locals root).binds name = true → (h'.locals root).binds name = true
  gained : ∀ name, (h'.locals root).binds name = true →
    (h.locals root).binds name = true ∨ ∃ taken ∈ steps, taken.2.Founds taken.1.heap root name

/-- The scope is new, and its chain ends at the root or in a new scope. -/
structure Secluded (bound root : ScopeId) (h : Heap) (x : ScopeId) : Prop where
  new : bound ≤ x
  inside : x < h.next
  ends : h.root x = root ∨ bound ≤ h.root x

/-- But for so many frames at the end, the step holds scopes with the property only. -/
def Step.Encloses (frames : Nat) (P : ScopeId → Prop) (s : Step) : Prop :=
  ∃ (inner : Step) (base : Continuation), s = inner.onto base ∧ base.length = frames ∧ ∀ x ∈ inner.scopes, P x

/-- What holds of each step behind a block with a scope of its own. -/
structure Shielded (steps : List (World σ × Step)) (frames : Nat) (root : ScopeId) (h : Heap) (w : World σ)
    (s : Step) : Prop where
  encloses : s.Encloses frames (Secluded h.next root w.heap)
  names : NamesKept steps root h w.heap

theorem Secluded.wider (secluded : Secluded bound root h x) (wider : h.Wider h') :
    Secluded bound root h' x where
  new := secluded.new
  inside := Nat.lt_of_lt_of_le secluded.inside wider.next_le
  ends := by
    rw [wider.root secluded.inside]
    exact secluded.ends

theorem Secluded.below (secluded : Secluded bound root h p) (wider : h.Wider h')
    (up : h'.parent? x = some p) : Secluded bound root h' x where
  new := Nat.le_trans secluded.new (Nat.le_of_lt (Heap.parent?_lt up))
  inside := Heap.lt_next_of_parent? up
  ends := by
    rw [Heap.root_of_parent? up]
    exact (secluded.wider wider).ends

/-- A frame that assigns goes on with a value. -/
theorem Frame.resume_assignment {f : Frame} (assigns : f.assignment? s = some (e, name, v))
    (k : Continuation) :
    ∃ value, s.isThrown = false ∧ f.resume s k = .ok fun h => (h.assign e name v, .value value k) := by
  obtain ⟨point, x, captured⟩ := f
  simp only [assignment?] at assigns
  split at assigns
  · cases assigns
    exact ⟨_, rfl, rfl⟩
  · cases assigns
    exact ⟨_, rfl, rfl⟩
  · exact nomatch assigns

namespace Step

theorem assignment?_onto {s : Step} (assigns : s.assignment? = some a) : (s.onto k).assignment? = some a := by
  cases s with
  | resume signal k' =>
    cases k' with
    | nil => exact nomatch assigns
    | cons f k' => exact assigns
  | eval | invoke | yield => exact nomatch assigns

theorem Founds.onto {s : Step} (founds : s.Founds h root name) (k : Continuation) :
    (s.onto k).Founds h root name := by
  obtain ⟨e, v, assigns, ends, nowhere⟩ := founds
  exact ⟨e, v, assignment?_onto assigns, ends, nowhere⟩

/-- A frame assigns from its own scope. -/
theorem mem_scopes_of_assignment? {s : Step} (assigns : s.assignment? = some (e, name, v)) :
    e ∈ s.scopes := by
  cases s with
  | resume signal k =>
    cases k with
    | nil => exact nomatch assigns
    | cons f k =>
      have here : e = f.scope := by
        simp only [assignment?, Frame.assignment?] at assigns
        split at assigns <;> cases assigns <;> rfl
      rw [here]
      exact List.mem_cons_self ..
  | eval | invoke | yield => exact nomatch assigns

end Step

namespace NamesKept
variable {σ : Type} {m : Machine σ} {w w' : World σ} {s s' : Step} {steps : List (World σ × Step)}
  {root : ScopeId} {h h' h'' : Heap}

/-- A step that holds new scopes only keeps the names of the old ones. -/
theorem acts (names : NamesKept steps root h w.heap) (old : root < h.next)
    (secluded : ∀ x ∈ s.scopes, Secluded h.next root w.heap x) (taken : (w, s.onto base) ∈ steps)
    (acts : m.Acts w s w' s') : NamesKept steps root h w'.heap := by
  rcases acts.footprint with ⟨same, _⟩ | ⟨e, member, r, print, heap, _⟩
  · rwa [same]
  · rw [heap]
    have binds : ∀ x < h.next, ∀ name,
        (r.1.locals x).binds name = (w.heap.locals x).binds name ∨
          (r.1.locals x).binds name = true ∧ s.Founds w.heap x name := by
      intro x lt name
      have apart : x ≠ e := Nat.ne_of_lt (Nat.lt_of_lt_of_le lt (secluded e member).new)
      exact print.binds (Nat.lt_of_lt_of_le lt names.wider.next_le) apart name
    constructor
    · exact names.wider.trans print.wider
    · intro x lt apart name
      rcases binds x lt name with same | ⟨_, e', v, assigns, ends, _⟩
      · exact same.trans (names.others x lt apart name)
      · rcases (secluded e' (Step.mem_scopes_of_assignment? assigns)).ends with at_root | new
        · exact absurd (ends.symm.trans at_root) apart
        · exact absurd (ends ▸ new) (Nat.not_le_of_lt lt)
    · exact fun name bound => print.enlarges.binds root name (names.kept name bound)
    · intro name bound
      rcases binds root old name with same | ⟨_, founds⟩
      · exact names.gained name (same ▸ bound)
      · exact .inr ⟨_, taken, founds.onto base⟩

theorem extends_ (names : NamesKept steps root h h') (old : root < h.next) (larger : h'.Extends h'') :
    NamesKept steps root h h'' := by
  have same : ∀ x < h.next, h''.locals x = h'.locals x :=
    fun x lt => larger.locals x (Nat.lt_of_lt_of_le lt names.wider.next_le)
  constructor
  · exact names.wider.trans (Heap.Enlarges.ofExtends larger).toWider
  · intro x lt apart name
    rw [same x lt]
    exact names.others x lt apart name
  · intro name bound
    rw [same root old]
    exact names.kept name bound
  · intro name bound
    rw [same root old] at bound
    exact names.gained name bound

end NamesKept

namespace Snapshot
variable {records : List ScopeRecord} {h : Heap} {p x : ScopeId}

theorem extends_addScopes (base : ScopeId) (h : Heap) (records : List ScopeRecord) :
    h.Extends (addScopes base h records) where
  next_le := by simp
  parents _ old := (addScopes_old base records old).1
  locals _ old := (addScopes_old base records old).2

/-- Restored scopes have restored parents. -/
theorem base_le_parent (new : h.next ≤ x) (up : (addScopes base h records).parent? x = some p) :
    base ≤ p := by
  induction records using List.reverseRecOn with
  | nil => exact absurd (Heap.lt_next_of_parent? up) (Nat.not_lt_of_le new)
  | append_singleton records last ih =>
    rw [addScopes_concat, Heap.parent?_addScope] at up
    split at up
    · obtain ⟨named, _⟩ := Option.filter_eq_some_iff.1 up
      obtain ⟨q, _, rfl⟩ := Option.map_eq_some_iff.1 named
      exact Nat.le_add_right base q
    · exact ih up

/-- The scopes of a restored run are new, and so are their roots. -/
theorem secluded_relocate {x : Suspension} {h into : Heap} (member : f ∈ x.k) (new : bound ≤ into.next) :
    Secluded bound root (addScopes into.next into (Recorded.ofSuspension h x).records.toList)
      ((Recorded.ofSuspension h x).relocate into.next f).scope := by
  have faithful := Recorded.ofSuspension_faithful h x
  have number := Recorded.number_lt faithful (Recorded.ofSuspension_place? member)
  have base : into.next ≤ ((Recorded.ofSuspension h x).relocate into.next f).scope := Nat.le_add_right _ _
  refine ⟨Nat.le_trans new base, ?_, .inr (Nat.le_trans new ?_)⟩
  · rw [next_addScopes]
    exact Nat.add_lt_add_left number _
  · exact Heap.forall_mem_chain (fun _ _ above up => base_le_parent above up) base _ (Heap.root_mem_chain _ _)

end Snapshot

namespace Machine
variable {σ : Type} {m : Machine σ} {w w' w₁ : World σ} {s s' s₀ s₁ : Step}

/-- A block or a clause with a scope of its own is evaluated in a new scope, and no other scope is written. -/
theorem Enters.step (enters : m.Enters s₀ e base) (step : m.step w s₀ = (w₁, .next s₁)) :
    w.heap.Extends w₁.heap ∧ (w.heap.child e).Wider w₁.heap ∧ ∃ body, s₁ = .eval body w.heap.next base := by
  cases enters with
  | scope found =>
    simp only [Machine.step, Program.evaluate, found, Block.evaluate, Prod.mk.injEq, Turn.next.injEq] at step
    obtain ⟨rfl, rfl⟩ := step
    exact ⟨.addScope _ _ _, .refl _, _, rfl⟩
  | clause found =>
    cases leads_of_step step with
    | passed _ passes => cases passes
    | resumed resumed =>
      cases resumed
      simp only [Frame.catchFailure, found]
      exact ⟨.declare_child _ _ _ _, Heap.wider_declare _ _ _ _, _, rfl⟩

theorem step_under {k : Continuation} (above : s.NotAt []) (step : m.step w (s.onto k) = (w', .next s')) :
    ∃ s₁, m.step w s = (w', .next s₁) ∧ s' = s₁.onto k := by
  rw [step_onto above] at step
  rcases alone : m.step w s with ⟨w₁, s₁ | outcome⟩
  · rw [alone] at step
    obtain ⟨rfl, same⟩ := Prod.mk.inj step
    exact ⟨s₁, rfl, (Turn.next.inj same).symm⟩
  · rw [alone] at step
    cases outcome <;> exact nomatch (Prod.mk.inj step).2

theorem notAt_of_signalsTo {k : Continuation} (quiet : (s.onto k).signalsTo k.length = false) :
    s.NotAt [] := by
  rintro signal rfl
  simp [Step.onto, Step.signalsTo] at quiet

end Machine

namespace Shielded
variable {σ : Type} {m : Machine σ} {w w' : World σ} {s s' : Step} {steps : List (World σ × Step)}
  {root : ScopeId} {h : Heap}

theorem step (shielded : Shielded steps frames root h w s) (old : root < h.next) (taken : (w, s) ∈ steps)
    (quiet : s.signalsTo frames = false) (step : m.step w s = (w', .next s')) :
    Shielded steps frames root h w' s' := by
  obtain ⟨⟨inner, base, rfl, rfl, secluded⟩, names⟩ := shielded
  obtain ⟨s₁, alone, rfl⟩ := Machine.step_under (Machine.notAt_of_signalsTo quiet) step
  have acts := (Machine.leads_of_step alone).acts
  refine ⟨⟨s₁, base, rfl, rfl, ?_⟩, names.acts old secluded taken acts⟩
  exact acts.scopes (fun x member => (secluded x member).inside) secluded
    (fun x before => before.wider acts.enlarges.toWider)
    (fun x p before up => before.below acts.enlarges.toWider up)

theorem answered (shielded : Shielded steps frames root h w (.yield request k)) (signal : Signal) :
    Shielded steps frames root h w (.resume signal k) := by
  obtain ⟨⟨inner, base, same, length, secluded⟩, names⟩ := shielded
  cases inner with
  | yield request' own =>
    obtain ⟨rfl, rfl⟩ := Step.yield.inj same
    exact ⟨⟨.resume signal own, base, rfl, length, secluded⟩, names⟩
  | eval | resume | invoke => exact nomatch same

theorem restored (shielded : Shielded steps frames root h w (.yield x.request x.k)) (old : root < h.next)
    (spared : w.heap.Extends into) :
    Stage.Holds (Shielded steps frames root h) (m.move ⟨w, .parked x⟩ (.persist into)) := by
  obtain ⟨⟨inner, base, same, length, secluded⟩, names⟩ := shielded
  cases inner with
  | yield request own =>
    obtain ⟨_, frames⟩ := Step.yield.inj same
    let moved := (Recorded.ofSuspension w.heap x).relocate into.next
    simp only [Machine.move, Snapshot.restore_capture]
    refine ⟨.yield x.request (x.k.map moved), ⟨?_, ?_⟩, rfl⟩
    · refine ⟨.yield x.request (own.map moved), base.map moved, ?_, by simpa using length, ?_⟩
      · simp [Step.onto, frames]
      · refine List.forall_mem_map.2 (List.forall_mem_map.2 fun f member => ?_)
        have here : f ∈ x.k := frames ▸ List.mem_append_left base member
        exact Snapshot.secluded_relocate here (Nat.le_trans names.wider.next_le spared.next_le)
    · exact (names.extends_ old spared).extends_ old (Snapshot.extends_addScopes _ _ _)
  | eval | resume | invoke => cases same

end Shielded

namespace Machine
variable {σ : Type} {m : Machine σ} {w w₁ : World σ} {s s₀ s₁ : Step}

/-- Names are kept by all that a block or a clause with a scope of its own leads to. -/
theorem Enters.journey (enters : m.Enters s₀ e base) (inside : e < w.heap.next)
    (step : m.step w s₀ = (w₁, .next s₁)) (along : m.Along Stage.Spares ⟨w₁, .running s₁⟩ moves)
    (quiet : ∀ taken ∈ m.journey ⟨w₁, .running s₁⟩ moves, taken.2.signalsTo base.length = false) :
    NamesKept (m.journey ⟨w₁, .running s₁⟩ moves) (w.heap.root e) w.heap
      (m.after ⟨w₁, .running s₁⟩ moves).world.heap := by
  let steps := m.journey ⟨w₁, .running s₁⟩ moves
  let root := w.heap.root e
  let I := Shielded steps base.length root w.heap
  have old : root < w.heap.next := Nat.lt_of_le_of_lt (Heap.le_of_mem_chain (w.heap.root_mem_chain e)) inside
  obtain ⟨larger, wider, body, rfl⟩ := enters.step step
  have first : I w₁ (.eval body w.heap.next base) := by
    have up : w₁.heap.parent? w.heap.next = some e := by
      rw [wider.parents _ (by simp [Heap.child])]
      exact Heap.parent?_child inside
    have secluded : Secluded w.heap.next root w₁.heap w.heap.next := by
      refine ⟨Nat.le_refl _, Heap.lt_next_of_parent? up, .inl ?_⟩
      rw [Heap.root_of_parent? up]
      exact (Heap.Enlarges.ofExtends larger).root inside
    refine ⟨⟨.eval body w.heap.next [], base, rfl, rfl, by simpa [Step.scopes] using secluded⟩, ?_⟩
    exact NamesKept.extends_ ⟨.refl _, fun _ _ _ _ => rfl, fun _ => id, fun _ => .inl⟩ old larger
  have start : Stage.Holds I ⟨w₁, .running (.eval body w.heap.next base)⟩ := ⟨_, first, rfl⟩
  have given : ∀ taken ∈ steps, taken ∈ steps ∧ taken.2.signalsTo base.length = false :=
    fun taken member => ⟨member, quiet taken member⟩
  have holds := journey_invariant (I := I)
    (fun _ _ _ _ given shielded step => shielded.step old given.1 given.2 step)
    (fun _ _ _ signal shielded => shielded.answered signal)
    (fun _ _ into spares shielded => shielded.restored old (spares into rfl)) start along given
  obtain ⟨_, s, shielded, _⟩ := holds
  exact shielded.names

/-- Every scope of a run descends from the one that it has started in. -/
theorem opening_descends {e : ScopeId} (inside : e < w.heap.next) (play : ∀ mv ∈ moves, mv.plays = true) :
    let I (w' : World σ) (s : Step) : Prop :=
      w.heap.Wider w'.heap ∧ ∀ x ∈ s.scopes, x < w'.heap.next ∧ e ∈ w'.heap.chain x
    (∀ taken ∈ m.journey (m.opening w e) moves, I taken.1 taken.2) ∧
      (m.after (m.opening w e) moves).Holds I := by
  intro I
  have first : I w (m.start e) :=
    ⟨.refl _, List.forall_mem_singleton.2 ⟨inside, w.heap.mem_chain_self e⟩⟩
  have along : m.Along (fun _ mv => mv.plays = true) (m.opening w e) moves :=
    along_of_forall fun mv member _ => play mv member
  have given : ∀ taken ∈ m.journey (m.opening w e) moves, True := fun _ _ => trivial
  refine journey_invariant ?_ (fun _ _ _ _ => id) (fun _ _ _ plays => nomatch plays) ⟨_, first, rfl⟩
    along given
  rintro w₂ s₂ w₃ s₃ - ⟨wider, descend⟩ step
  have acts := (leads_of_step step).acts
  have larger := acts.enlarges.toWider
  refine ⟨wider.trans larger, acts.scopes (fun x member => (descend x member).1) descend ?_ ?_⟩
  · rintro x ⟨lt, above⟩
    exact ⟨Nat.lt_of_lt_of_le lt larger.next_le, by rwa [larger.chain lt]⟩
  · rintro x p ⟨lt, above⟩ up
    refine ⟨Heap.lt_next_of_parent? up, Heap.mem_chain_of_parent? up ?_⟩
    rwa [larger.chain lt]

/-- What a scope sees it goes on seeing. -/
theorem after_enlarges {st : Stage σ} (along : m.Along Stage.Spares st moves) :
    st.world.heap.Enlarges (m.after st moves).world.heap := by
  induction moves generalizing st with
  | nil => exact .refl _
  | cons mv moves ih =>
    refine .trans ?_ (ih along.2)
    obtain ⟨w, standing⟩ := st
    match mv, standing with
    | .slice budget, .running s =>
      obtain ⟨s', enlarges, _⟩ := run_invariant (m := m) (I := fun w' _ => w.heap.Enlarges w'.heap)
        (fun _ _ _ _ before step => before.trans (leads_of_step step).acts.enlarges) budget (s := s) (.refl _)
      exact enlarges
    | .persist into, .parked x =>
      have spared : w.heap.Extends into := along.1 into rfl
      simp only [move, Snapshot.restore_capture]
      exact .trans (.ofExtends spared) (.ofExtends (Snapshot.extends_addScopes _ _ _))
    | .answer _, .parked _ | .slice _, .parked _ | .slice _, .ended _ | .answer _, .running _
    | .answer _, .ended _ | .persist _, .running _ | .persist _, .ended _ => exact .refl _

/-- An assignment is done. -/
theorem step_assignment (standard : m.table = .standard) (assigns : s.assignment? = some (e, name, v)) :
    ∃ turn, m.step w s = (⟨w.heap.assign e name v, w.host⟩, turn) := by
  cases s with
  | resume signal k =>
    cases k with
    | nil => exact nomatch assigns
    | cons f k =>
      obtain ⟨value, plain, resumed⟩ := Frame.resume_assignment assigns k
      exact ⟨_, step_resumed standard (fun thrown => nomatch plain.symm.trans thrown) resumed⟩
  | eval | invoke | yield => exact nomatch assigns

end Machine

theorem Standing.At.current {standing : Standing} (here : standing.At s)
    (current : standing.current? = some s') : s' = s := by
  cases standing with
  | running | parked =>
    obtain rfl := Option.some.inj current
    exact here.symm ▸ rfl
  | ended => exact nomatch current

/-- Names are bound in the blocks that bind them. A block or a clause with a scope of its own, and all that it
leads to until its signal comes to the frames behind it, leaves every scope that was there before with the
names that it bound; only the end of the chain may have got others, each by an assignment of a name that no
scope bound on the chain from which it was assigned. The host may answer requests and restore copies of the
run beside it. Every scope that a run holds descends from the one that it has started in. So what a script
assigns without having declared it comes into its root scope. And what is visible from a scope stays visible
from it. -/
theorem names_stay_in_their_scopes (m : Machine σ) :
    (∀ w w₁ s₀ s₁ e base moves, m.Enters s₀ e base → e < w.heap.next → m.step w s₀ = (w₁, .next s₁) →
      m.Along Stage.Spares ⟨w₁, .running s₁⟩ moves →
      (∀ taken ∈ m.journey ⟨w₁, .running s₁⟩ moves, taken.2.signalsTo base.length = false) →
      NamesKept (m.journey ⟨w₁, .running s₁⟩ moves) (w.heap.root e) w.heap
        (m.after ⟨w₁, .running s₁⟩ moves).world.heap) ∧
    (∀ (w : World σ) e moves, e < w.heap.next → (∀ mv ∈ moves, mv.plays = true) →
      (∀ taken ∈ m.journey (m.opening w e) moves, ∀ x ∈ taken.2.scopes, e ∈ taken.1.heap.chain x) ∧
        ∀ s, (m.after (m.opening w e) moves).standing.current? = some s →
          ∀ x ∈ s.scopes, e ∈ (m.after (m.opening w e) moves).world.heap.chain x) ∧
    (m.table = .standard → ∀ (script : Script) (w : World σ) moves, script.Own w.heap →
      (∀ mv ∈ moves, mv.plays = true) →
      ∀ taken ∈ m.journey (m.opening w script.fields) moves, ∀ x name v,
        taken.2.assignment? = some (x, name, v) →
        (∀ y ∈ taken.1.heap.chain x, (taken.1.heap.locals y).binds name = false) →
        ∃ turn, m.step taken.1 taken.2 = (⟨taken.1.heap.declare script.binding name v, taken.1.host⟩, turn)) ∧
    ∀ st moves, m.Along Stage.Spares st moves → ∀ x name, (st.world.heap.lookup x name).isSome = true →
      ((m.after st moves).world.heap.lookup x name).isSome = true := by
  refine ⟨?blocks, ?descends, ?undeclared, ?visible⟩
  case blocks =>
    intro w w₁ s₀ s₁ e base moves enters inside step along quiet
    exact enters.journey inside step along quiet
  case descends =>
    intro w e moves inside play
    obtain ⟨steps, s, ⟨_, descend⟩, here⟩ := Machine.opening_descends (m := m) inside play
    refine ⟨fun taken member x held => ((steps taken member).2 x held).2, fun s' current x held => ?_⟩
    obtain rfl := here.current current
    exact (descend x held).2
  case undeclared =>
    intro standard script w moves own play taken member x name v assigns nowhere
    obtain ⟨wider, descend⟩ := (Machine.opening_descends own.inside play).1 taken member
    obtain ⟨_, above⟩ := descend x (Step.mem_scopes_of_assignment? assigns)
    have ends : taken.1.heap.root x = script.binding := by
      have top : script.binding < w.heap.next := Nat.lt_trans own.lt own.inside
      rw [Heap.root_of_mem_chain above, Heap.root_of_parent? ((wider.parents _ own.inside).trans own.below),
        Heap.root_of_parent?_none ((wider.parents _ top).trans own.root)]
    rcases taken.1.heap.target_cases x name with ⟨there, bound⟩ | ⟨target, _⟩
    · rw [nowhere _ there] at bound
      exact nomatch bound
    · obtain ⟨turn, step⟩ := Machine.step_assignment (w := taken.1) standard assigns
      rw [Heap.assign, target, ends] at step
      exact ⟨turn, step⟩
  case visible =>
    intro st moves along x name visible
    exact (Machine.after_enlarges along).lookup visible

/-- A failure is caught by a clause with a block in a scope of its own, which declares a name, waits for an
answer in a restored copy too, and assigns a name that nobody has declared. -/
theorem clause_keeps_names :
    let p : Program := ⟨#[.constant (.str "lost"), .declare "here" (some 0), .yield 0, .assign "fresh" 2,
      .sequence [1, 3], .scope 4, .throw 0, .tryCatch 6 [⟨none, "e", 5⟩] none], 7⟩
    let w : World Unit := ⟨(Heap.empty.addScope none []).addScope (some 0) [], ()⟩
    let script : Script := ⟨"script", p, 0, 1, none⟩
    let m : Machine Unit := script.machine fun _ u => (.ok .null, u)
    let f : Failure := .plain Failure.thrownKind "lost"
    let s₀ : Step := .resume (.thrown f) [⟨.guarded, 1, .guarded [⟨none, "e", 5⟩] none⟩]
    let s₁ : Step := .eval 5 2 [⟨.handler, 1, .handler none⟩]
    let w₁ : World Unit := ⟨(w.heap.child 1).declare 2 "e" f.toValue, ()⟩
    let play : List Move := [.slice 20, .answer (.value .null), .slice 1]
    let parked : Stage Unit := m.move ⟨w₁, .running s₁⟩ (.slice 20)
    let moves : List Move := .slice 20 :: .persist parked.world.heap :: play.tail
    m.step w s₀ = (w₁, .next s₁) ∧
      NamesKept (m.journey ⟨w₁, .running s₁⟩ moves) 0 w.heap (m.after ⟨w₁, .running s₁⟩ moves).world.heap ∧
      ((m.after ⟨w₁, .running s₁⟩ moves).world.heap.lookup 2 "e").isSome = true ∧
      (∀ taken ∈ m.journey (m.opening w 1) play, ∀ x ∈ taken.2.scopes, 1 ∈ taken.1.heap.chain x) ∧
      ∃ taken ∈ m.journey (m.opening w 1) play, ∃ x v turn, taken.2.assignment? = some (x, "fresh", v) ∧
        m.step taken.1 taken.2 = (⟨taken.1.heap.declare 0 "fresh" v, taken.1.host⟩, turn) := by
  intro p w script m f s₀ s₁ w₁ play parked moves
  obtain ⟨blocks, descends, undeclared, visible⟩ := names_stay_in_their_scopes m
  have along : m.Along Stage.Spares ⟨w₁, .running s₁⟩ moves := by
    refine ⟨nofun, ?_, nofun, nofun, trivial⟩
    rintro _ ⟨⟩
    exact .refl _
  have quiet : ∀ taken ∈ m.journey ⟨w₁, .running s₁⟩ moves, taken.2.signalsTo 1 = false := by
    have all : (m.journey ⟨w₁, .running s₁⟩ moves).all (!·.2.signalsTo 1) = true := by decide +kernel
    simpa using all
  have own : script.Own w.heap := ⟨by decide, rfl, rfl⟩
  have founds : (m.journey (m.opening w 1) play).any (fun taken =>
      taken.2.assignment?.any fun (x, name, _) => name == "fresh" &&
        (taken.1.heap.chain x).all fun y => !(taken.1.heap.locals y).binds "fresh") = true := by
    decide +kernel
  obtain ⟨taken, member, assigns⟩ := List.any_eq_true.1 founds
  obtain ⟨⟨x, name, v⟩, assigns, fresh⟩ := (Option.any_eq_true ..).1 assigns
  obtain ⟨rfl, nowhere⟩ : name = "fresh" ∧
      ∀ y ∈ taken.1.heap.chain x, (taken.1.heap.locals y).binds "fresh" = false := by
    simpa using fresh
  obtain ⟨turn, step⟩ := undeclared rfl script w play own (by decide) taken member x "fresh" v assigns nowhere
  refine ⟨rfl, blocks w w₁ s₀ s₁ 1 _ moves (.clause rfl) (by decide) rfl along quiet, ?_, ?_, ?_⟩
  · exact visible ⟨w₁, .running s₁⟩ moves along 2 "e" (by decide +kernel)
  · exact (descends w 1 play (by decide) (by decide)).1
  · exact ⟨taken, member, x, v, turn, assigns, step⟩

end FlowScript
