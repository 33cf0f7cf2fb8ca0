import FlowScript.Snapshot

/-! Parking a run: a snapshot records every scope once and behind its parent, so that it can always be
restored, and the restored frames are the captured ones over copies of their scopes. -/
namespace FlowScript

namespace Recorded
variable {h : Heap} {r r' : Recorded} {e x : ScopeId} {i : Nat}

theorem place?_lt (placed : r.place? e = some i) : i < r.seen.size := by
  obtain ⟨lt, _⟩ := Array.findIdx?_eq_some_iff_getElem.1 placed
  exact lt

theorem place?_inj {a b : ScopeId} (left : r.place? a = some i) (right : r.place? b = some i) :
    a = b := by
  obtain ⟨lt, isA, _⟩ := Array.findIdx?_eq_some_iff_getElem.1 left
  obtain ⟨_, isB, _⟩ := Array.findIdx?_eq_some_iff_getElem.1 right
  exact (beq_iff_eq.1 isA).symm.trans (beq_iff_eq.1 isB)

@[simp] theorem place?_empty : Recorded.empty.place? e = none := by simp [place?, Recorded.empty]

theorem place?_add :
    (r.add h e).place? x = (r.place? x).or (if e = x then some r.seen.size else none) := by
  simp [place?, add, Array.findIdx?_push]

@[simp] theorem seen_size_add : (r.add h e).seen.size = r.seen.size + 1 := by simp [add]

/-- The places in the one stay in the other. -/
def Keeps (r r' : Recorded) : Prop := ∀ x i, r.place? x = some i → r'.place? x = some i

theorem Keeps.refl : Keeps r r := fun _ _ placed => placed

theorem Keeps.trans (first : Keeps r r') (second : Keeps r' r'') : Keeps r r'' :=
  fun x i placed => second x i (first x i placed)

theorem keeps_add : Keeps r (r.add h e) := by
  intro x i placed
  simp [place?_add, placed]

/-- The records say what the scopes hold, each behind the record of its parent. -/
structure Faithful (h : Heap) (r : Recorded) : Prop where
  sizes : r.records.size = r.seen.size
  record : ∀ e i, r.place? e = some i →
    r.records[i]? = some ⟨(h.parent? e).bind r.place?, h.locals e⟩
  parent : ∀ e i p, r.place? e = some i → h.parent? e = some p → ∃ j < i, r.place? p = some j
  onto : ∀ i < r.seen.size, ∃ e, r.place? e = some i

theorem Faithful.empty : Faithful h .empty where
  sizes := rfl
  record := by simp
  parent := by simp
  onto := by simp [Recorded.empty]

theorem Faithful.add (faithful : Faithful h r) (unplaced : r.place? e = none)
    (parent : ∀ p, h.parent? e = some p → ∃ j, r.place? p = some j) : Faithful h (r.add h e) := by
  have here : (r.add h e).place? e = some r.seen.size := by simp [place?_add, unplaced]
  have elsewhere : ∀ x i, x ≠ e → (r.add h e).place? x = some i → r.place? x = some i := by
    intro x i ne placed
    simpa [place?_add, Ne.symm ne] using placed
  have parents : ∀ x, (∀ p, h.parent? x = some p → ∃ j, r.place? p = some j) →
      (h.parent? x).bind (r.add h e).place? = (h.parent? x).bind r.place? := by
    intro x known
    cases above : h.parent? x with
    | none => rfl
    | some p =>
      obtain ⟨j, placed⟩ := known p above
      simp [placed, keeps_add _ _ placed]
  constructor
  · simp [Recorded.add, faithful.sizes]
  · intro x i placed
    by_cases same : x = e
    · subst same
      obtain rfl := Option.some.inj (here.symm.trans placed)
      rw [parents x parent]
      simp only [Recorded.add, Array.getElem?_push, faithful.sizes, if_true]
    · have old := elsewhere x i same placed
      rw [parents x fun p above => (faithful.parent x i p old above).imp fun _ => And.right]
      have ne : i ≠ r.records.size := faithful.sizes ▸ Nat.ne_of_lt (place?_lt old)
      simp only [Recorded.add, Array.getElem?_push, if_neg ne, faithful.record x i old]
  · intro x i p placed above
    by_cases same : x = e
    · subst same
      obtain rfl := Option.some.inj (here.symm.trans placed)
      obtain ⟨j, known⟩ := parent p above
      exact ⟨j, place?_lt known, keeps_add _ _ known⟩
    · obtain ⟨j, lt, known⟩ := faithful.parent x i p (elsewhere x i same placed) above
      exact ⟨j, lt, keeps_add _ _ known⟩
  · intro i lt
    rcases Nat.lt_succ_iff_lt_or_eq.1 (by simpa using lt) with old | rfl
    · obtain ⟨x, placed⟩ := faithful.onto i old
      exact ⟨x, keeps_add _ _ placed⟩
    · exact ⟨e, here⟩

/-- The scopes that recording one scope adds, ancestors first. -/
def fresh (h : Heap) (r : Recorded) (e : ScopeId) : List ScopeId :=
  ((h.chain e).takeWhile fun s => (r.place? s).isNone).reverse

theorem fresh_of_placed (placed : r.place? e = some i) : fresh h r e = [] := by
  rw [fresh, Heap.chain_eq]
  simp [placed]

theorem fresh_eq (unplaced : r.place? e = none) :
    fresh h r e = ((h.parent? e).map (fresh h r)).getD [] ++ [e] := by
  rw [fresh, Heap.chain_eq]
  cases above : h.parent? e <;> simp [unplaced, fresh]

theorem foldl_fresh (faithful : Faithful h r) (unplaced : r.place? e = none) :
    let r' := (fresh h r e).foldl (add h) r
    Faithful h r' ∧ Keeps r r' ∧ r'.place? e = some (r'.seen.size - 1) ∧
      ∀ x, e < x → r'.place? x = r.place? x := by
  induction e using Nat.strongRecOn with
  | _ e ih =>
    have last : ∀ r₁ : Recorded, Faithful h r₁ → Keeps r r₁ →
        (∀ p, h.parent? e = some p → ∃ j, r₁.place? p = some j) →
        (∀ x, e ≤ x → r₁.place? x = r.place? x) →
        Faithful h (r₁.add h e) ∧ Keeps r (r₁.add h e) ∧
          (r₁.add h e).place? e = some ((r₁.add h e).seen.size - 1) ∧
          ∀ x, e < x → (r₁.add h e).place? x = r.place? x := by
      intro r₁ faithful₁ keeps known above
      have still : r₁.place? e = none := (above e (Nat.le_refl e)).trans unplaced
      refine ⟨faithful₁.add still known, keeps.trans keeps_add, by simp [place?_add, still], ?_⟩
      intro x lt
      simp [place?_add, above x (Nat.le_of_lt lt), Nat.ne_of_lt lt]
    rw [fresh_eq unplaced]
    cases up : h.parent? e with
    | none => exact last r faithful .refl (by simp [up]) fun _ _ => rfl
    | some p =>
      have lt : p < e := Heap.parent?_lt up
      cases placed : r.place? p with
      | some j =>
        simp only [Option.map_some, Option.getD_some, fresh_of_placed placed]
        exact last r faithful .refl (by simp [up, placed]) fun _ _ => rfl
      | none =>
        obtain ⟨faithful₁, keeps, there, above⟩ := ih p lt placed
        simp only [Option.map_some, Option.getD_some, List.foldl_append, List.foldl_cons,
          List.foldl_nil]
        exact last _ faithful₁ keeps (by simp [up, there]) fun x le => above x (Nat.lt_of_lt_of_le lt le)

theorem intern_spec (faithful : Faithful h r) :
    Faithful h (intern h r e).2 ∧ Keeps r (intern h r e).2 ∧
      (intern h r e).2.place? e = some (intern h r e).1 ∧
      ∀ x, e < x → (intern h r e).2.place? x = r.place? x := by
  cases placed : r.place? e with
  | some n => simp [intern, placed, faithful, Keeps.refl]
  | none =>
    simp only [intern, placed]
    exact foldl_fresh faithful placed

/-- The number of a scope that is recorded. -/
def number (r : Recorded) (e : ScopeId) : Nat := (r.place? e).getD 0

/-- What is written of a frame. -/
def frame (r : Recorded) (f : Frame) : FrameRecord :=
  ⟨f.point.group.name, f.point.method, r.number f.scope, f.captured⟩

theorem ofFrames_spec {k : Continuation} (faithful : Faithful h r) :
    Faithful h (ofFrames h r k).2 ∧ Keeps r (ofFrames h r k).2 ∧
      (∀ f ∈ k, ∃ n, (ofFrames h r k).2.place? f.scope = some n) ∧
      (∀ x, (∀ f ∈ k, f.scope < x) → (ofFrames h r k).2.place? x = r.place? x) ∧
      (ofFrames h r k).1 = k.map (ofFrames h r k).2.frame := by
  induction k generalizing r with
  | nil => simp [ofFrames, faithful, Keeps.refl]
  | cons f k ih =>
    obtain ⟨faithful₁, keeps₁, there, above₁⟩ := intern_spec faithful (e := f.scope)
    obtain ⟨faithful₂, keeps₂, known, above₂, frames⟩ := ih faithful₁
    simp only [List.forall_mem_cons]
    refine ⟨faithful₂, keeps₁.trans keeps₂, ⟨⟨_, keeps₂ _ _ there⟩, known⟩, ?_, ?_⟩
    · rintro x ⟨first, others⟩
      exact (above₂ x others).trans (above₁ x first)
    · simp only [ofFrames, List.map_cons, frames]
      simp only [frame, number, keeps₂ _ _ there, Option.getD_some]

/-- The scopes of a suspension. -/
def ofSuspension (h : Heap) (x : Suspension) : Recorded := (ofFrames h .empty x.k).2

theorem ofSuspension_faithful (h : Heap) (x : Suspension) : Faithful h (ofSuspension h x) :=
  (ofFrames_spec .empty).1

theorem ofSuspension_place? {x : Suspension} (member : f ∈ x.k) :
    ∃ n, (ofSuspension h x).place? f.scope = some n :=
  (ofFrames_spec .empty).2.2.1 f member

theorem ofSuspension_lt {x : Suspension} (inside : ∀ f ∈ x.k, f.scope < bound)
    (placed : (ofSuspension h x).place? e = some i) : e < bound := by
  refine Nat.lt_of_not_le fun le => ?_
  have unplaced : (ofSuspension h x).place? e = Recorded.empty.place? e :=
    (ofFrames_spec .empty).2.2.2.1 e fun f member => Nat.lt_of_lt_of_le (inside f member) le
  simp [unplaced] at placed

theorem number_lt (faithful : Faithful h r) (placed : ∃ n, r.place? e = some n) :
    r.number e < r.records.toList.length := by
  obtain ⟨n, placed⟩ := placed
  simpa [number, placed, faithful.sizes] using place?_lt placed

/-- The copy of a frame over restored scopes, the first of which has the number `base`. -/
def relocate (r : Recorded) (base : ScopeId) (f : Frame) : Frame :=
  { f with scope := base + r.number f.scope }

end Recorded

namespace Snapshot

theorem capture_eq (h : Heap) (x : Suspension) :
    capture h x = ⟨x.request, (Recorded.ofSuspension h x).records.toList,
      x.k.map (Recorded.ofSuspension h x).frame⟩ := by
  show (⟨x.request, _, (Recorded.ofFrames h .empty x.k).1⟩ : Snapshot) = _
  rw [(Recorded.ofFrames_spec .empty).2.2.2.2]
  rfl

theorem resolve_standard (point : ResumePoint) :
    Table.standard.resolve point.group.name point.method = .ok point := by
  simp [Table.resolve, ResumePoint.ofNames?_names, Table.standard_contains]

theorem badParent?_records {r : Recorded} (faithful : r.Faithful h) :
    badParent? r.records.toList = none := by
  simp only [badParent?, List.findSome?_eq_none_iff, Prod.forall, List.mk_mem_zipIdx_iff_getElem?,
    Array.getElem?_toList, Option.map_eq_none_iff, Option.filter_eq_none_iff, decide_eq_true_eq]
  intro record i here p above le
  obtain ⟨lt, _⟩ := Array.getElem?_eq_some_iff.1 here
  obtain ⟨e, placed⟩ := faithful.onto i (faithful.sizes ▸ lt)
  obtain rfl := Option.some.inj (here.symm.trans (faithful.record e i placed))
  obtain ⟨q, up, there⟩ := Option.bind_eq_some_iff.1 above
  obtain ⟨j, before, known⟩ := faithful.parent e i q placed up
  obtain rfl := Option.some.inj (there.symm.trans known)
  exact Nat.not_lt.2 le before

theorem restoreFrames_frames {r : Recorded} (base : ScopeId) {k : Continuation}
    (inside : ∀ f ∈ k, r.number f.scope < count) :
    restoreFrames .standard base count (k.map r.frame) = .ok (k.map (r.relocate base)) := by
  induction k with
  | nil => rfl
  | cons f k ih =>
    simp only [List.forall_mem_cons] at inside
    simp [restoreFrames, ih inside.2, restoreFrame, Recorded.frame, resolve_standard, inside.1,
      Recorded.relocate, bind, Except.bind, pure, Except.pure]

/-- What was captured can be restored over every heap. -/
theorem restore_capture (h into : Heap) (x : Suspension) :
    (capture h x).restore .standard into =
      (addScopes into.next into (Recorded.ofSuspension h x).records.toList,
        .ok ⟨x.request, x.k.map ((Recorded.ofSuspension h x).relocate into.next)⟩) := by
  have faithful := Recorded.ofSuspension_faithful h x
  have inside : ∀ f ∈ x.k, (Recorded.ofSuspension h x).number f.scope <
      (Recorded.ofSuspension h x).records.toList.length :=
    fun f member => Recorded.number_lt faithful (Recorded.ofSuspension_place? member)
  simp only [restore, capture_eq, badParent?_records faithful, restoreFrames_frames _ inside]

end Snapshot
end FlowScript
