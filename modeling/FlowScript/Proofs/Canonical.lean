import FlowScript.Proofs.Copies

/-! Snapshots in one form. What is written of a run depends only on which of its frames and scopes belong
together: scopes stand at their first use, behind their ancestors, and each stands there once. Restoring
a snapshot takes in all that is well formed, and writing it out again brings it into this form. -/

namespace List
variable {α β : Type} [BEq α] [LawfulBEq α] [BEq β] [LawfulBEq β] {l : List α} {a : α}

theorem eraseDups_concat (l : List α) (a : α) :
    (l ++ [a]).eraseDups = if a ∈ l then l.eraseDups else l.eraseDups ++ [a] := by
  rw [eraseDups_append]
  split
  · next known => simp [removeAll, known]
  · next new =>
    simp only [removeAll, elem_eq_mem, new, decide_false, Bool.not_false, filter_cons_of_pos, filter_nil]
    rfl

theorem eraseDups_append_of_subset {l' : List α} (known : ∀ a ∈ l', a ∈ l) :
    (l ++ l').eraseDups = l.eraseDups := by
  have nothing : l'.removeAll l = [] := filter_eq_nil_iff.2 fun a member => by simp [known a member]
  rw [eraseDups_append, nothing, eraseDups_nil, append_nil]

theorem nodup_eraseDups (l : List α) : l.eraseDups.Nodup := by
  induction l using reverseRecOn with
  | nil => exact nodup_nil
  | append_singleton l a ih =>
    rw [eraseDups_concat]
    split
    · exact ih
    · next new =>
      refine nodup_append.2 ⟨ih, pairwise_singleton _ a, fun b member c here same => new ?_⟩
      exact mem_singleton.1 here ▸ same ▸ mem_eraseDups.1 member

theorem eraseDups_map {f : α → β} (injective : ∀ a ∈ l, ∀ b ∈ l, f a = f b → a = b) :
    (l.map f).eraseDups = l.eraseDups.map f := by
  induction l using reverseRecOn with
  | nil => rfl
  | append_singleton l a ih =>
    have here := ih fun a left b right => injective a (mem_append_left _ left) b (mem_append_left _ right)
    have same : f a ∈ l.map f ↔ a ∈ l := by
      refine ⟨fun member => ?_, mem_map_of_mem⟩
      obtain ⟨b, there, eq⟩ := mem_map.1 member
      exact injective b (by simp [there]) a (by simp) eq ▸ there
    rw [map_append, map_singleton, eraseDups_concat, eraseDups_concat]
    simp only [same, here]
    split <;> simp

theorem idxOf_map {f : α → β} (injective : ∀ b ∈ l, f b = f a → b = a) :
    (l.map f).idxOf (f a) = l.idxOf a := by
  induction l with
  | nil => rfl
  | cons b l ih =>
    obtain ⟨here, others⟩ := forall_mem_cons.1 injective
    have same : (f b == f a) = (b == a) := Bool.eq_iff_iff.2 (by simpa using ⟨here, congrArg f⟩)
    rw [map_cons, idxOf_cons, idxOf_cons, ih others, same]

end List

namespace FlowScript

namespace Heap
variable {h : Heap} {a e p : ScopeId}

/-- The scope behind its ancestors, the root first. -/
def lineage (h : Heap) (e : ScopeId) : List ScopeId := (h.chain e).reverse

/-- The scopes of the frames in the order of their first use, each behind its ancestors. -/
def used (h : Heap) (k : Continuation) : List ScopeId := (k.flatMap fun f => h.lineage f.scope).eraseDups

theorem lineage_eq (h : Heap) (e : ScopeId) :
    h.lineage e = ((h.parent? e).map h.lineage).getD [] ++ [e] := by
  rw [lineage, chain_eq]
  cases h.parent? e <;> simp [lineage]

theorem mem_lineage_self (h : Heap) (e : ScopeId) : e ∈ h.lineage e := by
  rw [lineage_eq]
  exact List.mem_append_right _ (List.mem_singleton_self e)

theorem le_of_mem_lineage (member : a ∈ h.lineage e) : a ≤ e := by
  induction e using Nat.strongRecOn with
  | _ e ih =>
    rw [lineage_eq] at member
    rcases List.mem_append.1 member with above | here
    · cases up : h.parent? e with
      | none => simp [up] at above
      | some p =>
        rw [up] at above
        exact Nat.le_trans (ih p (parent?_lt up) above) (Nat.le_of_lt (parent?_lt up))
    · exact Nat.le_of_eq (List.mem_singleton.1 here)

theorem mem_lineage_of_parent? (up : h.parent? a = some p) (member : a ∈ h.lineage e) :
    p ∈ h.lineage e := by
  induction e using Nat.strongRecOn with
  | _ e ih =>
    rw [lineage_eq] at member ⊢
    rcases List.mem_append.1 member with above | here
    · cases up' : h.parent? e with
      | none => simp [up'] at above
      | some q =>
        rw [up'] at above
        exact List.mem_append_left _ (ih q (parent?_lt up') above)
    · obtain rfl := List.mem_singleton.1 here
      rw [up]
      exact List.mem_append_left _ (h.mem_lineage_self p)

theorem nodup_used (h : Heap) (k : Continuation) : (h.used k).Nodup := List.nodup_eraseDups _

theorem mem_used {k : Continuation} : e ∈ h.used k ↔ ∃ f ∈ k, e ∈ h.lineage f.scope := by
  rw [used, List.mem_eraseDups, List.mem_flatMap]

theorem mem_used_of_parent? {k : Continuation} (up : h.parent? e = some p) (member : e ∈ h.used k) :
    p ∈ h.used k := by
  obtain ⟨f, frame, above⟩ := mem_used.1 member
  exact mem_used.2 ⟨f, frame, mem_lineage_of_parent? up above⟩

end Heap

/-! ### The scopes that are recorded -/

namespace Recorded
variable {h : Heap} {r : Recorded} {e : ScopeId} {l : List ScopeId}

theorem mem_seen : e ∈ r.seen.toList ↔ ∃ i, r.place? e = some i := by
  rw [← Option.isSome_iff_exists, place?, Array.findIdx?_isSome, Array.any_eq_true']
  simp

theorem mem_seen_of_lineage (faithful : Faithful h r) (placed : r.place? e = some i)
    (member : a ∈ h.lineage e) : a ∈ r.seen.toList := by
  induction e using Nat.strongRecOn generalizing i with
  | _ e ih =>
    rw [Heap.lineage_eq] at member
    rcases List.mem_append.1 member with above | here
    · cases up : h.parent? e with
      | none => simp [up] at above
      | some p =>
        rw [up] at above
        obtain ⟨j, _, known⟩ := faithful.parent e i p placed up
        exact ih p (Heap.parent?_lt up) known above
    · exact mem_seen.2 ⟨i, List.mem_singleton.1 here ▸ placed⟩

theorem seen_fresh (faithful : Faithful h r) (seen : r.seen.toList = l.eraseDups) (e : ScopeId) :
    r.seen.toList ++ fresh h r e = (l ++ h.lineage e).eraseDups := by
  induction e using Nat.strongRecOn with
  | _ e ih =>
    have known : ∀ a, a ∈ l ↔ ∃ i, r.place? a = some i := by
      intro a
      rw [← mem_seen, seen, List.mem_eraseDups]
    cases placed : r.place? e with
    | some i =>
      have all : ∀ a ∈ h.lineage e, a ∈ l := fun a member =>
        (known a).2 (mem_seen.1 (mem_seen_of_lineage faithful placed member))
      rw [fresh_of_placed placed, List.append_nil, seen, List.eraseDups_append_of_subset all]
    | none =>
      have new : e ∉ l := by simp [known, placed]
      rw [fresh_eq placed, Heap.lineage_eq]
      cases up : h.parent? e with
      | none => simp [List.eraseDups_concat, seen, new]
      | some p =>
        have lt := Heap.parent?_lt up
        have apart : e ∉ l ++ h.lineage p := by
          rw [List.mem_append, not_or]
          exact ⟨new, fun below => Nat.not_le_of_lt lt (Heap.le_of_mem_lineage below)⟩
        simp only [Option.map_some, Option.getD_some, ← List.append_assoc]
        rw [ih p lt, List.eraseDups_concat, if_neg apart]

theorem seen_foldl (r : Recorded) (l : List ScopeId) :
    (l.foldl (add h) r).seen.toList = r.seen.toList ++ l := by
  induction l generalizing r with
  | nil => simp
  | cons e l ih => simp [ih, add]

theorem seen_intern (faithful : Faithful h r) (seen : r.seen.toList = l.eraseDups) (e : ScopeId) :
    (intern h r e).2.seen.toList = (l ++ h.lineage e).eraseDups := by
  have all := seen_fresh faithful seen e
  cases placed : r.place? e with
  | some n =>
    rw [fresh_of_placed placed, List.append_nil] at all
    simpa only [intern, placed] using all
  | none =>
    rw [← all, ← seen_foldl (h := h)]
    simp only [intern, placed, fresh]

theorem seen_ofFrames {k : Continuation} (faithful : Faithful h r) (seen : r.seen.toList = l.eraseDups) :
    (ofFrames h r k).2.seen.toList = (l ++ k.flatMap fun f => h.lineage f.scope).eraseDups := by
  induction k generalizing r l with
  | nil => simpa [ofFrames] using seen
  | cons f k ih =>
    rw [List.flatMap_cons, ← List.append_assoc]
    exact ih (intern_spec faithful).1 (seen_intern faithful seen f.scope)

theorem seen_ofSuspension (h : Heap) (x : Suspension) : (ofSuspension h x).seen.toList = h.used x.k :=
  seen_ofFrames (l := []) .empty rfl

theorem place?_eq_idxOf (member : e ∈ r.seen.toList) : r.place? e = some (r.seen.toList.idxOf e) := by
  have found : r.seen.toList.findIdx? (· == e) = some (r.seen.toList.idxOf e) :=
    List.findIdx?_eq_some_of_exists ⟨e, member, beq_self_eq_true e⟩
  obtain ⟨⟨l⟩, records⟩ := r
  simpa [place?] using found

theorem place?_ofSuspension {x : Suspension} (member : e ∈ h.used x.k) :
    (ofSuspension h x).place? e = some ((h.used x.k).idxOf e) := by
  rw [← seen_ofSuspension] at member ⊢
  exact place?_eq_idxOf member

theorem records_ofSuspension (h : Heap) (x : Suspension) :
    (ofSuspension h x).records.toList =
      (h.used x.k).map fun e => ⟨(h.parent? e).map (h.used x.k).idxOf, h.locals e⟩ := by
  have faithful := ofSuspension_faithful h x
  have seen := seen_ofSuspension h x
  refine List.ext_getElem? fun i => ?_
  rw [List.getElem?_map]
  by_cases lt : i < (h.used x.k).length
  · have member := List.getElem_mem lt
    have placed := place?_ofSuspension member
    rw [(h.nodup_used x.k).idxOf_getElem i lt] at placed
    have parents : (h.parent? (h.used x.k)[i]).bind (ofSuspension h x).place? =
        (h.parent? (h.used x.k)[i]).map (h.used x.k).idxOf := by
      cases up : h.parent? (h.used x.k)[i] with
      | none => rfl
      | some p => exact place?_ofSuspension (Heap.mem_used_of_parent? up member)
    rw [Array.getElem?_toList, faithful.record _ i placed, parents, List.getElem?_eq_getElem lt]
    rfl
  · have size : (ofSuspension h x).records.toList.length = (h.used x.k).length := by
      rw [← seen, Array.length_toList, Array.length_toList, faithful.sizes]
    rw [List.getElem?_eq_none (size ▸ Nat.le_of_not_lt lt), List.getElem?_eq_none (Nat.le_of_not_lt lt)]
    rfl

end Recorded

/-! ### The canonical form -/

namespace Snapshot
variable {s : Snapshot} {h : Heap} {x : Suspension} {e : ScopeId}

/-- What is written: each scope in use once, in the order of first use. -/
theorem capture_eq_used (h : Heap) (x : Suspension) :
    let used := h.used x.k
    capture h x = ⟨x.request, used.map fun e => ⟨(h.parent? e).map used.idxOf, h.locals e⟩,
      x.k.map fun f => ⟨f.point.group.name, f.point.method, used.idxOf f.scope, f.captured⟩⟩ := by
  rw [capture_eq, Recorded.records_ofSuspension]
  refine congrArg (Snapshot.mk _ _) (List.map_congr_left fun f frame => ?_)
  have placed := Recorded.place?_ofSuspension (Heap.mem_used.2 ⟨f, frame, h.mem_lineage_self f.scope⟩)
  simp only [Recorded.frame, Recorded.number, placed, Option.getD_some]

/-- The number of a scope record behind those of its ancestors. -/
def lineage (s : Snapshot) (i : Nat) : List Nat :=
  match (s.scopes[i]?).bind ScopeRecord.parent with
  | some p => if _before : p < i then s.lineage p ++ [i] else [i]
  | none => [i]
termination_by i

/-- The numbers of the scope records that the frames need, the innermost frame first, each behind its
ancestors and at its first use. -/
def used (s : Snapshot) : List Nat := (s.frames.flatMap fun f => s.lineage f.scope).eraseDups

/-- The snapshot with the scopes that its frames need, numbered in the order of their first use. -/
def canonical (s : Snapshot) : Snapshot where
  request := s.request
  scopes := (s.used.filterMap (s.scopes[·]?)).map fun r => { r with parent := r.parent.map s.used.idxOf }
  frames := s.frames.map fun f => { f with scope := s.used.idxOf f.scope }

/-- The snapshot is one of the suspension, under some numbers of the scopes. -/
structure Depicts (s : Snapshot) (h : Heap) (x : Suspension) (number : ScopeId → Nat) : Prop where
  request : s.request = x.request
  frames : s.frames =
    x.k.map fun f => ⟨f.point.group.name, f.point.method, number f.scope, f.captured⟩
  record : ∀ e ∈ h.used x.k, s.scopes[number e]? = some ⟨(h.parent? e).map number, h.locals e⟩
  before : ∀ e ∈ h.used x.k, ∀ p, h.parent? e = some p → number p < number e
  distinct : ∀ a ∈ h.used x.k, ∀ b ∈ h.used x.k, number a = number b → a = b

namespace Depicts
variable {number : ScopeId → Nat}

theorem lineage (depicts : s.Depicts h x number) (member : e ∈ h.used x.k) :
    s.lineage (number e) = (h.lineage e).map number := by
  induction e using Nat.strongRecOn with
  | _ e ih =>
    rw [Snapshot.lineage, depicts.record e member, Heap.lineage_eq]
    cases up : h.parent? e with
    | none => rfl
    | some p =>
      have before := depicts.before e member p up
      simp only [Option.bind_some, Option.map_some, Option.getD_some, before, dite_true,
        ih p (Heap.parent?_lt up) (Heap.mem_used_of_parent? up member), List.map_append, List.map_singleton]

theorem used (depicts : s.Depicts h x number) : s.used = (h.used x.k).map number := by
  have lineages : s.frames.flatMap (fun f => s.lineage f.scope) =
      (x.k.flatMap fun f => h.lineage f.scope).map number := by
    rw [depicts.frames, List.flatMap_map, List.map_flatMap]
    refine List.flatMap_congr fun f frame => depicts.lineage ?_
    exact Heap.mem_used.2 ⟨f, frame, h.mem_lineage_self f.scope⟩
  rw [Snapshot.used, lineages, Heap.used]
  refine List.eraseDups_map fun a left b right => ?_
  exact depicts.distinct a (List.mem_eraseDups.2 left) b (List.mem_eraseDups.2 right)

/-- All snapshots of a suspension have the same canonical form, and it is what is written. -/
theorem canonical_eq (depicts : s.Depicts h x number) : s.canonical = capture h x := by
  have places : ∀ e ∈ h.used x.k, ((h.used x.k).map number).idxOf (number e) = (h.used x.k).idxOf e :=
    fun e member => List.idxOf_map fun b there => depicts.distinct b there e member
  have records : ((h.used x.k).map number).filterMap (s.scopes[·]?) =
      (h.used x.k).map fun e => ⟨(h.parent? e).map number, h.locals e⟩ := by
    rw [List.filterMap_map, ← List.filterMap_eq_map]
    exact List.filterMap_congr fun e member => depicts.record e member
  rw [capture_eq_used, canonical, depicts.used, records, depicts.request, depicts.frames]
  simp only [List.map_map]
  congr 1
  · refine List.map_congr_left fun e member => ?_
    cases up : h.parent? e with
    | none => simp [up]
    | some p => simp [up, places p (Heap.mem_used_of_parent? up member)]
  · refine List.map_congr_left fun f frame => ?_
    simp [places f.scope (Heap.mem_used.2 ⟨f, frame, h.mem_lineage_self f.scope⟩)]

end Depicts

theorem depicts_capture (h : Heap) (x : Suspension) : (capture h x).Depicts h x (h.used x.k).idxOf where
  request := by rw [capture_eq_used]
  frames := by rw [capture_eq_used]
  record e member := by
    rw [capture_eq_used]
    simp [List.getElem?_idxOf member]
  before e member p up := by
    have placed := Recorded.place?_ofSuspension member
    obtain ⟨j, before, known⟩ := (Recorded.ofSuspension_faithful h x).parent e _ p placed up
    rw [Recorded.place?_ofSuspension (Heap.mem_used_of_parent? up member)] at known
    exact Option.some.inj known ▸ before
  distinct a left b _ same := (List.idxOf_inj left).1 same

/-- What is written is in canonical form. -/
theorem canonical_capture (h : Heap) (x : Suspension) : (capture h x).canonical = capture h x :=
  (depicts_capture h x).canonical_eq

/-! ### What is restored -/

theorem badParent?_eq_none_iff {scopes : List ScopeRecord} : badParent? scopes = none ↔
    ∀ (i : Nat) (record : ScopeRecord) (p : Nat),
      scopes[i]? = some record → record.parent = some p → p < i := by
  simp only [badParent?, List.findSome?_eq_none_iff, Prod.forall, List.mk_mem_zipIdx_iff_getElem?,
    Option.map_eq_none_iff, Option.filter_eq_none_iff, decide_eq_true_eq, Nat.not_le]
  exact ⟨fun all i record p here => all record i here p, fun all record i here p => all i record p here⟩

/-- The frame is restored from its record, over scopes of which the first has the number `base`. -/
structure Restores (t : Table) (base count : Nat) (f : FrameRecord) (g : Frame) : Prop where
  point : t.resolve f.group f.method = .ok g.point
  inside : f.scope < count
  scope : g.scope = base + f.scope
  captured : g.captured = f.captured

variable {t : Table} {base count : Nat}

theorem restoreFrame_eq_ok_iff {f : FrameRecord} {g : Frame} :
    restoreFrame t base count f = .ok g ↔ Restores t base count f g := by
  constructor
  · intro restored
    unfold restoreFrame at restored
    split at restored
    · cases restored
    · next point resolved =>
      split at restored
      · next inside =>
        cases restored
        exact ⟨resolved, inside, rfl, rfl⟩
      · cases restored
  · rintro ⟨point, inside, scope, captured⟩
    obtain ⟨_, _, _⟩ := g
    obtain rfl := scope
    obtain rfl := captured
    simp [restoreFrame, point, inside]

theorem restoreFrames_eq_ok_iff {fs : List FrameRecord} {k : Continuation} :
    restoreFrames t base count fs = .ok k ↔ List.Forall₂ (Restores t base count) fs k := by
  induction fs generalizing k with
  | nil => simp [restoreFrames, eq_comm]
  | cons f fs ih =>
    simp only [restoreFrames, List.forall₂_cons_left_iff, ← ih, ← restoreFrame_eq_ok_iff]
    cases restoreFrames t base count fs <;> cases restoreFrame t base count f <;>
      simp [bind, Except.bind, pure, Except.pure, eq_comm]

theorem Restores.of_mem {fs : List FrameRecord} {k : Continuation} {g : Frame}
    (restores : List.Forall₂ (Restores t base count) fs k) (member : g ∈ k) :
    ∃ f, Restores t base count f g := by
  induction restores with
  | nil => exact nomatch member
  | cons top _ ih =>
    rcases List.mem_cons.1 member with rfl | below
    · exact ⟨_, top⟩
    · exact ih below

theorem restore_eq_ok_iff {h' : Heap} : s.restore t h = (h', .ok x) ↔
    badParent? s.scopes = none ∧ h' = addScopes h.next h s.scopes ∧ x.request = s.request ∧
      List.Forall₂ (Restores t h.next s.scopes.length) s.frames x.k := by
  obtain ⟨request, k⟩ := x
  rw [← restoreFrames_eq_ok_iff]
  unfold restore
  split
  · next bad => simp [bad]
  · next good =>
    cases frames : restoreFrames t h.next s.scopes.length s.frames with
    | error problem => simp [frames]
    | ok k' =>
      simp only [frames, good, Prod.mk.injEq, Except.ok.injEq, Suspension.mk.injEq, true_and]
      exact ⟨fun ⟨heap, request, k⟩ => ⟨heap.symm, request.symm, k⟩,
        fun ⟨heap, request, k⟩ => ⟨heap.symm, request.symm, k⟩⟩

theorem resolve_eq_ok_iff {group method : String} {point : ResumePoint} :
    t.resolve group method = .ok point ↔
      point.group.name = group ∧ point.method = method ∧ t.contains point = true := by
  unfold Table.resolve
  constructor
  · intro resolved
    split at resolved
    · next p found =>
      have names := List.find?_some found
      simp only [Bool.and_eq_true, beq_iff_eq] at names
      split at resolved
      · next registered =>
        cases resolved
        exact ⟨names.1, names.2, registered⟩
      · cases resolved
    · cases resolved
  · rintro ⟨rfl, rfl, registered⟩
    simp [ResumePoint.ofNames?_names, registered]

theorem Restores.frames_eq {fs : List FrameRecord} {k : Continuation}
    (restores : List.Forall₂ (Restores t base count) fs k) :
    fs = k.map fun f => ⟨f.point.group.name, f.point.method, f.scope - base, f.captured⟩ := by
  induction restores with
  | nil => rfl
  | @cons f g fs k top _ ih =>
    obtain ⟨group, method, _⟩ := resolve_eq_ok_iff.1 top.point
    rw [List.map_cons, ← ih, group, method, top.scope, top.captured, Nat.add_sub_cancel_left]

/-- A snapshot can be restored if and only if it is well formed. -/
theorem restores_iff : (∃ h' x, s.restore t h = (h', .ok x)) ↔ s.WellFormed t := by
  have frames : ∀ fs : List FrameRecord, (∃ k, List.Forall₂ (Restores t h.next s.scopes.length) fs k) ↔
      ∀ f ∈ fs, (∃ point, t.resolve f.group f.method = .ok point) ∧ f.scope < s.scopes.length := by
    intro fs
    induction fs with
    | nil => simp
    | cons f fs ih =>
      rw [List.forall_mem_cons, ← ih]
      constructor
      · rintro ⟨_, restores⟩
        cases restores with
        | cons top others => exact ⟨⟨⟨_, top.point⟩, top.inside⟩, _, others⟩
      · rintro ⟨⟨⟨point, resolved⟩, inside⟩, k, others⟩
        exact ⟨⟨point, h.next + f.scope, f.captured⟩ :: k, .cons ⟨resolved, inside, rfl, rfl⟩ others⟩
  rw [WellFormed, ← badParent?_eq_none_iff, ← frames]
  constructor
  · rintro ⟨h', x, restored⟩
    obtain ⟨parents, _, _, restores⟩ := restore_eq_ok_iff.1 restored
    exact ⟨parents, x.k, restores⟩
  · rintro ⟨parents, k, restores⟩
    exact ⟨_, ⟨s.request, k⟩, restore_eq_ok_iff.2 ⟨parents, rfl, rfl, restores⟩⟩

/-- The snapshot is one of the run that is restored from it. -/
theorem depicts_restored {h' : Heap} (restored : s.restore t h = (h', .ok x)) :
    s.Depicts h' x fun e => e - h.next := by
  obtain ⟨parents, rfl, request, restores⟩ := restore_eq_ok_iff.1 restored
  rw [badParent?_eq_none_iff] at parents
  have added : ∀ i record, s.scopes[i]? = some record →
      (addScopes h.next h s.scopes).parent? (h.next + i) = record.parent.map (h.next + ·) ∧
        (addScopes h.next h s.scopes).locals (h.next + i) = record.bindings :=
    fun i record here => addScopes_new here fun p => parents i record p here
  have inside : ∀ i < s.scopes.length, ∀ e ∈ (addScopes h.next h s.scopes).lineage (h.next + i),
      ∃ j record, s.scopes[j]? = some record ∧ e = h.next + j := by
    intro i
    induction i using Nat.strongRecOn with
    | _ i ih =>
      intro lt e member
      have here := List.getElem?_eq_getElem lt
      rw [Heap.lineage_eq, (added i _ here).1] at member
      rcases List.mem_append.1 member with above | this
      · cases up : s.scopes[i].parent with
        | none => simp [up] at above
        | some p =>
          have before := parents i _ p here up
          rw [up] at above
          exact ih p before (Nat.lt_trans before lt) e above
      · exact ⟨i, _, here, List.mem_singleton.1 this⟩
  have known : ∀ e ∈ (addScopes h.next h s.scopes).used x.k,
      ∃ j record, s.scopes[j]? = some record ∧ e = h.next + j := by
    intro e member
    obtain ⟨f, frame, above⟩ := Heap.mem_used.1 member
    obtain ⟨r, restores⟩ := Restores.of_mem restores frame
    rw [restores.scope] at above
    exact inside r.scope restores.inside e above
  constructor
  · exact request.symm
  · exact Restores.frames_eq restores
  · intro e member
    obtain ⟨j, record, here, rfl⟩ := known e member
    obtain ⟨parent, locals⟩ := added j record here
    simp [here, parent, locals, Function.comp_def]
  · intro e member p up
    obtain ⟨j, record, here, rfl⟩ := known e member
    rw [(added j record here).1] at up
    obtain ⟨q, named, rfl⟩ := Option.map_eq_some_iff.1 up
    simpa using parents j record q here named
  · intro a left b right same
    obtain ⟨i, _, _, rfl⟩ := known a left
    obtain ⟨j, _, _, rfl⟩ := known b right
    simpa using same

theorem wellFormed_capture (registered : ∀ f ∈ x.k, t.contains f.point = true) :
    (capture h x).WellFormed t := by
  have restored : (capture h x).WellFormed .standard := restores_iff.1 ⟨_, _, restore_capture h .empty x⟩
  refine ⟨restored.1, fun f member => ⟨?_, (restored.2 f member).2⟩⟩
  rw [capture_eq_used] at member
  obtain ⟨g, frame, rfl⟩ := List.mem_map.1 member
  exact ⟨g.point, resolve_eq_ok_iff.2 ⟨rfl, rfl, registered g frame⟩⟩

/-- What is written can be restored, and is written again as it is. -/
theorem restore_capture_again (registered : ∀ f ∈ x.k, t.contains f.point = true) (g : Heap) :
    ∃ g' y, (capture h x).restore t g = (g', .ok y) ∧ capture g' y = capture h x := by
  obtain ⟨g', y, restored⟩ := restores_iff (h := g).2 (wellFormed_capture (h := h) registered)
  exact ⟨g', y, restored, (depicts_restored restored).canonical_eq.symm.trans (canonical_capture h x)⟩

theorem registered_of_restored {h' : Heap} (restored : s.restore t h = (h', .ok x)) :
    ∀ f ∈ x.k, t.contains f.point = true := by
  intro f frame
  obtain ⟨_, _, _, restores⟩ := restore_eq_ok_iff.1 restored
  obtain ⟨r, restores⟩ := Restores.of_mem restores frame
  exact (resolve_eq_ok_iff.1 restores.point).2.2

/-- Exactly the well-formed snapshots can be restored, and what is written of the restored run is the
snapshot in its canonical form, which is then written again and again. Whatever is written of a run can be
restored, and is written again as it is: it holds each scope of the run once, behind its parent. -/
theorem capture_is_canonical :
    (∀ (t : Table) (s : Snapshot) (h : Heap), (∃ h' x, s.restore t h = (h', .ok x)) ↔ s.WellFormed t) ∧
    (∀ (t : Table) (s : Snapshot) (h h' : Heap) (x : Suspension), s.restore t h = (h', .ok x) →
      capture h' x = s.canonical ∧
        ∀ g, ∃ g' y, (capture h' x).restore t g = (g', .ok y) ∧ capture g' y = capture h' x) ∧
    ∀ (h : Heap) (x : Suspension),
      let used := h.used x.k
      (∀ g, ∃ g' y, (capture h x).restore .standard g = (g', .ok y) ∧ capture g' y = capture h x) ∧
        used.Nodup ∧ (∀ e, e ∈ used ↔ ∃ f ∈ x.k, e ∈ h.chain f.scope) ∧
        (capture h x).scopes = used.map (fun e => ⟨(h.parent? e).map used.idxOf, h.locals e⟩) ∧
        ∀ (i : Nat) (record : ScopeRecord) (p : Nat),
          (capture h x).scopes[i]? = some record → record.parent = some p → p < i := by
  refine ⟨fun _ _ _ => restores_iff, ?restored, ?captured⟩
  case restored =>
    intro t s h h' x restored
    exact ⟨(depicts_restored restored).canonical_eq.symm,
      restore_capture_again (registered_of_restored restored)⟩
  case captured =>
    intro h x
    have standard : ∀ f ∈ x.k, Table.standard.contains f.point = true :=
      fun f _ => Table.standard_contains f.point
    refine ⟨restore_capture_again standard, h.nodup_used x.k, fun e => ?_, ?_,
      (wellFormed_capture standard).1⟩
    · simp only [Heap.mem_used, Heap.lineage, List.mem_reverse]
    · rw [capture_eq_used]

/-- The third scope of a snapshot is in no use, and the fourth is used before the second. -/
theorem unused_scopes_are_dropped :
    let frame (scope : Nat) : FrameRecord := ⟨"Exception", "finally", scope, .cleanup (.value .null)⟩
    let s : Snapshot :=
      ⟨.null, [⟨none, [("a", .null)]⟩, ⟨some 0, []⟩, ⟨none, []⟩, ⟨some 0, [("b", .null)]⟩],
        [frame 3, frame 1, frame 3]⟩
    ∃ h x, s.restore .standard .empty = (h, .ok x) ∧ capture h x = s.canonical ∧
      s.canonical = ⟨.null, [⟨none, [("a", .null)]⟩, ⟨some 0, [("b", .null)]⟩, ⟨some 0, []⟩],
        [frame 1, frame 2, frame 1]⟩ ∧
      ∀ g, ∃ g' y, s.canonical.restore .standard g = (g', .ok y) ∧ capture g' y = s.canonical := by
  intro frame s
  obtain ⟨_, again, _⟩ := capture_is_canonical
  obtain ⟨canonical, stays⟩ := again .standard s .empty _ _ rfl
  rw [canonical] at stays
  have top : s.lineage 0 = [0] := by
    rw [Snapshot.lineage]
    rfl
  have below : ∀ i, (s.scopes[i]?).bind ScopeRecord.parent = some 0 → 0 < i → s.lineage i = [0, i] := by
    intro i parent pos
    rw [Snapshot.lineage, parent]
    simp [pos, top]
  have used : s.used = [0, 3, 1] := by
    simp only [s, frame, Snapshot.used, List.flatMap_cons, List.flatMap_nil, below 3 rfl (by decide),
      below 1 rfl (by decide)]
    rfl
  refine ⟨_, _, rfl, canonical, ?_, stays⟩
  rw [Snapshot.canonical, used]
  rfl

end Snapshot
end FlowScript
