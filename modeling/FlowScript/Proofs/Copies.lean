import FlowScript.Proofs.Matching
import Mathlib.Data.List.Induction

/-! Copies of a parked run. Runs that differ only in the numbers of their scopes are written out alike,
and a restored run differs from the captured one only in these numbers. -/
namespace FlowScript

namespace Recorded
variable {R : ScopeId → ScopeId → Prop} {h h' : Heap} {r r' : Recorded} {e e' : ScopeId}

/-- Paired scopes have the same number and the same record. -/
structure Alike (R : ScopeId → ScopeId → Prop) (r r' : Recorded) : Prop where
  place? : ∀ e e', R e e' → r.place? e = r'.place? e'
  size : r.seen.size = r'.seen.size
  records : r.records = r'.records

theorem Alike.add (matched : Matched R h h') (alike : Alike R r r') (related : R e e') :
    Alike R (r.add h e) (r'.add h' e') where
  place? x x' pair := by
    simp only [place?_add, alike.place? x x' pair, alike.size, matched.one_to_one e e' x x' related pair]
  size := by simp [alike.size]
  records := by
    have above : (h.parent? e).bind r.place? = (h'.parent? e').bind r'.place? := by
      generalize h.parent? e = p, h'.parent? e' = p', matched.parents e e' related = parents
      cases parents with
      | some pair => exact alike.place? _ _ pair
      | none => rfl
    simp only [Recorded.add, above, matched.locals e e' related, alike.records]

theorem Alike.intern (matched : Matched R h h') (alike : Alike R r r') (related : R e e') :
    (intern h r e).1 = (intern h' r' e').1 ∧ Alike R (intern h r e).2 (intern h' r' e').2 := by
  have fresh_alike : List.Forall₂ R (fresh h r e) (fresh h' r' e') := by
    refine List.rel_reverse ?_
    generalize h.chain e = c, h'.chain e' = c', matched.chain related = chains
    induction chains with
    | nil => exact .nil
    | cons above _ ih =>
      simp only [List.takeWhile_cons, alike.place? _ _ above]
      split
      · exact .cons above ih
      · exact .nil
  have folded : ∀ l l', List.Forall₂ R l l' → ∀ r r', Alike R r r' →
      Alike R (l.foldl (Recorded.add h) r) (l'.foldl (Recorded.add h') r') := by
    intro l l' pairs
    induction pairs with
    | nil => exact fun _ _ => id
    | cons above _ ih => exact fun r r' alike => ih _ _ (alike.add matched above)
  cases placed : r.place? e with
  | some n => simpa [Recorded.intern, placed, ← alike.place? e e' related] using alike
  | none =>
    have all := folded _ _ fresh_alike r r' alike
    simp only [Recorded.intern, placed, ← alike.place? e e' related]
    exact ⟨congrArg (· - 1) all.size, all⟩

theorem Alike.ofFrames {k k' : Continuation} (matched : Matched R h h') (alike : Alike R r r')
    (frames : k.Alike R k') :
    (ofFrames h r k).1 = (ofFrames h' r' k').1 ∧ Alike R (ofFrames h r k).2 (ofFrames h' r' k').2 := by
  induction frames generalizing r r' with
  | nil => exact ⟨rfl, alike⟩
  | cons top _ ih =>
    obtain ⟨numbers, alike₁⟩ := alike.intern matched top.scope
    obtain ⟨frames, alike₂⟩ := ih alike₁
    refine ⟨?_, alike₂⟩
    simp only [Recorded.ofFrames, numbers, frames, top.point, top.captured]

end Recorded

namespace Snapshot
variable {R : ScopeId → ScopeId → Prop} {h h' into : Heap} {k k' : Continuation}

theorem capture_alike (matched : Matched R h h') (alike : k.Alike R k') (request : Value) :
    capture h ⟨request, k⟩ = capture h' ⟨request, k'⟩ := by
  have start : Recorded.Alike R .empty .empty := ⟨by simp, rfl, rfl⟩
  obtain ⟨frames, recorded⟩ := start.ofFrames matched alike
  simp only [capture, frames, recorded.records]

theorem addScopes_concat (base : ScopeId) (h : Heap) (records : List ScopeRecord) (last : ScopeRecord) :
    addScopes base h (records ++ [last]) =
      (addScopes base h records).addScope (last.parent.map (base + ·)) last.bindings := by
  simp [addScopes]

@[simp] theorem next_addScopes (base : ScopeId) (h : Heap) (records : List ScopeRecord) :
    (addScopes base h records).next = h.next + records.length := by
  induction records using List.reverseRecOn with
  | nil => rfl
  | append_singleton records last ih => simp [addScopes_concat, ih, Nat.add_assoc]

theorem addScopes_old (base : ScopeId) (records : List ScopeRecord) (old : x < h.next) :
    (addScopes base h records).parent? x = h.parent? x ∧
      (addScopes base h records).locals x = h.locals x := by
  induction records using List.reverseRecOn with
  | nil => exact ⟨rfl, rfl⟩
  | append_singleton records last ih =>
    have ne : x ≠ (addScopes base h records).next := by
      rw [next_addScopes]
      exact Nat.ne_of_lt (Nat.lt_add_right _ old)
    rw [addScopes_concat, Heap.parent?_addScope, Heap.locals_addScope, if_neg ne, if_neg ne]
    exact ih

theorem addScopes_new {records : List ScopeRecord} {i : Nat} (here : records[i]? = some record)
    (parent : ∀ p, record.parent = some p → p < i) :
    (addScopes h.next h records).parent? (h.next + i) = record.parent.map (h.next + ·) ∧
      (addScopes h.next h records).locals (h.next + i) = record.bindings := by
  induction records using List.reverseRecOn with
  | nil => simp at here
  | append_singleton records last ih =>
    rw [addScopes_concat]
    rcases Nat.lt_trichotomy i records.length with lt | rfl | gt
    · have ne : h.next + i ≠ (addScopes h.next h records).next := by
        rw [next_addScopes]
        exact Nat.ne_of_lt (Nat.add_lt_add_left lt _)
      rw [List.getElem?_append_left lt] at here
      rw [Heap.parent?_addScope, Heap.locals_addScope, if_neg ne, if_neg ne]
      exact ih here
    · obtain rfl : last = record := by simpa using here
      have last_place : h.next + records.length = (addScopes h.next h records).next := by simp
      simp only [Heap.parent?_addScope, Heap.locals_addScope, last_place, if_true, and_true]
      cases named : last.parent with
      | none => rfl
      | some q =>
        have before : h.next + q < (addScopes h.next h records).next := by
          simpa using parent q named
        simp only [Option.map_some, Option.filter_some, before, decide_true, if_true]
    · have beyond : (records ++ [last]).length ≤ i := by simpa using Nat.succ_le_of_lt gt
      simp [List.getElem?_eq_none beyond] at here

/-- A restored run differs from the captured one in the numbers of its scopes, which are new. -/
theorem restore_alike (h into : Heap) (x : Suspension) (inside : ∀ f ∈ x.k, f.scope < h.next) :
    ∃ R into' y, (capture h x).restore .standard into = (into', .ok y) ∧ Matched R h into' ∧
      Grows (fun _ _ => False) R into into' ∧ Standing.Alike R (.parked x) (.parked y) := by
  let r := Recorded.ofSuspension h x
  have faithful : r.Faithful h := Recorded.ofSuspension_faithful h x
  have added : ∀ e i, r.place? e = some i →
      (addScopes into.next into r.records.toList).parent? (into.next + i) =
          ((h.parent? e).bind r.place?).map (into.next + ·) ∧
        (addScopes into.next into r.records.toList).locals (into.next + i) = h.locals e := by
    intro e i placed
    have here : r.records.toList[i]? = some ⟨(h.parent? e).bind r.place?, h.locals e⟩ := by
      simpa using faithful.record e i placed
    refine addScopes_new here ?_
    intro p named
    obtain ⟨q, up, there⟩ := Option.bind_eq_some_iff.1 named
    obtain ⟨j, before, known⟩ := faithful.parent e i q placed up
    obtain rfl := Option.some.inj (there.symm.trans known)
    exact before
  refine ⟨fun e e' => ∃ i, r.place? e = some i ∧ e' = into.next + i, _, _, restore_capture h into x,
    ?_, ?_, ?_⟩
  · constructor
    · rintro e _ ⟨i, placed, rfl⟩
      refine ⟨Recorded.ofSuspension_lt inside placed, ?_⟩
      have lt : i < r.records.toList.length := by
        simpa [faithful.sizes] using Recorded.place?_lt placed
      simpa using lt
    · rintro e _ ⟨i, placed, rfl⟩
      exact (added e i placed).2.symm
    · rintro e _ ⟨i, placed, rfl⟩
      rw [(added e i placed).1]
      cases up : h.parent? e with
      | none => exact .none
      | some p =>
        obtain ⟨j, _, known⟩ := faithful.parent e i p placed up
        simp only [Option.bind_some, known, Option.map_some]
        exact .some ⟨j, known, rfl⟩
    · rintro a _ b _ ⟨i, left, rfl⟩ ⟨j, right, rfl⟩
      constructor
      · rintro rfl
        rw [Option.some.inj (left.symm.trans right)]
      · intro same
        obtain rfl := Nat.add_left_cancel same
        exact Recorded.place?_inj left right
  · constructor
    · exact fun _ _ => False.elim
    · rintro e _ ⟨i, _, rfl⟩
      exact .inr (Nat.le_add_right _ _)
    · simp
    · exact fun x old => (addScopes_old _ _ old).1
    · exact fun x old _ => (addScopes_old _ _ old).2
  · refine .parked (List.forall₂_map_right_iff.2 (List.forall₂_same.2 fun f member => ⟨rfl, rfl, ?_⟩))
    obtain ⟨n, placed⟩ := Recorded.ofSuspension_place? (h := h) member
    exact ⟨n, placed, by simp [Recorded.relocate, Recorded.number, placed]⟩

end Snapshot
end FlowScript
