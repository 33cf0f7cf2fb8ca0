import FlowScript.Proofs.Scoping

/-! Where an assignment goes and who sees it. It looks for the name from its scope up to the root of the chain,
and ends at the first scope that binds it, or at the root where none does. That scope alone is written, and a
lookup comes to another value only where it stops there. -/
namespace FlowScript

namespace Heap

/-- From a scope up to the root, the first scope that binds the name. -/
inductive Sees (h : Heap) (name : String) : ScopeId → ScopeId → Prop where
  | here : (h.locals x).binds name = true → Sees h name x x
  | above : (h.locals x).binds name = false → h.parent? x = some p → Sees h name p s → Sees h name x s

/-- From a scope up to the root, the first scope that binds the name, or the root if none does. -/
inductive Settles (h : Heap) (name : String) : ScopeId → ScopeId → Prop where
  | here : (h.locals x).binds name = true → Settles h name x x
  | root : (h.locals x).binds name = false → h.parent? x = none → Settles h name x x
  | above : (h.locals x).binds name = false → h.parent? x = some p → Settles h name p t → Settles h name x t

variable {h : Heap} {e f p s t x : ScopeId} {name other : String} {v : Value}

/-! ### The way up -/

theorem target_of_binds (binds : (h.locals x).binds name = true) : h.target x name = x := by
  rw [target, chain_eq]
  simp [binds]

theorem target_of_parent?_none (top : h.parent? x = none) : h.target x name = x := by
  rw [target, chain_eq, top]
  cases binds : (h.locals x).binds name <;> simp [binds]

theorem target_of_parent? (free : (h.locals x).binds name = false) (up : h.parent? x = some p) :
    h.target x name = h.target p name := by
  have last : (h.chain x).getLastD x = (h.chain p).getLastD p := root_of_parent? up
  rw [target, target, last, chain_eq h x, up]
  simp [free]

/-- An assignment goes to the scope where it settles, and there is one such scope. -/
theorem settles_iff : h.Settles name e t ↔ t = h.target e name := by
  constructor
  · intro settles
    induction settles with
    | here binds => exact (target_of_binds binds).symm
    | root _ top => exact (target_of_parent?_none top).symm
    | above free up _ ih => rw [ih, target_of_parent? free up]
  · rintro rfl
    induction e using Nat.strongRecOn with
    | _ e ih =>
      cases binds : (h.locals e).binds name with
      | true =>
        rw [target_of_binds binds]
        exact .here binds
      | false =>
        cases up : h.parent? e with
        | none =>
          rw [target_of_parent?_none up]
          exact .root binds up
        | some p =>
          rw [target_of_parent? binds up]
          exact .above binds up (ih p (parent?_lt up))

/-- What is seen from a scope is what the scope binds itself, or what is seen from its parent. -/
theorem lookup_eq (h : Heap) (e : ScopeId) (name : String) :
    h.lookup e name = ((h.locals e).find? name).or ((h.parent? e).bind fun p => h.lookup p name) := by
  rw [lookup, chain_eq, List.findSome?_cons]
  cases (h.locals e).find? name <;> cases h.parent? e <;> rfl

theorem find?_of_free (free : (h.locals x).binds name = false) : (h.locals x).find? name = none := by
  simpa [Entries.binds] using free

theorem Sees.lookup (sees : h.Sees name e s) : h.lookup e name = (h.locals s).find? name := by
  induction sees with
  | here binds =>
    obtain ⟨v, bound⟩ := Option.isSome_iff_exists.1 binds
    rw [lookup_eq, bound, Option.some_or]
  | above free up _ ih =>
    rw [lookup_eq, find?_of_free free, up]
    exact ih

theorem Sees.mem_chain (sees : h.Sees name e s) : s ∈ h.chain e := by
  induction sees with
  | here => exact h.mem_chain_self _
  | above _ up _ ih => exact mem_chain_of_parent? up ih

theorem Settles.le (settles : h.Settles name e t) : t ≤ e := by
  induction settles with
  | here | root => exact Nat.le_refl _
  | above _ up _ ih => exact Nat.le_trans ih (Nat.le_of_lt (parent?_lt up))

theorem Settles.binds_or_top (settles : h.Settles name e t) :
    (h.locals t).binds name = true ∨ h.parent? t = none := by
  induction settles with
  | here binds => exact .inl binds
  | root _ top => exact .inr top
  | above _ _ _ ih => exact ih

/-! ### The write -/

theorem parent?_assign : (h.assign e name v).parent? x = h.parent? x := parent?_declare

section
variable (settles : h.Settles name e t) (inside : e < h.next)
include settles inside

/-- One scope is written, and one name in it. -/
theorem locals_assign :
    (h.assign e name v).locals x = if x = t then (h.locals t).insert name v else h.locals x := by
  have there : t < h.next := Nat.lt_of_le_of_lt settles.le inside
  rw [assign, ← settles_iff.1 settles, locals_declare there]
  simp only [eq_comm]

theorem binds_assign : ((h.assign e name v).locals t).binds name = true := by
  rw [locals_assign settles inside, if_pos rfl]
  simp [Entries.binds]

/-- The search that has settled at a scope finds the name there afterwards. -/
theorem sees_assign (ends : h.Settles name x t) : (h.assign e name v).Sees name x t := by
  induction ends with
  | here | root => exact .here (binds_assign settles inside)
  | above free up ends ih =>
    have apart : _ ≠ _ := Nat.ne_of_gt (Nat.lt_of_le_of_lt ends.le (parent?_lt up))
    refine .above ?_ (parent?_assign.trans up) (ih settles)
    rwa [locals_assign settles inside, if_neg apart]

theorem lookup_assign_seen (sees : (h.assign e name v).Sees name f t) :
    (h.assign e name v).lookup f name = some v := by
  rw [sees.lookup, locals_assign settles inside, if_pos rfl, Entries.find?_insert, if_pos rfl]

/-- A lookup of another name, or one that does not stop at the scope that is written, comes to the same. -/
theorem lookup_assign_unseen (unseen : ¬(other = name ∧ (h.assign e name v).Sees name f t)) :
    (h.assign e name v).lookup f other = h.lookup f other := by
  induction f using Nat.strongRecOn with
  | _ f ih =>
    have here : ((h.assign e name v).locals f).find? other = (h.locals f).find? other := by
      rw [locals_assign settles inside]
      split
      · next at_target =>
        subst at_target
        have apart : name ≠ other := fun same => unseen ⟨same.symm, .here (binds_assign settles inside)⟩
        rw [Entries.find?_insert, if_neg apart]
      · rfl
    rw [lookup_eq, lookup_eq h, here, parent?_assign]
    cases bound : (h.locals f).find? other with
    | some u => rfl
    | none =>
      cases up : h.parent? f with
      | none => rfl
      | some p =>
        refine ih p (parent?_lt up) ?_
        rintro ⟨rfl, sees⟩
        refine unseen ⟨rfl, .above ?_ (parent?_assign.trans up) sees⟩
        rw [Entries.binds, here, bound]
        rfl

/-- Who sees another scope than the one that is written goes on seeing it. -/
theorem not_sees_assign (sees : h.Sees name f s) (apart : s ≠ t) : ¬(h.assign e name v).Sees name f t := by
  induction sees with
  | here binds =>
    rintro (_ | ⟨free, _, _⟩)
    · exact apart rfl
    · rw [locals_assign settles inside, if_neg apart, binds] at free
      exact nomatch free
  | above free up _ ih =>
    rintro (_ | ⟨_, up', sees'⟩)
    · -- The scope that is written does not bind the name, so it is a root and nothing is above it.
      rcases settles.binds_or_top with binds | top
      · exact nomatch free.symm.trans binds
      · exact nomatch top.symm.trans up
    · obtain rfl := Option.some.inj (up.symm.trans (parent?_assign.symm.trans up'))
      exact ih apart sees'

end

theorem settles_root (free : ∀ y ∈ h.chain x, (h.locals y).binds name = false) :
    h.Settles name x (h.root x) := by
  rcases h.target_cases x name with ⟨there, binds⟩ | ⟨root, _⟩
  · exact nomatch (free _ there).symm.trans binds
  · exact settles_iff.2 root.symm

theorem free_of_lookup (unseen : h.lookup f name = none) :
    ∀ y ∈ h.chain f, (h.locals y).binds name = false := by
  intro y member
  refine Bool.eq_false_iff.2 fun binds => ?_
  have seen := lookup_isSome_iff.2 ⟨y, member, binds⟩
  rw [unseen] at seen
  exact nomatch seen

/-- A name that no scope of the chain binds comes to be visible from the scopes with the same root. -/
theorem lookup_assign_free (inside : e < h.next) (free : ∀ y ∈ h.chain e, (h.locals y).binds name = false)
    (unseen : h.lookup f name = none) :
    (h.assign e name v).lookup f name = if h.root f = h.root e then some v else none := by
  have settles := settles_root free
  split
  · next same =>
    have ends := settles_root (free_of_lookup unseen)
    rw [same] at ends
    exact lookup_assign_seen settles inside (sees_assign settles inside ends)
  · next apart =>
    rw [lookup_assign_unseen settles inside, unseen]
    rintro ⟨-, sees⟩
    have same : (h.assign e name v).chain f = h.chain f := chain_congr fun _ _ => parent?_assign
    have member : h.root e ∈ h.chain f := same ▸ sees.mem_chain
    exact apart ((root_of_mem_chain member).trans (root_of_mem_chain (h.root_mem_chain e)).symm)

end Heap

/-- An assignment writes one binding. It settles at the nearest scope of the chain that binds the name, or at
the root if none does. Every other scope has the bindings that it had, and that one has them too but for the
name. So a lookup from any scope comes to the new value if it is for the name and stops there, and else to what
it came to before: the scope that has assigned sees the new value, and who saw the name in another scope goes
on to see that. A name that no scope of the chain binds comes to the root, and of those who did not see it
before just the scopes under that root see it afterwards. -/
theorem assignment_writes_one_binding (h : Heap) {e : ScopeId} (inside : e < h.next) (name : String) (v : Value) :
    let h' := h.assign e name v
    ∃ t, (∀ s, h.Settles name e s ↔ s = t) ∧
      (h'.next = h.next ∧ ∀ x, h'.parent? x = h.parent? x) ∧
      (∀ x, x ≠ t → h'.locals x = h.locals x) ∧
      (∀ other, (h'.locals t).find? other = if other = name then some v else (h.locals t).find? other) ∧
      (∀ f other, (other = name ∧ h'.Sees name f t → h'.lookup f other = some v) ∧
        (¬(other = name ∧ h'.Sees name f t) → h'.lookup f other = h.lookup f other)) ∧
      h'.lookup e name = some v ∧
      (∀ f s, h.Sees name f s → s ≠ t → h'.lookup f name = h.lookup f name) ∧
      ((∀ y ∈ h.chain e, (h.locals y).binds name = false) → t = h.root e ∧
        ∀ f, h.lookup f name = none → h'.lookup f name = if h.root f = t then some v else none) := by
  intro h'
  have settles : h.Settles name e (h.target e name) := Heap.settles_iff.2 rfl
  refine ⟨h.target e name, fun s => Heap.settles_iff, ⟨Heap.next_declare, fun _ => Heap.parent?_assign⟩, ?others,
    ?written, ?lookups, ?own, ?shadowed, ?free⟩
  case others =>
    intro x apart
    rw [Heap.locals_assign settles inside, if_neg apart]
  case written =>
    intro other
    rw [Heap.locals_assign settles inside, if_pos rfl, Entries.find?_insert]
    simp only [eq_comm]
  case lookups =>
    intro f other
    refine ⟨?_, Heap.lookup_assign_unseen settles inside⟩
    rintro ⟨rfl, sees⟩
    exact Heap.lookup_assign_seen settles inside sees
  case own =>
    exact Heap.lookup_assign_seen settles inside (Heap.sees_assign settles inside settles)
  case shadowed =>
    intro f s sees apart
    exact Heap.lookup_assign_unseen settles inside fun here => Heap.not_sees_assign settles inside sees apart here.2
  case free =>
    intro free
    have root : h.target e name = h.root e := (Heap.settles_iff.1 (Heap.settles_root free)).symm
    refine ⟨root, fun f unseen => ?_⟩
    rw [root]
    exact Heap.lookup_assign_free inside free unseen

/-- A name is bound in a scope and in its parent, and the scope has two scopes under it of which one binds the
name again. The assignment from the other one is seen there and in the scope, and in no scope else; and what is
assigned without being bound anywhere is seen under that root only. -/
theorem shadowing_scope_is_unaffected :
    let h := (((((Heap.empty.addScope none [("x", .int 1)]).addScope (some 0) [("x", .int 2)]).child 1).addScope
      (some 1) [("x", .int 4)]).addScope none [])
    let assigned := h.assign 2 "x" (.int 5)
    let fresh := h.assign 2 "y" (.int 6)
    2 < h.next ∧ assigned.lookup 2 "x" = some (.int 5) ∧ assigned.lookup 1 "x" = some (.int 5) ∧
      assigned.lookup 0 "x" = some (.int 1) ∧ assigned.lookup 3 "x" = some (.int 4) ∧
      fresh.lookup 3 "y" = some (.int 6) ∧ fresh.lookup 4 "y" = none := by
  intro h assigned fresh
  have inside : 2 < h.next := by decide
  obtain ⟨t, settles, -, -, -, lookups, own, shadowed, -⟩ :=
    assignment_writes_one_binding h inside "x" (.int 5)
  obtain rfl : 1 = t := (settles 1).1 (.above rfl rfl (.here rfl))
  have parent : assigned.lookup 1 "x" = some (.int 5) := (lookups 1 "x").1 ⟨rfl, .here rfl⟩
  have root : assigned.lookup 0 "x" = h.lookup 0 "x" := shadowed 0 0 (.here rfl) (by decide)
  have sibling : assigned.lookup 3 "x" = h.lookup 3 "x" := shadowed 3 3 (.here rfl) (by decide)
  obtain ⟨_, -, -, -, -, -, -, -, free⟩ := assignment_writes_one_binding h inside "y" (.int 6)
  obtain ⟨rfl, visible⟩ := free (by decide)
  refine ⟨inside, own, parent, root.trans rfl, sibling.trans rfl, ?_, ?_⟩
  · exact (visible 3 rfl).trans rfl
  · exact (visible 4 rfl).trans rfl

end FlowScript
