import FlowScript.Proofs.Footprint
import FlowScript.Proofs.Ownership

/-! How far a run climbs. A block names blocks before it only, so each frame and each scope that a block
puts on top of others is paid for with its number; whatever a run does, its chains stay below the number of
the root. -/
namespace FlowScript

namespace Heap
variable {h h' h'' : Heap} {e x : ScopeId}

/-- All scopes are still there, each below the parent that it had; there may be further ones. -/
structure Wider (h h' : Heap) : Prop where
  next_le : h.next ≤ h'.next
  parents : ∀ e < h.next, h'.parent? e = h.parent? e

theorem Wider.refl (h : Heap) : h.Wider h := ⟨Nat.le_refl _, fun _ _ => rfl⟩

theorem Wider.trans (first : h.Wider h') (second : h'.Wider h'') : h.Wider h'' where
  next_le := Nat.le_trans first.next_le second.next_le
  parents e lt := (second.parents e (Nat.lt_of_lt_of_le lt first.next_le)).trans (first.parents e lt)

theorem wider_declare (h : Heap) (e : ScopeId) (name : String) (v : Value) : h.Wider (h.declare e name v) :=
  ⟨by simp, fun _ _ => by simp⟩

theorem wider_assign (h : Heap) (e : ScopeId) (name : String) (v : Value) : h.Wider (h.assign e name v) :=
  h.wider_declare _ name v

theorem wider_child (h : Heap) (e : ScopeId) : h.Wider (h.child e) :=
  let larger := Extends.addScope h (some e) []
  ⟨larger.next_le, larger.parents⟩

theorem lt_next_of_parent? {p : ScopeId} (up : h.parent? e = some p) : e < h.next := by
  refine Nat.lt_of_not_le fun beyond => ?_
  simp [parent?, Array.getElem?_eq_none beyond] at up

/-- A scope has one ancestor more than its parent. -/
theorem depth_eq (h : Heap) (e : ScopeId) :
    h.depth e = ((h.parent? e).map fun p => h.depth p + 1).getD 0 := by
  rw [depth, chain_eq]
  cases h.parent? e with
  | none => rfl
  | some p =>
    have here : 0 < (h.chain p).length := by
      rw [chain_eq]
      exact Nat.succ_pos _
    simp only [depth, Option.map_some, Option.getD_some, List.length_cons]
    omega

theorem depth_of_parent? {p : ScopeId} (up : h.parent? e = some p) : h.depth e = h.depth p + 1 := by
  rw [depth_eq, up]
  rfl

theorem Wider.depth (wider : h.Wider h') (inside : e < h.next) : h'.depth e = h.depth e := by
  induction e using Nat.strongRecOn with
  | _ e ih =>
    rw [depth_eq h', depth_eq h, wider.parents e inside]
    cases up : h.parent? e with
    | none => rfl
    | some p =>
      have lt := parent?_lt up
      simp only [Option.map_some, ih p lt (Nat.lt_trans lt inside)]

theorem parent?_child (inside : e < h.next) : (h.child e).parent? h.next = some e := by
  simp [child, parent?_addScope, inside]

end Heap

/-- Scopes that are paired have as many ancestors. -/
theorem Matched.depth {R : ScopeId → ScopeId → Prop} {h h' : Heap} (matched : Matched R h h')
    (related : R e e') : h'.depth e' = h.depth e := by
  rw [Heap.depth, Heap.depth, (matched.chain related).length_eq]

/-! ### What comes at once -/

/-- From a heap and a scope in it: a step with at most one frame of its own, in this scope or evaluating in
a new one right below it. -/
structure Nearby (h : Heap) (e : ScopeId) (r : Heap × Step) : Prop where
  wider : h.Wider r.1
  frames : r.2.rest.length ≤ 1
  scopes : ∀ f ∈ r.2.rest, f.scope = e
  evaluates : ∀ b x k, r.2 = .eval b x k → x = e ∨ r.1.parent? x = some e

namespace Footprint
variable {h : Heap} {e : ScopeId} {assigned : Option (ScopeId × String × Value)} {r : Heap × Step}

theorem wider (print : Footprint h e assigned r) : h.Wider r.1 := by
  cases print with
  | declares => exact h.wider_declare _ _ _
  | assigns => exact h.wider_assign _ _ _
  | opens => exact h.wider_child e
  | catches => exact (h.wider_child e).trans (Heap.wider_declare _ _ _ _)
  | signals | calls | callsFor | asks | evaluates | evaluatesFor => exact .refl h

theorem nearby (print : Footprint h e assigned r) (inside : e < h.next) : Nearby h e r where
  wider := print.wider
  frames := print.length_rest
  scopes f member := by
    cases print with
    | callsFor | evaluatesFor | catches => rw [List.mem_singleton.1 member]
    | signals | calls | asks | evaluates | declares | assigns | opens => exact nomatch member
  evaluates b x k is := by
    cases print with
    | evaluates | evaluatesFor =>
      cases is
      exact .inl rfl
    | opens =>
      cases is
      exact .inr (Heap.parent?_child inside)
    | catches =>
      cases is
      exact .inr (Heap.parent?_declare.trans (Heap.parent?_child inside))
    | signals | calls | callsFor | asks | declares | assigns => exact nomatch is

end Footprint

/-- A block without children leaves nothing to do. -/
theorem Block.rest_evaluate (block : Block) {h : Heap} (some : (block.evaluate h e []).2.rest ≠ []) :
    ∃ c, c ∈ block.children := by
  cases block with
  | constant | scope => exact absurd rfl some
  | readVariable name =>
    simp only [evaluate] at some
    split at some <;> exact absurd rfl some
  | declare name init =>
    cases init with
    | none => exact absurd rfl some
    | some b => exact ⟨b, by simp [children]⟩
  | sequence body =>
    cases body with
    | nil => exact absurd rfl some
    | cons first => exact ⟨first, by simp [children]⟩
  | call receiver method args =>
    cases receiver with
    | none =>
      cases args with
      | nil => exact absurd rfl some
      | cons first => exact ⟨first, by simp [children]⟩
    | some b => exact ⟨b, by simp [children]⟩
  | assign | logical | not | binary | ifElse | whileLoop | property | setProperty | throw | tryCatch
  | yield =>
    exact ⟨_, by
      simp only [children, List.cons_append]
      exact List.mem_cons_self ..⟩

/-! ### Under a ceiling -/

/-- How high the frames of a run may stand, and how deep its scopes. -/
structure Ceiling where
  frames : Nat
  scopes : Nat

namespace Ceiling

/-- There is room for a block over `below` frames in the scope: as much as its number. -/
structure Admits (c : Ceiling) (h : Heap) (below : Nat) (e : ScopeId) (b : BlockId) : Prop where
  frames : below + b ≤ c.frames
  scopes : h.depth e + b ≤ c.scopes

/-- A frame over `below` others, with room for its blocks behind it. -/
structure Holds (c : Ceiling) (h : Heap) (below : Nat) (f : Frame) : Prop where
  inside : f.scope < h.next
  frames : below < c.frames
  scopes : h.depth f.scope ≤ c.scopes
  blocks : ∀ b ∈ f.captured.blocks, c.Admits h below f.scope (b + 1)

/-- Each frame has room over those below it. -/
inductive Covers (c : Ceiling) (h : Heap) : Continuation → Prop where
  | nil : Covers c h []
  | cons : c.Holds h k.length f → Covers c h k → Covers c h (f :: k)

/-- All frames of the step have room, and so has the block that it evaluates. -/
structure Keeps (c : Ceiling) (h : Heap) (s : Step) : Prop where
  rest : c.Covers h s.rest
  evaluates : ∀ b e k, s = .eval b e k → e < h.next ∧ c.Admits h k.length e b

variable {c : Ceiling} {h h' : Heap} {e : ScopeId} {k : Continuation}

theorem Covers.length_le (covers : c.Covers h k) : k.length ≤ c.frames := by
  cases covers with
  | nil => exact Nat.zero_le _
  | cons top _ => exact top.frames

theorem Covers.mem (covers : c.Covers h k) (member : f ∈ k) : ∃ below, c.Holds h below f := by
  induction covers with
  | nil => exact nomatch member
  | cons top _ ih =>
    rcases List.mem_cons.1 member with rfl | behind
    · exact ⟨_, top⟩
    · exact ih behind

theorem Admits.of_depth {e' : ScopeId} (admits : c.Admits h below e b) (same : h'.depth e' = h.depth e) :
    c.Admits h' below e' b :=
  ⟨admits.frames, same ▸ admits.scopes⟩

theorem Covers.wider (covers : c.Covers h k) (wider : h.Wider h') : c.Covers h' k := by
  induction covers with
  | nil => exact .nil
  | cons top _ ih =>
    have depth := wider.depth top.inside
    refine .cons ⟨Nat.lt_of_lt_of_le top.inside wider.next_le, top.frames, depth ▸ top.scopes, ?_⟩ ih
    exact fun b member => (top.blocks b member).of_depth depth

/-- The copies of the frames have as much room in the copies of their scopes. -/
theorem Covers.alike {R : ScopeId → ScopeId → Prop} {k' : Continuation} (matched : Matched R h h')
    (alike : k.Alike R k') (covers : c.Covers h k) : c.Covers h' k' := by
  induction alike with
  | nil => exact .nil
  | cons same others ih =>
    cases covers with
    | cons top rest =>
      have depth := matched.depth same.scope
      rw [others.length_eq] at top
      refine .cons ⟨(matched.inside _ _ same.scope).2, top.frames, depth ▸ top.scopes, ?_⟩ (ih rest)
      exact fun b member => (top.blocks b (same.captured ▸ member)).of_depth depth

/-- What comes at once in a scope has room where there is room for its blocks. -/
theorem keeps_onto {r : Heap × Step} (near : Nearby h e r) (inside : e < h.next) (covers : c.Covers h k)
    (scopes : h.depth e ≤ c.scopes) (frames : r.2.rest ≠ [] → k.length < c.frames)
    (ahead : ∀ b ∈ r.2.blocks, c.Admits h k.length e (b + 1)) : c.Keeps r.1 (r.2.onto k) := by
  obtain ⟨h', s⟩ := r
  have depth := near.wider.depth inside
  have inside' := Nat.lt_of_lt_of_le inside near.wider.next_le
  have own : ∀ f ∈ s.rest, c.Holds h' k.length f := by
    intro f member
    obtain rfl := near.scopes f member
    refine ⟨inside', frames (List.ne_nil_of_mem member), depth ▸ scopes, fun b block => ?_⟩
    refine (ahead b ?_).of_depth depth
    have behind : b ∈ s.rest.blocks := List.mem_flatMap.2 ⟨f, member, block⟩
    cases s with
    | eval => exact List.mem_cons_of_mem _ behind
    | resume | invoke | yield => exact behind
  constructor
  · have below := covers.wider near.wider
    have single := near.frames
    rw [Step.rest_onto]
    cases rest : s.rest with
    | nil => exact below
    | cons f others =>
      rw [rest] at single
      obtain rfl := List.length_eq_zero_iff.1 (Nat.le_zero.1 (Nat.le_of_succ_le_succ single))
      exact .cons (own f (by simp [rest])) below
  · intro b x k' is
    match s, is with
    | .eval b x own, rfl =>
      obtain ⟨under, deep⟩ := ahead b (List.mem_cons_self ..)
      have single : own.length ≤ 1 := near.frames
      rcases near.evaluates b x own rfl with rfl | up
      · exact ⟨inside', ⟨by rw [List.length_append]; omega, by rw [depth]; omega⟩⟩
      · have deeper := Heap.depth_of_parent? up
        exact ⟨Heap.lt_next_of_parent? up, ⟨by rw [List.length_append]; omega, by omega⟩⟩

end Ceiling

/-! ### Runs under a ceiling -/

/-- The step that a run stands at, also where it waits for an answer. -/
def Standing.current? : Standing → Option Step
  | .running s => some s
  | .parked x => some (.yield x.request x.k)
  | .ended _ => none

/-- The chains of the step stay under the ceiling, by the number of the block where it evaluates one. -/
structure Step.Under (c : Ceiling) (h : Heap) (s : Step) : Prop where
  frames : s.rest.length ≤ c.frames
  scopes : ∀ e ∈ s.scopes, e < h.next ∧ h.depth e ≤ c.scopes
  evaluates : ∀ b e k, s = .eval b e k → k.length + b ≤ c.frames ∧ h.depth e + b ≤ c.scopes

namespace Ceiling
variable {c : Ceiling} {h : Heap} {s : Step}

theorem Keeps.under (keeps : c.Keeps h s) : s.Under c h where
  frames := keeps.rest.length_le
  scopes := by
    have frames : ∀ e ∈ s.rest.map Frame.scope, e < h.next ∧ h.depth e ≤ c.scopes := by
      intro e member
      obtain ⟨f, here, rfl⟩ := List.mem_map.1 member
      obtain ⟨_, holds⟩ := keeps.rest.mem here
      exact ⟨holds.inside, holds.scopes⟩
    cases s with
    | eval b e k =>
      obtain ⟨inside, admits⟩ := keeps.evaluates b e k rfl
      exact List.forall_mem_cons.2 ⟨⟨inside, Nat.le_trans (Nat.le_add_right ..) admits.scopes⟩, frames⟩
    | resume | invoke | yield => exact frames
  evaluates b e k is :=
    let ⟨_, admits⟩ := keeps.evaluates b e k is
    ⟨admits.frames, admits.scopes⟩

/-- A run is kept under the ceiling where the step that it stands at is. -/
def Contains (c : Ceiling) (m : Machine σ) (st : Stage σ) : Prop :=
  st.standing.Fits m.program ∧ ∀ s, st.standing.current? = some s → c.Keeps st.world.heap s

end Ceiling

namespace Machine
variable {σ : Type} {m : Machine σ} {c : Ceiling}

theorem step_keeps (wf : m.program.WellFormed) {w w' : World σ} {s s' : Step} (fits : s.Fits m.program)
    (keeps : c.Keeps w.heap s) (acts : m.Acts w s w' s') : c.Keeps w'.heap s' := by
  cases acts with
  | missing => exact ⟨keeps.rest, by rintro _ _ _ ⟨⟩⟩
  | @block b block e k found =>
    obtain ⟨inside, admits⟩ := keeps.evaluates b e k rfl
    have near := (block.footprint_evaluate w.heap e).nearby inside
    refine Ceiling.keeps_onto near inside keeps.rest (by have := admits.scopes; omega) ?_ ?_
    · intro some
      obtain ⟨child, member⟩ := block.rest_evaluate some
      have some_room := Nat.zero_lt_of_lt (wf.1 b block found child member)
      exact Nat.lt_of_lt_of_le (Nat.lt_add_of_pos_right some_room) admits.frames
    · intro child ahead
      have member := block.evaluate_blocks ahead
      simp only [Continuation.blocks, List.flatMap_nil, List.append_nil] at member
      have before : child + 1 ≤ b := wf.1 b block found child member
      exact ⟨Nat.le_trans (Nat.add_le_add_left before _) admits.frames,
        Nat.le_trans (Nat.add_le_add_left before _) admits.scopes⟩
  | passed =>
    cases keeps.rest with
    | cons _ below => exact ⟨below, by rintro _ _ _ ⟨⟩⟩
  | @resumed signal f k go resumed =>
    cases keeps.rest with
    | cons top below =>
      have nearby := (Frame.footprint_resume resumed w.heap).nearby top.inside
      refine Ceiling.keeps_onto nearby top.inside below top.scopes
        (fun _ => top.frames) fun b ahead => top.blocks b ?_
      have named := Frame.resume_blocks (Continuation.fits_cons.1 fits).1 resumed w.heap ahead
      simpa [Continuation.blocks] using named
  | @invoked call k =>
    have below := keeps.rest
    cases (m.host call w.host).1 <;> exact ⟨below, by rintro _ _ _ ⟨⟩⟩

theorem run_contained (wf : m.program.WellFormed) {w : World σ} {s : Step}
    (contained : c.Contains m ⟨w, .running s⟩) (budget : Nat) :
    c.Contains m ⟨(m.run budget w s).1, .ofOutcome (m.run budget w s).2⟩ := by
  obtain ⟨s', ⟨fits, keeps⟩, left⟩ := run_invariant (m := m)
    (I := fun w s => s.Fits m.program ∧ c.Keeps w.heap s) (fun w s w' s' both step =>
      let leads := leads_of_step step
      ⟨leads_fits rfl both.1 leads, step_keeps wf both.1 both.2 leads.acts⟩)
    budget (w := w) ⟨contained.1, contained.2 s rfl⟩
  refine ⟨fits.standing left, fun s₁ current => ?_⟩
  cases outcome : Standing.ofOutcome (m.run budget w s).2 with
  | running s₂ | parked x =>
    simp only [outcome, Standing.At, Standing.current?, Option.some.injEq] at left current
    exact current ▸ left ▸ keeps
  | ended =>
    simp only [outcome, Standing.current?] at current
    cases current

theorem persist_contained {w : World σ} (contained : c.Contains m ⟨w, .parked x⟩) (into : Heap) :
    c.Contains m (m.move ⟨w, .parked x⟩ (.persist into)) := by
  obtain ⟨fits, keeps⟩ := contained
  have covers := (keeps _ rfl).rest
  obtain ⟨_, y, restored, fits'⟩ := restored_fits (x := x) fits w.heap into
  have inside : ∀ f ∈ x.k, f.scope < w.heap.next := by
    intro f member
    obtain ⟨_, holds⟩ := covers.mem member
    exact holds.inside
  obtain ⟨R, into', y', restored', matched, _, alike⟩ := Snapshot.restore_alike w.heap into x inside
  obtain ⟨rfl, same⟩ := Prod.mk.inj (restored.symm.trans restored')
  obtain rfl := Except.ok.inj same
  simp only [move, restored]
  refine ⟨fits', fun s current => ?_⟩
  obtain rfl := Option.some.inj current
  cases alike with
  | parked rest => exact ⟨covers.alike matched rest, by rintro _ _ _ ⟨⟩⟩

theorem move_contained (wf : m.program.WellFormed) {st : Stage σ} (contained : c.Contains m st)
    (mv : Move) : c.Contains m (m.move st mv) := by
  obtain ⟨w, standing⟩ := st
  match mv, standing with
  | .slice budget, .running s => exact run_contained wf contained budget
  | .answer signal, .parked x =>
    refine ⟨contained.1, fun s current => ?_⟩
    obtain rfl := Option.some.inj current
    exact ⟨(contained.2 _ rfl).rest, nofun⟩
  | .persist into, .parked x => exact persist_contained contained into
  | .slice _, .parked _ | .slice _, .ended _ | .answer _, .running _ | .answer _, .ended _
  | .persist _, .running _ | .persist _, .ended _ => exact contained

theorem opening_contained (m : Machine σ) {w : World σ} {e : ScopeId} (inside : e < w.heap.next) :
    Ceiling.Contains ⟨m.program.root, w.heap.depth e + m.program.root⟩ m (m.opening w e) := by
  refine ⟨m.opening_fits w e, fun s current => ?_⟩
  obtain rfl := Option.some.inj current
  refine ⟨.nil, fun b x k is => ?_⟩
  cases is
  exact ⟨inside, ⟨Nat.le_of_eq (Nat.zero_add _), Nat.le_refl _⟩⟩

end Machine

/-- Whatever moves the host makes, at every step that a run of a valid program comes to the frames are no
more than the number of the root, and its scopes have no more ancestors than that beyond those of the
scope that it has started in. -/
theorem chains_stay_below_root {σ : Type} (m : Machine σ) (valid : m.program.validate = .ok ())
    (w w' : World σ) (e : ScopeId) (inside : e < w.heap.next) (moves : List Move)
    (reached : m.after (m.opening w e) moves = ⟨w', standing⟩) (current : standing.current? = some s) :
    s.Under ⟨m.program.root, w.heap.depth e + m.program.root⟩ w'.heap ∧ m.program.root < m.program.size := by
  have wf := m.program.validate_eq_ok_iff.1 valid
  let c : Ceiling := ⟨m.program.root, w.heap.depth e + m.program.root⟩
  have contained : c.Contains m (m.after (m.opening w e) moves) :=
    Machine.after_invariant (I := c.Contains m)
      (fun _ mv _ contained => Machine.move_contained wf contained mv) (m.opening_contained inside)
      fun _ _ => trivial
  rw [reached] at contained
  exact ⟨(contained.2 s current).under, wf.2⟩

/-- A loop around a request that is answered, once after the run has been written out, waits again in a new
scope over the frame of its loop. -/
theorem restored_loop_stays_below_root :
    ∃ (m : Machine Unit) (h : Heap) (moves : List Move) (w' : World Unit) (standing : Standing) (s : Step),
      m.program.validate = .ok () ∧ 1 < h.next ∧ h.depth 1 = 1 ∧
        m.after (m.opening ⟨h, ()⟩ 1) moves = ⟨w', standing⟩ ∧ standing.current? = some s ∧
        s.rest.length = 1 ∧ s.Under ⟨3, 4⟩ w'.heap ∧ m.program.root < m.program.size := by
  let m : Machine Unit :=
    Program.machine ⟨#[.constant (.bool true), .yield 0, .scope 1, .whileLoop 0 2], 3⟩ fun _ u =>
      (.ok .null, u)
  let h : Heap := (Heap.empty.addScope none []).child 0
  let moves : List Move :=
    [.slice 10, .persist .empty, .answer (.value .null), .slice 10, .answer (.value .null), .slice 10]
  let st := m.after (m.opening ⟨h, ()⟩ 1) moves
  have one_frame : st.standing.current?.any (·.rest.length == 1) := by decide +kernel
  obtain ⟨s, current, frames⟩ := (Option.any_eq_true ..).1 one_frame
  refine ⟨m, h, moves, st.world, st.standing, s, rfl, by decide, by decide, rfl, current,
    beq_iff_eq.1 frames, ?_⟩
  exact chains_stay_below_root m rfl ⟨h, ()⟩ st.world 1 (by decide) moves rfl current

end FlowScript
