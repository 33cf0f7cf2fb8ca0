import FlowScript.Proofs.Storable

/-! Which parked runs can be written out and read back: those whose values, wherever the snapshot keeps
them, hold finite floats only and do not nest too deeply for the brackets around them. -/
namespace FlowScript

/-! ### The values of a snapshot -/

/-- The values in the captured state, each with the number of brackets around it. -/
def Captured.values : Captured → List (Nat × Value)
  | .binaryRhs _ v | .storeReceiver _ v => [(1, v)]
  | .call _ _ receiver evaluated =>
    receiver.toList.map (fun v => (1, v)) ++ evaluated.map fun v => (2, v)
  | .cleanup (.value v) => [(2, v)]
  | .cleanup (.thrown f) => f.payload.toList.map fun v => (3, v)
  | _ => []

/-- The values in the snapshot, each with the number of brackets around it. -/
def Snapshot.values (s : Snapshot) : List (Nat × Value) :=
  (1, s.request) :: (s.scopes.flatMap fun r => r.bindings.map fun b => (4, b.2)) ++
    s.frames.flatMap fun f => f.captured.values.map fun v => (v.1 + 3, v.2)

theorem Value.nesting_bindings_le {b : Bindings} :
    (bindingsToJson b).nesting ≤ d + 1 ↔ ∀ e ∈ b, e.2.toJson.nesting ≤ d := by
  rw [bindingsToJson, Json.nesting_record_le, entriesToJson_eq, List.forall_mem_map]

theorem Signal.nesting_le_iff (s : Signal) :
    s.toJson.nesting ≤ d + 2 ↔
      ∀ v ∈ (Captured.cleanup s).values, v.1 + v.2.toJson.nesting ≤ d + 3 := by
  have two : ∀ n, 2 + n ≤ d + 3 ↔ n ≤ d + 1 := by omega
  have three : ∀ n, 3 + n ≤ d + 3 ↔ n ≤ d := by omega
  cases s with
  | value v => simp [toJson, Captured.values, Json.nesting_record_le, two]
  | thrown f =>
    obtain ⟨kind, message, payload⟩ := f
    cases payload <;>
      simp [toJson, Failure.toJson, Captured.values, Json.nesting_record_le, Json.nesting_string_le, three]

theorem Captured.nesting_le_iff (c : Captured) :
    c.toJson.nesting ≤ d + 3 ↔ ∀ v ∈ c.values, v.1 + v.2.toJson.nesting ≤ d + 3 := by
  have one : ∀ n, 1 + n ≤ d + 3 ↔ n ≤ d + 2 := by omega
  have two : ∀ n, 2 + n ≤ d + 3 ↔ n ≤ d + 1 := by omega
  cases c with
  | call method args receiver evaluated =>
    simp only [values, List.forall_mem_append, List.forall_mem_map, Option.mem_toList]
    simp [toJson, tagged, Json.nesting_record_le, Json.nesting_list_le, Json.nesting_optional_le,
      Json.nesting_int_le, Json.nesting_string_le, Block.idJson, one, two]
  | cleanup pending =>
    rw [← Signal.nesting_le_iff]
    simp [toJson, tagged, Json.nesting_record_le, Json.nesting_string_le]
  | _ =>
    simp [toJson, tagged, values, Json.nesting_record_le, Json.nesting_list_le,
      Json.nesting_optional_le, Json.nesting_int_le, Json.nesting_string_le, Json.nesting_bool_le,
      Block.idJson, CatchClause.nesting_le, one]

theorem Snapshot.nesting_le_iff (s : Snapshot) :
    s.toJson.nesting ≤ d + 6 ↔ ∀ v ∈ s.values, v.1 + v.2.toJson.nesting ≤ d + 6 := by
  have request : 1 + s.request.toJson.nesting ≤ d + 6 ↔ s.request.toJson.nesting ≤ d + 5 := by omega
  have scope : ∀ r : ScopeRecord, (recordJson r).nesting ≤ d + 4 ↔
      ∀ b ∈ r.bindings, 4 + b.2.toJson.nesting ≤ d + 6 := by
    intro r
    have four : ∀ n, 4 + n ≤ d + 6 ↔ n ≤ d + 2 := by omega
    obtain ⟨_ | p, bindings⟩ := r <;>
      simp [recordJson, Json.nesting_record_le, Json.nesting_optional_le, Json.nesting_int_le,
        Value.nesting_bindings_le, four]
  have frame : ∀ f : FrameRecord, (frameJson f).nesting ≤ d + 4 ↔
      ∀ v ∈ f.captured.values, v.1 + 3 + v.2.toJson.nesting ≤ d + 6 := by
    intro f
    have three : ∀ k n, k + 3 + n ≤ d + 6 ↔ k + n ≤ d + 3 := by omega
    simp only [three, ← Captured.nesting_le_iff]
    simp [frameJson, Json.nesting_record_le, Json.nesting_string_le, Json.nesting_int_le]
  simp only [values, List.cons_append, List.forall_mem_cons, List.forall_mem_append, List.forall_mem_flatMap,
    List.forall_mem_map, request, ← scope, ← frame]
  simp [toJson, Json.nesting_record_le, Json.nesting_list_le]

/-! ### The floats of a snapshot -/

namespace Json

theorem float_mem_record :
    .float f ∈ numbers (record fields) ↔ ∃ g ∈ fields, .float f ∈ numbers g.2 := mem_fieldsNumbers

theorem float_mem_list :
    .float f ∈ numbers (list items) ↔ ∃ j ∈ items, .float f ∈ numbers j := mem_itemsNumbers

theorem float_mem_optional {o : Option Json} :
    .float f ∈ numbers (optional o) ↔ ∃ j ∈ o, .float f ∈ numbers j := by
  cases o <;> simp [optional, numbers]

theorem numbers_string : numbers (.string s) = [] := by simp [numbers]

theorem numbers_bool : numbers (.bool b) = [] := by simp [numbers]

theorem float_not_mem_int : .float f ∉ numbers (.int i) := by simp [Json.int, numbers]

theorem finite_iff {j : Json} : j.Finite ↔ ∀ f, .float f ∈ j.numbers → Decimal.isFinite f := by
  constructor
  · exact fun finite f member => finite _ member
  · intro floats n member
    cases n with
    | int i => rfl
    | float f => exact floats f member

end Json

theorem CatchClause.no_float (c : CatchClause) : .float f ∉ c.toJson.numbers := by
  simp [toJson, Json.float_mem_record, Json.float_mem_optional, Json.numbers_string,
    Json.float_not_mem_int]

theorem Captured.float_mem_iff (c : Captured) :
    .float f ∈ c.toJson.numbers ↔ ∃ v ∈ c.values, .float f ∈ v.2.toJson.numbers := by
  cases c with
  | cleanup pending =>
    cases pending with
    | value v => simp [toJson, tagged, Signal.toJson, values, Json.float_mem_record, Json.numbers_string]
    | thrown f' =>
      obtain ⟨kind, message, payload⟩ := f'
      cases payload <;> simp [toJson, tagged, Signal.toJson, Failure.toJson, values,
        Json.float_mem_record, Json.numbers_string]
  | _ =>
    simp [toJson, tagged, values, Json.float_mem_record, Json.float_mem_list, Json.float_mem_optional,
      Json.numbers_string, Json.numbers_bool, Json.float_not_mem_int, Block.idJson,
      CatchClause.no_float, or_and_right, exists_or]

theorem Value.float_mem_bindings {b : Bindings} :
    .float f ∈ (bindingsToJson b).numbers ↔ ∃ e ∈ b, .float f ∈ e.2.toJson.numbers := by
  simp [bindingsToJson, Json.float_mem_record, entriesToJson_eq]

theorem Snapshot.float_mem_iff (s : Snapshot) :
    .float f ∈ s.toJson.numbers ↔ ∃ v ∈ s.values, .float f ∈ v.2.toJson.numbers := by
  have scope : ∀ r : ScopeRecord, .float f ∈ (recordJson r).numbers ↔
      ∃ b ∈ r.bindings, .float f ∈ b.2.toJson.numbers := by
    intro r
    obtain ⟨_ | p, bindings⟩ := r <;>
      simp [recordJson, Json.float_mem_record, Json.float_mem_optional, Json.float_not_mem_int,
        Value.float_mem_bindings]
  have frame : ∀ f' : FrameRecord, .float f ∈ (frameJson f').numbers ↔
      ∃ v ∈ f'.captured.values, .float f ∈ v.2.toJson.numbers := by
    intro f'
    simp [frameJson, Json.float_mem_record, Json.numbers_string, Json.float_not_mem_int,
      Captured.float_mem_iff]
  simp [toJson, values, Json.float_mem_record, Json.float_mem_list, scope, frame, or_and_right,
    exists_or, and_assoc]

/-! ### Parked runs -/

/-- Whether the value, behind so many brackets, is read back: it does not nest too deeply, and its
floats are finite. -/
structure Value.Readable (around : Nat) (v : Value) : Prop where
  shallow : around + v.toJson.nesting ≤ Json.maxDepth
  finite : ∀ f, .float f ∈ v.toJson.numbers → Decimal.isFinite f

theorem Snapshot.readable_iff (s : Snapshot) :
    s.toJson.nesting ≤ Json.maxDepth ∧ s.toJson.Finite ↔ ∀ v ∈ s.values, v.2.Readable v.1 := by
  have shallow : s.toJson.nesting ≤ Json.maxDepth ↔
      ∀ v ∈ s.values, v.1 + v.2.toJson.nesting ≤ Json.maxDepth := s.nesting_le_iff (d := 121)
  rw [shallow, Json.finite_iff]
  simp only [float_mem_iff]
  constructor
  · rintro ⟨shallow, finite⟩ v member
    exact ⟨shallow v member, fun f inside => finite f ⟨v, member, inside⟩⟩
  · intro readable
    refine ⟨fun v member => (readable v member).shallow, ?_⟩
    rintro f ⟨v, member, inside⟩
    exact (readable v member).finite f inside

/-- A parked run is read back from its text exactly where all of its values are readable in their
places. Nothing in a run sees to it that they are. -/
theorem parked_run_is_read_back_iff (m : Machine σ) (program : m.program.Storable) {fit : σ → Prop}
    (host : m.host.Keeps fit) (w w' : World σ) (world : w.Kept fit) (e : ScopeId) (moves : List Move)
    (given : ∀ mv ∈ moves, mv.Ordered) (reached : m.after (m.opening w e) moves = ⟨w', .parked x⟩)
    (few : (Snapshot.capture w'.heap x).scopes.length ≤ UInt64.size)
    (digits : ∀ v ∈ (Snapshot.capture w'.heap x).values, ∀ f, .float f ∈ v.2.toJson.numbers →
      Json.Number.Legible (.float f)) :
    Snapshot.ofText (Snapshot.capture w'.heap x).text = .ok (Snapshot.capture w'.heap x) ↔
      ∀ v ∈ (Snapshot.capture w'.heap x).values, v.2.Readable v.1 := by
  have kept := Machine.after_kept program host (Machine.opening_kept program world e) given
  rw [reached] at kept
  obtain ⟨⟨ordered, -⟩, request, frames⟩ := kept
  have storable := Snapshot.capture_storable ordered request frames few
  rw [← Snapshot.readable_iff]
  refine Snapshot.ofText_text storable fun f member => ?_
  obtain ⟨v, there, inside⟩ := (Snapshot.float_mem_iff _).1 member
  exact digits v there f inside

/-- A run that is parked amid a sum, with a map of a float bound in its scope, is read back. -/
theorem parked_sum_is_read_back :
    ∃ (m : Machine Unit) (w : World Unit) (moves : List Move) (w' : World Unit) (x : Suspension),
      m.after (m.opening w 0) moves = ⟨w', .parked x⟩ ∧
        (Snapshot.capture w'.heap x).values.length = 3 ∧
        Snapshot.ofText (Snapshot.capture w'.heap x).text = .ok (Snapshot.capture w'.heap x) := by
  let p : Program := ⟨#[.constant (.map [("a", .float 1.5), ("b", .null)]), .declare "x" (some 0),
    .readVariable "x", .yield 2, .binary .add 2 3, .sequence [1, 4]], 5⟩
  let m : Machine Unit := p.machine fun _ u => (.ok .null, u)
  let w : World Unit := ⟨Heap.empty.addScope none [], ()⟩
  let moves : List Move := [.slice 20, .persist .empty]
  have program : p.Storable := by
    refine ⟨by decide, fun b block found => ?_⟩
    have member := Array.mem_of_getElem? found
    simp only [p, List.mem_toArray, List.mem_cons, List.not_mem_nil, or_false] at member
    rcases member with rfl | rfl | rfl | rfl | rfl | rfl
    case inl =>
      refine ⟨by decide, ?_, nofun⟩
      rintro _ ⟨⟩
      have order : "a" < "b" := by decide
      have sorted : Entries.Sorted [("a", Value.float 1.5), ("b", .null)] := by
        simp only [Entries.Sorted, List.pairwise_cons, List.forall_mem_cons]
        exact ⟨⟨order, nofun⟩, nofun, .nil⟩
      exact ⟨sorted, trivial, trivial, trivial⟩
    all_goals exact ⟨by decide, nofun, by rintro _ ⟨⟩ <;> decide⟩
  have host : m.host.Keeps fun _ => True := ⟨fun _ _ _ _ => trivial, fun _ _ _ _ => trivial⟩
  have empty : Heap.empty.Ordered := fun _ => Bindings.ordered_nil
  have given : ∀ mv ∈ moves, mv.Ordered := by simp [moves, Move.Ordered, empty]
  have facts : (m.after (m.opening w 0) moves).parked?.any fun x =>
      let s := Snapshot.capture (m.after (m.opening w 0) moves).world.heap x
      s.values.length == 3 && decide (s.scopes.length ≤ UInt64.size) &&
        s.values.all fun v => decide (v.1 + v.2.toJson.nesting ≤ Json.maxDepth) &&
          v.2.toJson.numbers.all fun n => decide (n.toFloat = 1.5) := by
    decide +kernel
  obtain ⟨x, parked, facts⟩ := (Option.any_eq_true ..).1 facts
  have reached := Stage.of_parked? parked
  simp only [Bool.and_eq_true, beq_iff_eq, decide_eq_true_eq, List.all_eq_true] at facts
  obtain ⟨⟨count, few⟩, fine⟩ := facts
  have one_float : ∀ v ∈ (Snapshot.capture (m.after (m.opening w 0) moves).world.heap x).values,
      ∀ f, .float f ∈ v.2.toJson.numbers → f = 1.5 :=
    fun v member f inside => (fine v member).2 _ inside
  have legible : Json.Number.Legible (.float 1.5) := fun _ => rfl
  have finite : Decimal.isFinite 1.5 := by decide +kernel
  refine ⟨m, w, moves, _, x, reached, count, ?_⟩
  refine (parked_run_is_read_back_iff m program host w _ ⟨empty.addScope Bindings.ordered_nil _, trivial⟩
    0 moves given reached few ?_).2 ?_
  · intro v member f inside
    rw [one_float v member f inside]
    exact legible
  · intro v member
    refine ⟨(fine v member).1, fun f inside => ?_⟩
    rw [one_float v member f inside]
    exact finite

/-- A run that asks for a quotient by zero is parked with an infinite request, and is not read back. -/
theorem infinite_quotient_is_not_read_back :
    ∃ (m : Machine Unit) (w : World Unit) (moves : List Move) (w' : World Unit) (x : Suspension),
      m.program.validate = .ok () ∧ m.after (m.opening w 0) moves = ⟨w', .parked x⟩ ∧
        Snapshot.ofText (Snapshot.capture w'.heap x).text ≠ .ok (Snapshot.capture w'.heap x) := by
  let p : Program :=
    ⟨#[.constant (.float 1.0), .constant (.float 0.0), .binary .div 0 1, .yield 2], 3⟩
  let m : Machine Unit := p.machine fun _ u => (.ok .null, u)
  let w : World Unit := ⟨Heap.empty.addScope none [], ()⟩
  have refused : (m.after (m.opening w 0) [.slice 9]).parked?.any fun x =>
      let s := Snapshot.capture (m.after (m.opening w 0) [.slice 9]).world.heap x
      (Snapshot.ofText s.text).toOption.isNone := by
    decide +kernel
  obtain ⟨x, parked, refused⟩ := (Option.any_eq_true ..).1 refused
  refine ⟨m, w, [.slice 9], _, x, rfl, Stage.of_parked? parked, fun back => ?_⟩
  simp [back, Except.toOption] at refused

/-! ### A loop that nests its values without end

Its program is valid, and its host does nothing that hosts may not do. Every round puts one list more
around the value of `x`, so from some round on its snapshots nest too deeply to be read. -/

namespace WrappingLoop

/-- A loop that binds `x` to what the host's method makes of it, and then yields. -/
def program : Program :=
  ⟨#[.readVariable "x", .call none "wrap" [0], .assign "x" 1, .constant .null, .yield 3,
    .sequence [2, 4], .constant (.bool true), .whileLoop 6 5, .declare "x" none, .sequence [8, 7]], 9⟩

/-- The host's methods answer with the lists of their arguments. -/
def machine : Machine Unit := program.machine fun call u =>
  match call with
  | .methodCall _ _ args => (.ok (.list args), u)
  | _ => (.ok .null, u)

def nested : Nat → Value
  | 0 => .null
  | n + 1 => .list [nested n]

def opening : Stage Unit := machine.opening ⟨Heap.empty.addScope none [], ()⟩ 0

def suspension : Suspension := ⟨.null, [⟨.loopBody, 0, .loop 6 5⟩]⟩

/-- The loop waits for an answer, with the value bound to `x`. -/
def waiting (v : Value) : Stage Unit := ⟨⟨Heap.empty.addScope none [("x", v)], ()⟩, .parked suspension⟩

def round : List Move := [.answer (.value .null), .slice 100]

/-- The moves up to the first request, and so many rounds of the loop. -/
def rounds (n : Nat) : List Move := .slice 100 :: (List.replicate n round).flatten

theorem rounds_succ (n : Nat) : rounds (n + 1) = rounds n ++ round := by
  simp [rounds, List.replicate_succ']

theorem after_round (v : Value) : machine.after (waiting v) round = waiting (.list [v]) := rfl

theorem after_rounds (n : Nat) : machine.after opening (rounds n) = waiting (nested (n + 1)) := by
  induction n with
  | zero => rfl
  | succ n ih =>
    rw [rounds_succ, Machine.after_append, ih]
    exact after_round (nested (n + 1))

theorem values_waiting (v : Value) :
    (Snapshot.capture (waiting v).world.heap suspension).values = [(1, .null), (4, v)] := by
  with_unfolding_all rfl

theorem nesting_nested (n : Nat) : (nested n).toJson.nesting = 2 * n + 1 := by
  induction n with
  | zero => rfl
  | succ n ih =>
    simp only [nested, Value.toJson, Value.itemsToJson, Value.tagged, Json.record, Json.list,
      Json.nesting, Json.itemsNesting, Json.fieldsNesting, ih]
    omega

/-- After sixty-one rounds or more the loop is no longer read back. -/
theorem late_round_is_not_read_back (n : Nat) (late : 61 ≤ n) :
    ∃ w x, machine.after opening (rounds n) = ⟨w, .parked x⟩ ∧
      Snapshot.ofText (Snapshot.capture w.heap x).text ≠ .ok (Snapshot.capture w.heap x) := by
  refine ⟨(waiting (nested (n + 1))).world, suspension, after_rounds n, fun back => ?_⟩
  have shallow := (Snapshot.nesting_le_iff (d := 121) _).1 (Snapshot.nesting_of_ofText back)
  rw [values_waiting] at shallow
  have bound := shallow (4, nested (n + 1)) (.tail _ (.head _))
  rw [nesting_nested] at bound
  omega

end WrappingLoop

end FlowScript
