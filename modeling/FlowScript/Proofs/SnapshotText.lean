import FlowScript.Proofs.ValueText
import FlowScript.Snapshot

/-! A snapshot is read back from its text exactly where the text is not nested too deeply and every float
in it is a finite number. -/
namespace FlowScript

namespace Block

theorem asId_bounds : Json.Bounds asId idJson := .flat asId fun _ => rfl

theorem asId_rereads {b : BlockId} (small : b < UInt32.size) : Json.Rereads asId idJson b :=
  .nat small

@[simp] theorem finite_idJson : (idJson b).Finite := Json.finite_int

theorem idJson_plain {b : BlockId} (small : b < UInt32.size) : (idJson b).Plain :=
  Json.plain_int.2 (Json.Number.inRange_nat (Nat.lt_trans small (by decide)))

theorem written_idJson_ne_null (b : BlockId) : (idJson b).written ≠ .null := by
  rw [idJson, Json.written_int]
  exact nofun

end Block

namespace Captured

/-- The numbers in the captured state are words of the machine, and its values are in order. -/
def Storable : Captured → Prop
  | .logical _ rhs | .binaryLhs _ rhs => rhs < UInt32.size
  | .binaryRhs _ lhs => lhs.Ordered
  | .branch thenBranch elseBranch =>
    thenBranch < UInt32.size ∧ ∀ b ∈ elseBranch, b < UInt32.size
  | .loop cond body => cond < UInt32.size ∧ body < UInt32.size
  | .sequence body index =>
    (∀ b ∈ body, b < UInt32.size) ∧ body.length ≤ UInt64.size ∧ index < UInt64.size
  | .storeReceiver _ value => value.Ordered
  | .call _ args receiver evaluated =>
    (∀ b ∈ args, b < UInt32.size) ∧ (∀ v ∈ receiver, v.Ordered) ∧ ∀ v ∈ evaluated, v.Ordered
  | .guarded clauses last =>
    (∀ c ∈ clauses, c.body < UInt32.size) ∧ ∀ b ∈ last, b < UInt32.size
  | .handler last => ∀ b ∈ last, b < UInt32.size
  | .cleanup pending => pending.Ordered
  | _ => True

/-- The numbers in the captured state fit the fields that they are written to, and its values are in order. -/
def Encodable : Captured → Prop
  | .logical _ rhs | .binaryLhs _ rhs => rhs < UInt32.size
  | .binaryRhs _ lhs => lhs.Ordered
  | .branch thenBranch elseBranch =>
    thenBranch < UInt32.size ∧ ∀ b ∈ elseBranch, b < UInt32.size
  | .loop cond body => cond < UInt32.size ∧ body < UInt32.size
  | .sequence body index => (∀ b ∈ body, b < UInt32.size) ∧ index < UInt64.size
  | .storeReceiver _ value => value.Ordered
  | .call _ args receiver evaluated =>
    (∀ b ∈ args, b < UInt32.size) ∧ (∀ v ∈ receiver, v.Ordered) ∧ ∀ v ∈ evaluated, v.Ordered
  | .guarded clauses last =>
    (∀ c ∈ clauses, c.body < UInt32.size) ∧ ∀ b ∈ last, b < UInt32.size
  | .handler last => ∀ b ∈ last, b < UInt32.size
  | .cleanup pending => pending.Ordered
  | _ => True

theorem Storable.encodable {c : Captured} (storable : c.Storable) : c.Encodable := by
  cases c with
  | sequence => exact ⟨storable.1, storable.2.2⟩
  | _ => exact storable

theorem toJson_plain {c : Captured} (encodable : c.Encodable) : c.toJson.Plain := by
  cases c <;> simp_all [Encodable, toJson, tagged, Block.idJson_plain, Value.toJson_plain,
    Signal.toJson_plain, CatchClause.toJson_plain, Json.Number.inRange_nat]

theorem ofJson_bounds : Json.Bounds ofJson toJson := by
  refine .tagged fun t fields c asked => ?_
  cases t <;> simp only [ofFields, Json.Asked.seq_eq_got, Json.Asked.map_eq_got,
    Json.Asked.pure_eq_got] at asked
  case sequence =>
    obtain ⟨_, index, ⟨body, asked, rfl⟩, -, rfl⟩ := asked
    have deep := Block.asId_bounds.list.required asked
    simpa [toJson, tagged, Json.record, Json.nesting, Json.fieldsNesting, Json.int] using deep
  case binaryRhs =>
    obtain ⟨_, lhs, ⟨op, -, rfl⟩, asked, rfl⟩ := asked
    have deep := Value.ofJson_bounds.required asked
    simpa [toJson, tagged, Json.record, Json.nesting, Json.fieldsNesting] using deep
  case storeReceiver =>
    obtain ⟨_, value, ⟨target, -, rfl⟩, asked, rfl⟩ := asked
    have deep := Value.ofJson_bounds.required asked
    simpa [toJson, tagged, Json.record, Json.nesting, Json.fieldsNesting] using deep
  case call =>
    obtain ⟨_, evaluated, ⟨_, receiver, ⟨_, args, ⟨method, -, rfl⟩, asked, rfl⟩, asked', rfl⟩, asked'', rfl⟩ := asked
    have deep := Block.asId_bounds.list.required asked
    have deep' := Value.ofJson_bounds.optionalField asked'
    have deep'' := Value.ofJson_bounds.list.required asked''
    simpa [toJson, tagged, Json.record, Json.nesting, Json.fieldsNesting] using ⟨deep, deep', deep''⟩
  case guarded =>
    obtain ⟨_, last, ⟨clauses, asked, rfl⟩, asked', rfl⟩ := asked
    have deep := CatchClause.ofJson_bounds.list.required asked
    have deep' := Block.asId_bounds.optionalField asked'
    simpa [toJson, tagged, Json.record, Json.nesting, Json.fieldsNesting] using ⟨deep, deep'⟩
  case cleanup =>
    obtain ⟨pending, asked, rfl⟩ := asked
    have deep := Signal.ofJson_bounds.required asked
    simpa [toJson, tagged, Json.record, Json.nesting, Json.fieldsNesting] using deep
  case branch =>
    obtain ⟨_, elseBranch, ⟨thenBranch, -, rfl⟩, asked, rfl⟩ := asked
    have deep := Block.asId_bounds.optionalField asked
    simpa [toJson, tagged, Json.record, Json.nesting, Json.fieldsNesting, Block.idJson, Json.int] using deep
  case handler =>
    obtain ⟨last, asked, rfl⟩ := asked
    have deep := Block.asId_bounds.optionalField asked
    simpa [toJson, tagged, Json.record, Json.nesting, Json.fieldsNesting] using deep
  case logical | binaryLhs | loop | property =>
    obtain ⟨_, _, ⟨_, -, rfl⟩, -, rfl⟩ := asked
    exact Nat.le_add_left 1 _
  case declare | assign =>
    obtain ⟨_, -, rfl⟩ := asked
    exact Nat.le_add_left 1 _
  case propertyStore =>
    obtain ⟨_, _, ⟨_, _, ⟨_, -, rfl⟩, -, rfl⟩, -, rfl⟩ := asked
    exact Nat.le_add_left 1 _
  case not | throw | yield =>
    subst asked
    exact Nat.le_add_left 1 _

theorem ids_reread {bs : List BlockId} (small : ∀ b ∈ bs, b < UInt32.size) :
    Json.Rereads (Json.asList Block.asId) (fun bs => Json.list (bs.map Block.idJson)) bs :=
  .list fun b member => Block.asId_rereads (small b member)

theorem id_reread {o : Option BlockId} (small : ∀ b ∈ o, b < UInt32.size) :
    Json.Rereads (Json.nullable Block.asId) (fun o => Json.optional (o.map Block.idJson)) o :=
  .optional (fun b member => Block.asId_rereads (small b member)) fun b _ => Block.written_idJson_ne_null b

theorem reread_of {c : Captured} (plain : c.toJson.Plain) (encoded : c.toJson = tagged c.tag fields)
    (others : ∀ f ∈ fields, f.1 ≠ "kind")
    (gives : (ofFields c.tag (fields.map fun f => (f.1, f.2.written))).Gives fine c)
    (condition : c.toJson.Finite ↔ fine) : Json.Rereads ofJson toJson c :=
  .tagged encoded (Tag.ofName?_name _) others plain gives condition

theorem rereads {c : Captured} (encodable : c.Encodable) : Json.Rereads ofJson toJson c := by
  have plain := toJson_plain encodable
  have string := Json.Rereads.string
  have bool := Json.Rereads.bool
  cases c with
  | logical op rhs =>
    have op' : Json.Rereads (Json.asName .buffer LogicalOp.ofName?) (fun op => .string op.name) op :=
      .ofName (by cases op <;> decide)
    have rhs' := Block.asId_rereads encodable
    refine reread_of plain rfl (by simp) (((op'.required ?_).map logical).seq (rhs'.required ?_)) ?_
    all_goals simp [Json.placesOf, toJson, tagged]
  | not => exact reread_of plain rfl (by simp) (.pure _) (by simp [toJson, tagged])
  | binaryLhs op rhs =>
    have op' : Json.Rereads (Json.asName .buffer BinaryOp.ofName?) (fun op => .string op.name) op :=
      .ofName (BinaryOp.ofName?_name op)
    have rhs' := Block.asId_rereads encodable
    refine reread_of plain rfl (by simp) (((op'.required ?_).map binaryLhs).seq (rhs'.required ?_)) ?_
    all_goals simp [Json.placesOf, toJson, tagged]
  | binaryRhs op lhs =>
    have op' : Json.Rereads (Json.asName .buffer BinaryOp.ofName?) (fun op => .string op.name) op :=
      .ofName (BinaryOp.ofName?_name op)
    have lhs' := Value.rereads .buffer lhs encodable
    refine reread_of plain rfl (by simp) (((op'.required ?_).map binaryRhs).seq (lhs'.required ?_)) ?_
    all_goals simp [Json.placesOf, toJson, tagged]
  | declare name =>
    refine reread_of plain rfl (by simp) (((string name).required ?_).map declare) ?_
    all_goals simp [Json.placesOf, toJson, tagged]
  | assign name =>
    refine reread_of plain rfl (by simp) (((string name).required ?_).map assign) ?_
    all_goals simp [Json.placesOf, toJson, tagged]
  | branch thenBranch elseBranch =>
    have then' := Block.asId_rereads encodable.1
    have else' := id_reread encodable.2
    refine reread_of plain rfl (by simp) (((then'.required ?_).map branch).seq (else'.optionalField ?_)) ?_
    all_goals simp [Json.placesOf, toJson, tagged]
  | loop cond body =>
    have cond' := Block.asId_rereads encodable.1
    have body' := Block.asId_rereads encodable.2
    refine reread_of plain rfl (by simp) (((cond'.required ?_).map loop).seq (body'.required ?_)) ?_
    all_goals simp [Json.placesOf, toJson, tagged]
  | sequence body index =>
    have body' := ids_reread encodable.1
    have index' := Json.Rereads.nat encodable.2
    refine reread_of plain rfl (by simp) (((body'.required ?_).map sequence).seq (index'.required ?_)) ?_
    all_goals simp [Json.placesOf, toJson, tagged]
  | property name isAttribute =>
    refine reread_of plain rfl (by simp)
      ((((string name).required ?_).map property).seq ((bool isAttribute).required ?_)) ?_
    all_goals simp [Json.placesOf, toJson, tagged]
  | propertyStore target name isAttribute =>
    refine reread_of plain rfl (by simp)
      ((((string target).required ?_).map propertyStore).seq ((string name).required ?_) |>.seq
        ((bool isAttribute).required ?_)) ?_
    all_goals simp [Json.placesOf, toJson, tagged]
  | storeReceiver target value =>
    have value' := Value.rereads .buffer value encodable
    refine reread_of plain rfl (by simp)
      ((((string target).required ?_).map storeReceiver).seq (value'.required ?_)) ?_
    all_goals simp [Json.placesOf, toJson, tagged]
  | call method args receiver evaluated =>
    have args' := ids_reread encodable.1
    have receiver' := Json.Rereads.optional (fun v member => Value.rereads .buffer v (encodable.2.1 v member))
      fun v _ => v.written_ne_null
    have evaluated' := Json.Rereads.list fun v member => Value.rereads .buffer v (encodable.2.2 v member)
    refine reread_of plain rfl (by simp)
      ((((string method).required ?_).map call).seq (args'.required ?_) |>.seq
        (receiver'.optionalField ?_) |>.seq (evaluated'.required ?_)) ?_
    all_goals simp [Json.placesOf, toJson, tagged]
  | throw => exact reread_of plain rfl (by simp) (.pure _) (by simp [toJson, tagged])
  | guarded clauses last =>
    have clauses' := Json.Rereads.list fun c member => CatchClause.rereads (encodable.1 c member)
    have last' := id_reread encodable.2
    refine reread_of plain rfl (by simp)
      (((clauses'.required ?_).map guarded).seq (last'.optionalField ?_)) ?_
    all_goals simp [Json.placesOf, toJson, tagged]
  | handler last =>
    have last' := id_reread encodable
    refine reread_of plain rfl (by simp) ((last'.optionalField ?_).map handler) ?_
    all_goals simp [Json.placesOf, toJson, tagged]
  | cleanup pending =>
    have pending' := Signal.rereads .buffer encodable
    refine reread_of plain rfl (by simp) ((pending'.required ?_).map cleanup) ?_
    all_goals simp [Json.placesOf, toJson, tagged]
  | yield => exact reread_of plain rfl (by simp) (.pure _) (by simp [toJson, tagged])

end Captured

namespace Snapshot

/-- The numbers in the snapshot are words of the machine, and its values are in order. -/
structure Storable (s : Snapshot) : Prop where
  request : s.request.Ordered
  parents : ∀ r ∈ s.scopes, ∀ p ∈ r.parent, p < UInt64.size
  bindings : ∀ r ∈ s.scopes, r.bindings.Ordered
  scopes : ∀ f ∈ s.frames, f.scope < UInt64.size
  captured : ∀ f ∈ s.frames, f.captured.Storable

/-- The numbers in the snapshot fit the fields that they are written to, and its values are in order. -/
structure Encodable (s : Snapshot) : Prop where
  request : s.request.Ordered
  parents : ∀ r ∈ s.scopes, ∀ p ∈ r.parent, p < UInt64.size
  bindings : ∀ r ∈ s.scopes, r.bindings.Ordered
  scopes : ∀ f ∈ s.frames, f.scope < UInt64.size
  captured : ∀ f ∈ s.frames, f.captured.Encodable

theorem Storable.encodable {s : Snapshot} (storable : s.Storable) : s.Encodable :=
  ⟨storable.request, storable.parents, storable.bindings, storable.scopes,
    fun f member => (storable.captured f member).encodable⟩

theorem recordOfJson_bounds : Json.Bounds recordOfJson recordJson := by
  refine .record fun fields r asked => ?_
  simp only [Json.Asked.seq_eq_got, Json.Asked.map_eq_got] at asked
  obtain ⟨_, bindings, ⟨parent, -, rfl⟩, asked, rfl⟩ := asked
  have deep := Value.bindingsOfJson_bounds.required asked
  cases parent <;>
    simpa [recordJson, Json.record, Json.nesting, Json.fieldsNesting, Json.optional, Json.int] using deep

theorem frameOfJson_bounds : Json.Bounds frameOfJson frameJson := by
  refine .record fun fields f asked => ?_
  simp only [Json.Asked.seq_eq_got, Json.Asked.map_eq_got] at asked
  obtain ⟨_, captured, ⟨_, scope, ⟨_, method, ⟨group, -, rfl⟩, -, rfl⟩, -, rfl⟩, asked, rfl⟩ := asked
  have deep := Captured.ofJson_bounds.required asked
  simpa [frameJson, Json.record, Json.nesting, Json.fieldsNesting, Json.int] using deep

theorem ofJson_bounds : Json.Bounds ofJson toJson := by
  refine .record fun fields s asked => ?_
  simp only [Json.Asked.seq_eq_got, Json.Asked.map_eq_got] at asked
  obtain ⟨_, frames, ⟨_, scopes, ⟨request, asked, rfl⟩, asked', rfl⟩, asked'', rfl⟩ := asked
  have deep := Value.ofJson_bounds.required asked
  have deep' := recordOfJson_bounds.list.required asked'
  have deep'' := frameOfJson_bounds.list.required asked''
  simpa [toJson, Json.record, Json.nesting, Json.fieldsNesting] using ⟨deep, deep', deep''⟩

theorem record_rereads {r : ScopeRecord} (parent : ∀ p ∈ r.parent, p < UInt64.size)
    (bindings : r.bindings.Ordered) : Json.Rereads recordOfJson recordJson r := by
  have parent' := Json.Rereads.optional (fun p member => Json.Rereads.nat (parent p member))
    fun p _ => by rw [Json.written_int]; exact nofun
  have bindings' := Value.bindings_reread .text bindings
  obtain ⟨_ | p, bindings⟩ := r <;>
    refine .record (by simp) rfl
      (((parent'.optionalField ?_).map ScopeRecord.mk).seq (bindings'.required ?_)) ?_
  all_goals simp [Json.placesOf, recordJson, Json.optional]

theorem frame_rereads {f : FrameRecord} (scope : f.scope < UInt64.size)
    (captured : f.captured.Encodable) : Json.Rereads frameOfJson frameJson f := by
  have string := Json.Rereads.string
  have scope' := Json.Rereads.nat scope
  have captured' := Captured.rereads captured
  refine .record (by simp) rfl
    (((((string f.group).required ?_).map FrameRecord.mk).seq ((string f.method).required ?_)).seq
      (scope'.required ?_) |>.seq (captured'.required ?_)) ?_
  all_goals simp [Json.placesOf, frameJson]

theorem rereads {s : Snapshot} (encodable : s.Encodable) : Json.Rereads ofJson toJson s := by
  have request := Value.rereads .text s.request encodable.request
  have scopes := Json.Rereads.list fun r member =>
    record_rereads (encodable.parents r member) (encodable.bindings r member)
  have frames := Json.Rereads.list fun f member =>
    frame_rereads (encodable.scopes f member) (encodable.captured f member)
  refine .record (by simp) rfl
    (((request.required ?_).map Snapshot.mk).seq (scopes.required ?_) |>.seq (frames.required ?_)) ?_
  all_goals simp [Json.placesOf, toJson, and_assoc]

theorem recordJson_plain {r : ScopeRecord} (parent : ∀ p ∈ r.parent, p < UInt64.size) :
    (recordJson r).Plain := by
  obtain ⟨_ | p, bindings⟩ := r
  · simp [recordJson, Value.bindings_plain]
  · simp [recordJson, Value.bindings_plain, Json.Number.inRange_nat (parent p rfl)]

theorem toJson_plain {s : Snapshot} (encodable : s.Encodable) : s.toJson.Plain := by
  have request := Value.toJson_plain s.request
  have scopes : ∀ r ∈ s.scopes, (recordJson r).Plain :=
    fun r member => recordJson_plain (encodable.parents r member)
  have frames : ∀ f ∈ s.frames, (frameJson f).Plain := by
    intro f member
    simp [frameJson, Json.Number.inRange_nat (encodable.scopes f member),
      Captured.toJson_plain (encodable.captured f member)]
  simpa [toJson, request] using ⟨scopes, frames⟩

/-- No snapshot is read that nests more deeply than reading goes. -/
theorem nesting_of_ofText (decoded : ofText t = .ok s) : s.toJson.nesting ≤ Json.maxDepth :=
  Nat.le_trans (ofJson_bounds _ s (Json.decode_read decoded)) (Json.nesting_invariant.read t)

/-- A snapshot that can be stored is read back from its text just where the text does not nest too
deeply and all of its numbers are finite. -/
theorem ofText_text {s : Snapshot} (storable : s.Storable)
    (floats : ∀ f, .float f ∈ s.toJson.numbers → Json.Number.Legible (.float f)) :
    ofText s.text = .ok s ↔ s.toJson.nesting ≤ Json.maxDepth ∧ s.toJson.Finite := by
  have again := (rereads storable.encodable).decodeText_text (toJson_plain storable.encodable) floats
  constructor
  · intro back
    have bound := nesting_of_ofText back
    exact ⟨bound, ((again bound s).1 back).1⟩
  · rintro ⟨shallow, finite⟩
    exact (again shallow s).2 ⟨finite, rfl⟩

end Snapshot
end FlowScript
