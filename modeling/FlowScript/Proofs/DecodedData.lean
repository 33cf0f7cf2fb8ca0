import FlowScript.Proofs.FiniteText
import FlowScript.Proofs.SnapshotText

/-! What is decoded from a text that has been read is in order, and can be written again: its maps are
sorted, its numbers fit the fields that they stand in, and its floats are finite. -/
namespace FlowScript

namespace Json

theorem Layout.Holds.finite {layout : Layout} (held : layout.Holds j fields) (finite : Finite j) :
    ∀ f ∈ fields, Finite f.2 := by
  cases held with
  | object => exact finite_object.1 finite
  | array => exact fun f member => finite_array.1 finite _ (List.of_mem_zip member).2

theorem HoldsTagged.finite (held : HoldsTagged tag ofName? layout j t fields) (finite : Finite j) :
    ∀ f ∈ fields, Finite f.2 := by
  cases held with
  | object split => exact fun f member => finite_object.1 finite f (mem_of_splitTag split member)
  | array named whole held =>
    exact held.finite (finite_array.2 fun i member => finite_array.1 finite i (.tail _ member))

/-- Whatever the decoder makes of a tree of finite numbers has the property. -/
def Decodes (decode : Decoder α) (P : α → Prop) : Prop := ∀ j a, Finite j → decode j = .ok a → P a

namespace Decodes
variable {decode : Decoder α} {P : α → Prop} {fields : List (String × Json)}

theorem nat (bound : Nat) : Decodes (asNat bound) (· < bound) := by
  intro j n _ decoded
  obtain ⟨i, whole, rfl⟩ := map_eq_ok.1 decoded
  unfold asInt at whole
  split at whole
  · split at whole
    · next range =>
      obtain rfl := Except.ok.inj whole
      omega
    · cases whole
  · cases whole

theorem ask (decodes : Decodes decode P) (finite : ∀ f ∈ fields, Finite f.2)
    (default : ∀ b ∈ absent, P b) (asked : Json.ask fields key decode absent = .got a) : P a := by
  rcases ask_eq_got.1 asked with ⟨-, rfl⟩ | ⟨place, j, found, decoded⟩
  · exact default a rfl
  · have member := mem_of_placesOf (found ▸ List.mem_singleton.2 rfl)
    exact decodes j a (finite _ member) decoded

theorem required (decodes : Decodes decode P) (finite : ∀ f ∈ fields, Finite f.2)
    (asked : Json.required fields key decode = .got a) : P a := by
  refine decodes.ask finite ?_ asked
  rintro _ ⟨⟩

theorem defaulted (decodes : Decodes decode P) (finite : ∀ f ∈ fields, Finite f.2) (default : P b)
    (asked : Json.defaulted fields key b decode = .got a) : P a := by
  refine decodes.ask finite ?_ asked
  rintro _ ⟨⟩
  exact default

theorem nullable (decodes : Decodes decode P) : Decodes (Json.nullable decode) fun o => ∀ a ∈ o, P a := by
  intro j o finite decoded
  unfold Json.nullable at decoded
  split at decoded
  · obtain rfl := Except.ok.inj decoded
    rintro _ ⟨⟩
  · obtain ⟨a, given, rfl⟩ := map_eq_ok.1 decoded
    rintro _ ⟨⟩
    exact decodes _ a finite given

theorem optionalField (decodes : Decodes decode P) (finite : ∀ f ∈ fields, Finite f.2)
    (asked : Json.optionalField fields key decode = .got o) : ∀ a ∈ o, P a := by
  refine decodes.nullable.ask finite ?_ asked
  rintro _ ⟨⟩ _ ⟨⟩

theorem list (decodes : Decodes decode P) : Decodes (asList decode) fun as => ∀ a ∈ as, P a := by
  intro j as finite decoded a member
  obtain ⟨js, rfl, each⟩ := mem_of_asList decoded
  obtain ⟨i, inside, given⟩ := each a member
  exact decodes i a (finite_array.1 finite i inside) given

theorem pairs {ps : List (String × α)} (decodes : Decodes decode P) (finite : ∀ f ∈ fields, Finite f.2)
    (decoded : decodePairs decode fields = .ok ps) : ∀ p ∈ ps, P p.2 := by
  induction fields generalizing ps with
  | nil =>
    cases decoded
    exact List.forall_mem_nil _
  | cons field rest ih =>
    obtain ⟨here, others⟩ := List.forall_mem_cons.1 finite
    simp only [decodePairs, bind_eq_ok] at decoded
    obtain ⟨a, first, ps', later, ⟨⟩⟩ := decoded
    exact List.forall_mem_cons.2 ⟨decodes _ a here first, ih others later⟩

theorem record {reads : List (String × Json) → Asked α}
    (each : ∀ fields a, (∀ f ∈ fields, Finite f.2) → reads fields = .got a → P a) :
    Decodes (asRecord layout reads) P := by
  intro j a finite decoded
  obtain ⟨fields, held, got⟩ := asRecord_eq_ok.1 decoded
  exact each fields a (held.finite finite) got

theorem tagged {reads : τ → List (String × Json) → Asked α}
    (each : ∀ t fields a, (∀ f ∈ fields, Finite f.2) → reads t fields = .got a → P a) :
    Decodes (asTagged tag ofName? layout reads) P := by
  intro j a finite decoded
  obtain ⟨t, fields, held, got⟩ := asTagged_eq_ok.1 decoded
  exact each t fields a (held.finite finite) got

end Decodes
end Json

namespace Value

/-- The entries of maps stand in order and the floats are finite, as in all values that are read. -/
structure Decoded (v : Value) : Prop where
  ordered : v.Ordered
  finite : v.toJson.Finite

theorem itemsToJson_eq (items : List Value) : itemsToJson items = items.map toJson := by
  induction items with
  | nil => rfl
  | cons v rest ih => simp [itemsToJson, ih]

theorem finite_tagged {t : Tag} {j : Json} : (tagged t j).Finite ↔ j.Finite := by simp [tagged]

theorem Decoded.list {vs : List Value} (each : ∀ v ∈ vs, v.Decoded) : (Value.list vs).Decoded := by
  refine ⟨orderedItems_iff.2 fun v member => (each v member).ordered, ?_⟩
  rw [toJson, finite_tagged, Json.finite_list, itemsToJson_eq, List.forall_mem_map]
  exact fun v member => (each v member).finite

theorem Decoded.map {pairs : List (String × Value)} (each : ∀ e ∈ pairs, e.2.Decoded) :
    (Value.map (Entries.ofPairs pairs)).Decoded := by
  have kept : ∀ e ∈ Entries.ofPairs pairs, e.2.Decoded :=
    fun e member => each e (Entries.mem_of_mem_ofPairs member)
  have ordered := orderedEntries_iff.2 fun e member => (kept e member).ordered
  refine ⟨⟨Entries.sorted_ofPairs pairs, ordered⟩, ?_⟩
  rw [toJson, finite_tagged, Json.finite_record, entriesToJson_eq, List.forall_mem_map]
  exact fun e member => (kept e member).finite

theorem decoded_ofScalar (finite : j.Finite) (decoded : ofScalar t j = .ok v) : v.Decoded := by
  unfold ofScalar at decoded
  cases t <;> simp only [Json.map_eq_ok, reduceCtorEq] at decoded
  case null =>
    split at decoded <;> cases decoded
    exact ⟨trivial, by simp [toJson]⟩
  case float =>
    obtain ⟨f, given, rfl⟩ := decoded
    cases j with
    | number n =>
      obtain rfl := Except.ok.inj given
      have digits : n.isFinite := finite n (by simp [Json.numbers])
      exact ⟨trivial, by simp [toJson, finite_tagged, Json.Number.toFloat_finite digits]⟩
    | _ => cases given
  all_goals
    obtain ⟨a, -, rfl⟩ := decoded
    exact ⟨trivial, by simp [toJson, finite_tagged]⟩

mutual

theorem decoded_ofJson (j : Json) (finite : j.Finite) (decoded : ofJson medium j = .ok v) : v.Decoded := by
  match j with
  -- A value without content is null.
  | .object fields flaw =>
    obtain ⟨_, -, ⟨t, -, typed⟩, -⟩ := ofJson_eq_ok.1 decoded
    rcases typedContent_got typed with found | rfl
    · exact decoded_ofFields fields (Json.finite_object.1 finite) found
    · exact ⟨trivial, by simp [toJson]⟩
  | .array items flaw =>
    obtain ⟨_, -, ⟨t, -, typed⟩, -⟩ := ofJson_eq_ok.1 decoded
    rcases typedContent_got typed with found | rfl
    · exact decoded_ofSecond items (Json.finite_array.1 finite) found
    · exact ⟨trivial, by simp [toJson]⟩
  | .null | .bool _ | .number _ | .string _ | .flawed _ => simp [ofJson] at decoded

theorem decoded_ofFields (fields : List (String × Json)) (finite : ∀ f ∈ fields, f.2.Finite)
    (found : ofFields medium current t fields = some (.ok v)) : v.Decoded := by
  match fields with
  | [] => simp [ofFields] at found
  | (key, j) :: rest =>
    obtain ⟨first, later⟩ := List.forall_mem_cons.1 finite
    unfold ofFields at found
    split at found
    · exact decoded_ofContent j first (Json.settle_eq_ok.1 (Option.some.inj found))
    · exact decoded_ofFields rest later found

theorem decoded_ofSecond (items : List Json) (finite : ∀ j ∈ items, j.Finite)
    (found : ofSecond medium t items = some (.ok v)) : v.Decoded := by
  match items with
  | [] | [_] => simp [ofSecond] at found
  | _ :: j :: rest => exact decoded_ofContent j (finite j (.tail _ (.head _))) (Option.some.inj found)

theorem decoded_ofContent (j : Json) (finite : j.Finite) (decoded : ofContent medium t j = .ok v) :
    v.Decoded := by
  match j with
  | .array items flaw =>
    unfold ofContent at decoded
    split at decoded
    · simp only [Json.bind_eq_ok, Json.closing_eq_ok] at decoded
      obtain ⟨vs, decoded, -, rfl⟩ := decoded
      exact .list (decoded_ofItems items (Json.finite_array.1 finite) decoded)
    · cases decoded
  | .object fields flaw =>
    unfold ofContent at decoded
    split at decoded
    · simp only [Json.bind_eq_ok, Json.closing_eq_ok] at decoded
      obtain ⟨pairs, decoded, -, rfl⟩ := decoded
      exact .map (decoded_ofEntries fields (Json.finite_object.1 finite) decoded)
    · cases decoded
  | .null | .bool _ | .number _ | .string _ | .flawed _ =>
    exact decoded_ofScalar finite (by simpa [ofContent] using decoded)

theorem decoded_ofItems (items : List Json) (finite : ∀ j ∈ items, j.Finite)
    (decoded : ofItems medium items = .ok vs) : ∀ v ∈ vs, v.Decoded := by
  match items with
  | [] =>
    cases decoded
    exact List.forall_mem_nil _
  | j :: rest =>
    obtain ⟨here, others⟩ := List.forall_mem_cons.1 finite
    simp only [ofItems, Json.bind_eq_ok] at decoded
    obtain ⟨v, first, vs', later, ⟨⟩⟩ := decoded
    exact List.forall_mem_cons.2 ⟨decoded_ofJson j here first, decoded_ofItems rest others later⟩

theorem decoded_ofEntries (fields : List (String × Json)) (finite : ∀ f ∈ fields, f.2.Finite)
    (decoded : ofEntries medium fields = .ok pairs) : ∀ e ∈ pairs, e.2.Decoded := by
  match fields with
  | [] =>
    cases decoded
    exact List.forall_mem_nil _
  | (name, j) :: rest =>
    obtain ⟨here, others⟩ := List.forall_mem_cons.1 finite
    simp only [ofEntries, Json.bind_eq_ok] at decoded
    obtain ⟨v, first, vs', later, ⟨⟩⟩ := decoded
    exact List.forall_mem_cons.2 ⟨decoded_ofJson j here first, decoded_ofEntries rest others later⟩

end

theorem decodes_ofJson : Json.Decodes (ofJson medium) Decoded := fun j _ => decoded_ofJson j

theorem decodes_bindingsOfJson :
    Json.Decodes (bindingsOfJson medium) fun b => b.Ordered ∧ (bindingsToJson b).Finite := by
  intro j b finite decoded
  cases j with
  | object fields flaw =>
    simp only [bindingsOfJson, Json.asEntries, Json.bind_eq_ok, Json.closing_eq_ok] at decoded
    obtain ⟨pairs, decoded, -, rfl⟩ := decoded
    have each : ∀ e ∈ Entries.ofPairs pairs, e.2.Decoded := fun e member =>
      decodes_ofJson.pairs (Json.finite_object.1 finite) decoded e (Entries.mem_of_mem_ofPairs member)
    refine ⟨⟨Entries.sorted_ofPairs pairs, fun e member => (each e member).ordered⟩, ?_⟩
    rw [bindingsToJson, Json.finite_record, entriesToJson_eq, List.forall_mem_map]
    exact fun e member => (each e member).finite
  | _ => simp [bindingsOfJson, Json.asEntries] at decoded

end Value

theorem Failure.decodes_ofJson : Json.Decodes (ofJson medium) fun f => f.Ordered ∧ f.toJson.Finite := by
  refine .record fun fields f finite asked => ?_
  simp only [Json.Asked.seq_eq_got, Json.Asked.map_eq_got] at asked
  obtain ⟨_, o, ⟨_, _, ⟨_, -, rfl⟩, -, rfl⟩, payload, rfl⟩ := asked
  have each := Value.decodes_ofJson.optionalField finite payload
  refine ⟨fun v member => (each v member).ordered, ?_⟩
  cases o with
  | none => simp [toJson]
  | some v => simp [toJson, (each v rfl).finite]

theorem CatchClause.decodes_ofJson : Json.Decodes ofJson fun c => c.body < UInt32.size := by
  refine .record fun fields c finite asked => ?_
  simp only [Json.Asked.seq_eq_got, Json.Asked.map_eq_got] at asked
  obtain ⟨_, body, ⟨_, name, ⟨kind, -, rfl⟩, -, rfl⟩, asked, rfl⟩ := asked
  exact (Json.Decodes.nat UInt32.size).required finite asked

theorem CatchClause.finite_toJson (c : CatchClause) : c.toJson.Finite := by
  simp [toJson, Json.finite_optional]

theorem Signal.decodes_ofJson : Json.Decodes (ofJson medium) fun s => s.Ordered ∧ s.toJson.Finite := by
  intro j s finite decoded
  unfold ofJson at decoded
  split at decoded
  · simp only [Json.bind_eq_ok, Json.closing_eq_ok] at decoded
    obtain ⟨v, decoded, -, rfl⟩ := decoded
    have value := Value.decodes_ofJson _ v (Json.finite_object.1 finite _ (.head _)) decoded
    exact ⟨value.ordered, by simp [toJson, value.finite]⟩
  · simp only [Json.bind_eq_ok, Json.closing_eq_ok] at decoded
    obtain ⟨f, decoded, -, rfl⟩ := decoded
    have failure := Failure.decodes_ofJson _ f (Json.finite_object.1 finite _ (.head _)) decoded
    exact ⟨failure.1, by simp [toJson, failure.2]⟩
  · cases decoded

theorem Block.decodes_asId : Json.Decodes asId (· < UInt32.size) := .nat _

@[simp] theorem Block.finite_optionalId (o : Option BlockId) : (Json.optional (o.map idJson)).Finite := by
  cases o <;> simp [Json.optional]

theorem Captured.decodes_ofJson : Json.Decodes ofJson fun c => c.Encodable ∧ c.toJson.Finite := by
  refine .tagged fun t fields c finite asked => ?_
  have id : ∀ {key b}, Json.required fields key Block.asId = .got b → b < UInt32.size :=
    Block.decodes_asId.required finite
  have ids : ∀ {key bs}, Json.required fields key (Json.asList Block.asId) = .got bs →
      ∀ b ∈ bs, b < UInt32.size := Block.decodes_asId.list.required finite
  have id? : ∀ {key o}, Json.optionalField fields key Block.asId = .got o → ∀ b ∈ o, b < UInt32.size :=
    Block.decodes_asId.optionalField finite
  have value : ∀ {key v}, Json.required fields key (Value.ofJson .buffer) = .got v → v.Decoded :=
    Value.decodes_ofJson.required finite
  cases t <;> simp only [ofFields, Json.Asked.seq_eq_got, Json.Asked.map_eq_got,
    Json.Asked.pure_eq_got] at asked
  case logical | binaryLhs =>
    obtain ⟨_, rhs, ⟨op, -, rfl⟩, asked, rfl⟩ := asked
    exact ⟨id asked, by simp [toJson, tagged]⟩
  case binaryRhs =>
    obtain ⟨_, lhs, ⟨op, -, rfl⟩, asked, rfl⟩ := asked
    exact ⟨(value asked).ordered, by simp [toJson, tagged, (value asked).finite]⟩
  case storeReceiver =>
    obtain ⟨_, v, ⟨target, -, rfl⟩, asked, rfl⟩ := asked
    exact ⟨(value asked).ordered, by simp [toJson, tagged, (value asked).finite]⟩
  case declare | assign =>
    obtain ⟨name, -, rfl⟩ := asked
    exact ⟨trivial, by simp [toJson, tagged]⟩
  case branch =>
    obtain ⟨_, elseBranch, ⟨thenBranch, asked, rfl⟩, asked', rfl⟩ := asked
    exact ⟨⟨id asked, id? asked'⟩, by simp [toJson, tagged]⟩
  case loop =>
    obtain ⟨_, body, ⟨cond, asked, rfl⟩, asked', rfl⟩ := asked
    exact ⟨⟨id asked, id asked'⟩, by simp [toJson, tagged]⟩
  case sequence =>
    obtain ⟨_, index, ⟨body, asked, rfl⟩, asked', rfl⟩ := asked
    exact ⟨⟨ids asked, (Json.Decodes.nat _).required finite asked'⟩, by simp [toJson, tagged]⟩
  case property =>
    obtain ⟨_, isAttribute, ⟨name, -, rfl⟩, -, rfl⟩ := asked
    exact ⟨trivial, by simp [toJson, tagged]⟩
  case propertyStore =>
    obtain ⟨_, isAttribute, ⟨_, name, ⟨target, -, rfl⟩, -, rfl⟩, -, rfl⟩ := asked
    exact ⟨trivial, by simp [toJson, tagged]⟩
  case call =>
    obtain ⟨_, evaluated, ⟨_, receiver, ⟨_, args, ⟨method, -, rfl⟩, asked, rfl⟩, asked', rfl⟩, asked'',
      rfl⟩ := asked
    have receiver' := Value.decodes_ofJson.optionalField finite asked'
    have evaluated' := Value.decodes_ofJson.list.required finite asked''
    refine ⟨⟨ids asked, fun v member => (receiver' v member).ordered,
      fun v member => (evaluated' v member).ordered⟩, ?_⟩
    have finite : (∀ v ∈ receiver, v.toJson.Finite) ∧ ∀ v ∈ evaluated, v.toJson.Finite :=
      ⟨fun v member => (receiver' v member).finite, fun v member => (evaluated' v member).finite⟩
    simpa [toJson, tagged, Json.finite_optional] using finite
  case guarded =>
    obtain ⟨_, last, ⟨clauses, asked, rfl⟩, asked', rfl⟩ := asked
    refine ⟨⟨CatchClause.decodes_ofJson.list.required finite asked, id? asked'⟩, ?_⟩
    simp [toJson, tagged, CatchClause.finite_toJson]
  case handler =>
    obtain ⟨last, asked, rfl⟩ := asked
    exact ⟨id? asked, by simp [toJson, tagged]⟩
  case cleanup =>
    obtain ⟨pending, asked, rfl⟩ := asked
    have pending := Signal.decodes_ofJson.required finite asked
    exact ⟨pending.1, by simp [toJson, tagged, pending.2]⟩
  case not | throw | yield =>
    subst asked
    exact ⟨trivial, by simp [toJson, tagged]⟩

namespace Snapshot

theorem decodes_recordOfJson : Json.Decodes recordOfJson fun r =>
    (∀ p ∈ r.parent, p < UInt64.size) ∧ r.bindings.Ordered ∧ (recordJson r).Finite := by
  refine .record fun fields r finite asked => ?_
  simp only [Json.Asked.seq_eq_got, Json.Asked.map_eq_got] at asked
  obtain ⟨_, bindings, ⟨parent, asked, rfl⟩, asked', rfl⟩ := asked
  have bindings' := Value.decodes_bindingsOfJson.required finite asked'
  refine ⟨(Json.Decodes.nat UInt64.size).optionalField finite asked, bindings'.1, ?_⟩
  cases parent <;> simp [recordJson, Json.optional, bindings'.2]

theorem decodes_frameOfJson : Json.Decodes frameOfJson fun f =>
    f.scope < UInt64.size ∧ f.captured.Encodable ∧ (frameJson f).Finite := by
  refine .record fun fields f finite asked => ?_
  simp only [Json.Asked.seq_eq_got, Json.Asked.map_eq_got] at asked
  obtain ⟨_, captured, ⟨_, scope, ⟨_, method, ⟨group, -, rfl⟩, -, rfl⟩, asked, rfl⟩, asked', rfl⟩ := asked
  have captured' := Captured.decodes_ofJson.required finite asked'
  refine ⟨(Json.Decodes.nat UInt64.size).required finite asked, captured'.1, ?_⟩
  simp [frameJson, captured'.2]

theorem decodes_ofJson : Json.Decodes ofJson fun s => s.Encodable ∧ s.toJson.Finite := by
  refine .record fun fields s finite asked => ?_
  simp only [Json.Asked.seq_eq_got, Json.Asked.map_eq_got] at asked
  obtain ⟨_, frames, ⟨_, scopes, ⟨request, asked, rfl⟩, asked', rfl⟩, asked'', rfl⟩ := asked
  have request' := Value.decodes_ofJson.required finite asked
  have scopes' := decodes_recordOfJson.list.required finite asked'
  have frames' := decodes_frameOfJson.list.required finite asked''
  constructor
  · exact {
      request := request'.ordered
      parents := fun r member => (scopes' r member).1
      bindings := fun r member => (scopes' r member).2.1
      scopes := fun f member => (frames' f member).1
      captured := fun f member => (frames' f member).2.1 }
  · have parts : (∀ r ∈ scopes, (recordJson r).Finite) ∧ ∀ f ∈ frames, (frameJson f).Finite :=
      ⟨fun r member => (scopes' r member).2.2, fun f member => (frames' f member).2.2⟩
    simpa [toJson, request'.finite] using parts

end Snapshot
end FlowScript
