import FlowScript.Program.Json
import FlowScript.Proofs.Decoding

/-! Values, failures and signals are read back from their text. -/
namespace FlowScript

namespace Entries

theorem insert_last {entries : Entries α} (last : ∀ e ∈ entries, e.1 < name) (a : α) :
    entries.insert name a = entries ++ [(name, a)] := by
  induction entries with
  | nil => rfl
  | cons entry rest ih =>
    obtain ⟨key, b⟩ := entry
    obtain ⟨before, later⟩ := List.forall_mem_cons.1 last
    have order : key < name := before
    have other : key ≠ name := fun same => String.lt_irrefl _ (same ▸ order)
    have behind : ¬ name < key := fun after => String.lt_irrefl _ (String.lt_trans after order)
    simp [insert, other, behind, ih later]

/-- Pairs in order are the entries already. -/
theorem ofPairs_of_sorted {entries : Entries α} (sorted : entries.Sorted) :
    ofPairs entries = entries := by
  suffices kept : ∀ start : Entries α, Sorted (start ++ entries) →
      entries.foldl (fun entries e => insert entries e.1 e.2) start = start ++ entries from
    kept [] sorted
  clear sorted
  induction entries with
  | nil => simp
  | cons entry rest ih =>
    intro start sorted
    obtain ⟨name, a⟩ := entry
    have last : ∀ e ∈ start, e.1 < name :=
      fun e member => (List.pairwise_append.1 sorted).2.2 e member (name, a) (.head _)
    simp only [List.foldl_cons, insert_last last]
    rw [ih]
    · simp
    · simpa using sorted

end Entries

namespace Value

mutual

/-- The entries of every map in the value stand in order. -/
def Ordered : Value → Prop
  | .list items => OrderedItems items
  | .map entries => Entries.Sorted entries ∧ OrderedEntries entries
  | _ => True

def OrderedItems : List Value → Prop
  | [] => True
  | v :: rest => Ordered v ∧ OrderedItems rest

def OrderedEntries : List (String × Value) → Prop
  | [] => True
  | (_, v) :: rest => Ordered v ∧ OrderedEntries rest

end

theorem orderedItems_iff : OrderedItems items ↔ ∀ v ∈ items, v.Ordered := by
  induction items with
  | nil => simp [OrderedItems]
  | cons v rest ih => simp [OrderedItems, ih]

theorem orderedEntries_iff : OrderedEntries entries ↔ ∀ e ∈ entries, e.2.Ordered := by
  induction entries with
  | nil => simp [OrderedEntries]
  | cons e rest ih => simp [OrderedEntries, ih]

end Value

/-- The bindings stand in order, and so do the entries of their values. -/
def Bindings.Ordered (b : Bindings) : Prop := b.Sorted ∧ ∀ e ∈ b, e.2.Ordered

/-! ### Depth -/

namespace Value

theorem entriesToJson_eq (entries : List (String × Value)) :
    entriesToJson entries = entries.map fun e => (e.1, toJson e.2) := by
  induction entries with
  | nil => rfl
  | cons e rest ih => simp [entriesToJson, ih]

theorem fieldsNesting_ofPairs_le (pairs : List (String × Value)) :
    Json.fieldsNesting (entriesToJson (Entries.ofPairs pairs)) ≤
      Json.fieldsNesting (entriesToJson pairs) := by
  have bound := Json.fieldsNesting_le_iff.1 (Nat.le_refl (Json.fieldsNesting (entriesToJson pairs)))
  simp only [entriesToJson_eq, Json.fieldsNesting_le_iff, List.forall_mem_map] at bound ⊢
  exact fun e member => bound e (Entries.mem_of_mem_ofPairs member)

theorem ofScalar_flat (decoded : ofScalar t j = .ok v) : Json.nesting (toJson v) = 1 := by
  unfold ofScalar at decoded
  cases t <;> simp only [Json.map_eq_ok, reduceCtorEq] at decoded
  case null =>
    split at decoded <;> cases decoded
    rfl
  all_goals
    obtain ⟨a, -, rfl⟩ := decoded
    rfl

theorem typedContent_got {content : Tag → Option (Except Json.Problem Value)}
    (got : typedContent fields content t = .got v) : content t = some (.ok v) ∨ v = .null := by
  unfold typedContent at got
  split at got
  · simp_all
  · cases got
  · cases got
  · split at got
    · exact .inr (Json.Asked.got.inj got).symm
    · cases got

theorem typedContent_once {content : Tag → Option (Except Json.Problem Value)}
    (once : Json.placesOf "value" 0 fields = [(place, j)]) (typed : content t = some decoded) :
    typedContent fields content t = .got v ↔ decoded = .ok v := by
  unfold typedContent
  rw [once, typed]
  cases decoded <;> simp

theorem assemble_eq_got {content : Tag → Option (Except Json.Problem Value)} :
    assemble medium fields content = .got v ↔
      (∃ t, Json.required fields "type" (Json.asName medium Tag.ofName?) = .got t ∧
        typedContent fields content t = .got v) ∧ readEarly fields = .got () := by
  unfold assemble
  cases Json.required fields "type" (Json.asName medium Tag.ofName?) <;> simp

/-- The content of a value, where its type is known. -/
def contentOf (medium : Json.Medium) (t : Tag) : Json → Option (Except Json.Problem Value)
  | .object fields _ => ofFields medium .buffer t fields
  | .array items _ => ofSecond medium t items
  | _ => none

theorem ofJson_eq_ok : ofJson medium j = .ok v ↔ ∃ fields, layout.Holds j fields ∧
    (∃ t, Json.required fields "type" (Json.asName medium Tag.ofName?) = .got t ∧
      typedContent fields (contentOf medium · j) t = .got v) ∧ readEarly fields = .got () := by
  cases j with
  | object fields flaw =>
    rw [ofJson, Json.asRecord_eq_ok]
    simp only [assemble_eq_got]
    rfl
  | array items flaw =>
    rw [ofJson, Json.asRecord_eq_ok]
    simp only [assemble_eq_got]
    rfl
  | _ =>
    refine ⟨fun decoded => ?_, fun ⟨_, held, _⟩ => nomatch held⟩
    simp [ofJson] at decoded

mutual

theorem nesting_ofJson (j : Json) (decoded : ofJson medium j = .ok v) :
    Json.nesting (toJson v) ≤ Json.nesting j := by
  match j with
  | .object fields flaw =>
    obtain ⟨_, -, ⟨t, -, typed⟩, -⟩ := ofJson_eq_ok.1 decoded
    rcases typedContent_got typed with found | rfl
    · exact nesting_ofFields fields found
    · exact Nat.le_add_left 1 _
  | .array items flaw =>
    obtain ⟨_, -, ⟨t, -, typed⟩, -⟩ := ofJson_eq_ok.1 decoded
    rcases typedContent_got typed with found | rfl
    · exact nesting_ofSecond items found
    · exact Nat.le_add_left 1 _
  | .null | .bool _ | .number _ | .string _ | .flawed _ => simp [ofJson] at decoded

theorem nesting_ofFields (fields : List (String × Json))
    (found : ofFields medium current t fields = some (.ok v)) :
    Json.nesting (toJson v) ≤ Json.fieldsNesting fields + 1 := by
  match fields with
  | [] => simp [ofFields] at found
  | (key, j) :: rest =>
    unfold ofFields at found
    split at found
    · have deep := nesting_ofContent j (Json.settle_eq_ok.1 (Option.some.inj found))
      exact Nat.le_trans deep (Nat.succ_le_succ (Nat.le_max_left _ _))
    · have deep := nesting_ofFields rest found
      exact Nat.le_trans deep (Nat.succ_le_succ (Nat.le_max_right _ _))

theorem nesting_ofSecond (items : List Json) (found : ofSecond medium t items = some (.ok v)) :
    Json.nesting (toJson v) ≤ Json.itemsNesting items + 1 := by
  match items with
  | [] | [_] => simp [ofSecond] at found
  | _ :: j :: rest =>
    have deep := nesting_ofContent j (Option.some.inj found)
    simp only [Json.itemsNesting]
    omega

theorem nesting_ofContent (j : Json) (decoded : ofContent medium t j = .ok v) :
    Json.nesting (toJson v) ≤ Json.nesting j + 1 := by
  match j with
  | .array items flaw =>
    unfold ofContent at decoded
    split at decoded
    · simp only [Json.bind_eq_ok, Json.closing_eq_ok] at decoded
      obtain ⟨vs, decoded, -, rfl⟩ := decoded
      have deep := nesting_ofItems items decoded
      simpa [toJson, tagged, Json.record, Json.list, Json.nesting, Json.fieldsNesting] using deep
    · cases decoded
  | .object fields flaw =>
    unfold ofContent at decoded
    split at decoded
    · simp only [Json.bind_eq_ok, Json.closing_eq_ok] at decoded
      obtain ⟨pairs, decoded, -, rfl⟩ := decoded
      have deep := Nat.le_trans (fieldsNesting_ofPairs_le pairs) (nesting_ofEntries fields decoded)
      simpa [toJson, tagged, Json.record, Json.nesting, Json.fieldsNesting] using deep
    · cases decoded
  | .null | .bool _ | .number _ | .string _ | .flawed _ =>
    rw [ofScalar_flat (by simpa [ofContent] using decoded)]
    exact Nat.le_add_left 1 _

theorem nesting_ofItems (items : List Json) (decoded : ofItems medium items = .ok vs) :
    Json.itemsNesting (itemsToJson vs) ≤ Json.itemsNesting items := by
  match items with
  | [] =>
    cases decoded
    exact Nat.le_refl 0
  | j :: rest =>
    simp only [ofItems, Json.bind_eq_ok] at decoded
    obtain ⟨v, first, vs', later, ⟨⟩⟩ := decoded
    exact max_le_max (nesting_ofJson j first) (nesting_ofItems rest later)

theorem nesting_ofEntries (fields : List (String × Json)) (decoded : ofEntries medium fields = .ok pairs) :
    Json.fieldsNesting (entriesToJson pairs) ≤ Json.fieldsNesting fields := by
  match fields with
  | [] =>
    cases decoded
    exact Nat.le_refl 0
  | (name, j) :: rest =>
    simp only [ofEntries, Json.bind_eq_ok] at decoded
    obtain ⟨v, first, vs', later, ⟨⟩⟩ := decoded
    exact max_le_max (nesting_ofJson j first) (nesting_ofEntries rest later)

end

theorem ofJson_bounds : Json.Bounds (ofJson medium) toJson := fun j _ decoded => nesting_ofJson j decoded

theorem bindingsOfJson_bounds : Json.Bounds (bindingsOfJson medium) bindingsToJson := by
  intro j bindings decoded
  cases j with
  | object fields flaw =>
    simp only [bindingsOfJson, Json.asEntries, Json.bind_eq_ok, Json.closing_eq_ok] at decoded
    obtain ⟨pairs, decoded, -, rfl⟩ := decoded
    have deep := Nat.le_trans (fieldsNesting_ofPairs_le pairs)
      (entriesToJson_eq pairs ▸ ofJson_bounds.pairs decoded)
    exact Nat.succ_le_succ deep
  | _ => simp [bindingsOfJson, Json.asEntries] at decoded

end Value

theorem Failure.ofJson_bounds : Json.Bounds (ofJson medium) toJson := by
  refine Json.Bounds.record fun fields f asked => ?_
  simp only [Json.Asked.seq_eq_got, Json.Asked.map_eq_got] at asked
  obtain ⟨_, o, ⟨_, _, ⟨_, -, rfl⟩, -, rfl⟩, payload, rfl⟩ := asked
  have deep := Value.ofJson_bounds.optionalField payload
  cases o with
  | none => exact Nat.le_add_left 1 _
  | some v => simpa [toJson, Json.record, Json.nesting, Json.fieldsNesting, Json.optional] using deep

theorem CatchClause.ofJson_bounds : Json.Bounds ofJson toJson := by
  refine Json.Bounds.record fun fields c _ => ?_
  obtain ⟨kind, name, body⟩ := c
  cases kind <;> exact Nat.le_add_left 1 _

theorem CatchClause.nesting_le (c : CatchClause) : c.toJson.nesting ≤ d + 1 := by
  simp [toJson, Json.nesting_record_le, Json.nesting_optional_le, Json.nesting_int_le,
    Json.nesting_string_le]

theorem Signal.ofJson_bounds : Json.Bounds (ofJson medium) toJson := by
  intro j s decoded
  unfold ofJson at decoded
  split at decoded
  · simp only [Json.bind_eq_ok, Json.closing_eq_ok] at decoded
    obtain ⟨v, decoded, -, rfl⟩ := decoded
    have deep := Value.ofJson_bounds _ v decoded
    simpa [toJson, Json.record, Json.nesting, Json.fieldsNesting] using deep
  · simp only [Json.bind_eq_ok, Json.closing_eq_ok] at decoded
    obtain ⟨f, decoded, -, rfl⟩ := decoded
    have deep := Failure.ofJson_bounds _ f decoded
    simpa [toJson, Json.record, Json.nesting, Json.fieldsNesting] using deep
  · cases decoded

/-! ### Reading back -/

namespace Value

theorem inRange_int64 (i : Int64) : Json.Number.InRange i.toInt := by
  have least := Int64.le_toInt i
  have most := Int64.toInt_lt i
  simp only [Json.Number.InRange]
  constructor
  · simpa using least
  · exact Int.lt_trans most (by decide)

theorem asInt64_toInt (i : Int64) : Json.asInt64 (.int i.toInt) = .ok i := by
  have least := Int64.le_toInt i
  have most := Int64.toInt_lt i
  have range : Int64.minValue.toInt ≤ i.toInt ∧ i.toInt < Int64.maxValue.toInt + 1 := by
    have bound : Int64.maxValue.toInt + 1 = 2 ^ 63 := by decide
    exact ⟨by simpa using least, bound ▸ most⟩
  simp only [Json.asInt64, Json.int, Json.asInt, if_pos range, Except.map, Int64.ofInt_toInt]

mutual

theorem toJson_plain (v : Value) : (toJson v).Plain := by
  match v with
  | .null | .bool _ | .float _ | .str _ => simp [toJson, tagged]
  | .int i => simp [toJson, tagged, inRange_int64]
  | .list items => simpa [toJson, tagged] using itemsToJson_plain items
  | .map entries => simpa [toJson, tagged] using entriesToJson_plain entries

theorem itemsToJson_plain (items : List Value) : ∀ j ∈ itemsToJson items, j.Plain := by
  match items with
  | [] => simp [itemsToJson]
  | v :: rest => simpa [itemsToJson, toJson_plain v] using itemsToJson_plain rest

theorem entriesToJson_plain (entries : List (String × Value)) :
    ∀ f ∈ entriesToJson entries, f.2.Plain := by
  match entries with
  | [] => simp [entriesToJson]
  | (name, v) :: rest => simpa [entriesToJson, toJson_plain v] using entriesToJson_plain rest

end

/-- Type and content, in this order, are a value if the content is one of the type. -/
theorem ofJson_tagged (t : Tag) (j : Json) :
    ofJson medium (.record [("type", .string t.name), ("value", j)]) = .ok v ↔
      ofContent medium t j = .ok v := by
  have named : Json.required [("type", .string t.name), ("value", j)] "type"
      (Json.asName medium Tag.ofName?) = .got t := by
    simp [Json.required_eq_got, Json.placesOf, Json.asName, Tag.ofName?_name]
  have early : readEarly [("type", .string t.name), ("value", j)] = .got () := by
    simp [readEarly, Json.placesOf]
  have held : layout.Holds (.record [("type", .string t.name), ("value", j)])
      [("type", .string t.name), ("value", j)] := .object rfl
  have typed : typedContent [("type", .string t.name), ("value", j)]
      (contentOf medium · (.record [("type", .string t.name), ("value", j)])) t = .got v ↔
        ofContent medium t j = .ok v :=
    (typedContent_once rfl rfl).trans Json.settle_eq_ok
  rw [ofJson_eq_ok]
  constructor
  · rintro ⟨_, ⟨-⟩, ⟨t', named', got⟩, -⟩
    obtain rfl : t = t' := Json.Asked.got.inj (named.symm.trans named')
    exact typed.1 got
  · exact fun decoded => ⟨_, held, ⟨t, named, typed.2 decoded⟩, early⟩

theorem rereads_tagged (content : ∀ b, ofContent medium t j.written = .ok b ↔ j.Finite ∧ b = v) (b : Value) :
    ofJson medium (tagged t j).written = .ok b ↔ (tagged t j).Finite ∧ b = v := by
  simpa [tagged, Json.written, ofJson_tagged] using content b

mutual

theorem rereads (medium : Json.Medium) (v : Value) (ordered : v.Ordered) : Json.Rereads (ofJson medium) toJson v := by
  match v with
  | .null =>
    have read : ofJson medium (toJson .null).written = .ok .null := rfl
    intro b
    rw [read]
    simp [toJson, eq_comm]
  | .bool b =>
    refine rereads_tagged fun b' => ?_
    simp [Json.written, ofContent, ofScalar, Json.asBool, Except.map, eq_comm]
  | .int i =>
    refine rereads_tagged fun b => ?_
    have scalar : ofContent medium .int (.int i.toInt) = (Json.asInt64 (.int i.toInt)).map .int := by
      simp [Json.int, ofContent, ofScalar]
    simp [scalar, asInt64_toInt, Except.map, eq_comm]
  | .float f =>
    refine rereads_tagged fun b => ?_
    by_cases finite : Decimal.isFinite f
    · simp [Json.written, Json.Number.isFinite, finite, ofContent, ofScalar, Json.asFloat,
        Json.Number.toFloat, Except.map, eq_comm]
    · simp [Json.written, Json.Number.isFinite, finite, ofContent, ofScalar, Json.asFloat, Except.map]
  | .str s =>
    refine rereads_tagged fun b => ?_
    simp [Json.written, ofContent, ofScalar, Json.asString, Except.map, eq_comm]
  | .list items =>
    refine rereads_tagged fun b => ?_
    have reread := items_reread medium items ordered
    rw [Json.written_list, Json.finite_list]
    simp only [Json.list, ofContent, if_true, Json.bind_eq_ok, Json.closing_eq_ok, reread]
    constructor
    · rintro ⟨_, ⟨finite, rfl⟩, -, rfl⟩
      exact ⟨finite, rfl⟩
    · rintro ⟨finite, rfl⟩
      exact ⟨items, ⟨finite, rfl⟩, trivial, rfl⟩
  | .map entries =>
    refine rereads_tagged fun b => ?_
    have reread := entries_reread medium entries ordered.2
    have kept := Entries.ofPairs_of_sorted ordered.1
    rw [Json.written_record, Json.finite_record]
    simp only [Json.record, ofContent, if_true, Json.bind_eq_ok, Json.closing_eq_ok, reread]
    constructor
    · rintro ⟨_, ⟨finite, rfl⟩, -, rfl⟩
      exact ⟨finite, congrArg Value.map kept⟩
    · rintro ⟨finite, rfl⟩
      exact ⟨entries, ⟨finite, rfl⟩, trivial, congrArg Value.map kept⟩

theorem items_reread (medium : Json.Medium) (items : List Value) (ordered : OrderedItems items)
    (vs : List Value) :
    ofItems medium ((itemsToJson items).map Json.written) = .ok vs ↔
      (∀ j ∈ itemsToJson items, j.Finite) ∧ vs = items := by
  match items with
  | [] => simp [itemsToJson, ofItems, eq_comm]
  | v :: rest =>
    have first := rereads medium v ordered.1
    have later := items_reread medium rest ordered.2
    simp only [itemsToJson, List.map_cons, ofItems, Json.bind_eq_ok, first _, later, List.forall_mem_cons]
    constructor
    · rintro ⟨_, ⟨finite, rfl⟩, _, ⟨others, rfl⟩, ⟨⟩⟩
      exact ⟨⟨finite, others⟩, rfl⟩
    · rintro ⟨⟨finite, others⟩, rfl⟩
      exact ⟨v, ⟨finite, rfl⟩, rest, ⟨others, rfl⟩, rfl⟩

theorem entries_reread (medium : Json.Medium) (entries : List (String × Value))
    (ordered : OrderedEntries entries) (pairs : List (String × Value)) :
    ofEntries medium ((entriesToJson entries).map fun f => (f.1, f.2.written)) = .ok pairs ↔
      (∀ f ∈ entriesToJson entries, f.2.Finite) ∧ pairs = entries := by
  match entries with
  | [] => simp [entriesToJson, ofEntries, eq_comm]
  | (name, v) :: rest =>
    have first := rereads medium v ordered.1
    have later := entries_reread medium rest ordered.2
    simp only [entriesToJson, List.map_cons, ofEntries, Json.bind_eq_ok, first _, later, List.forall_mem_cons]
    constructor
    · rintro ⟨_, ⟨finite, rfl⟩, _, ⟨others, rfl⟩, ⟨⟩⟩
      exact ⟨⟨finite, others⟩, rfl⟩
    · rintro ⟨⟨finite, others⟩, rfl⟩
      exact ⟨v, ⟨finite, rfl⟩, rest, ⟨others, rfl⟩, rfl⟩

end

theorem written_ne_null (v : Value) : (toJson v).written ≠ .null := by
  cases v <;> simp [toJson, tagged, Json.record, Json.written]

theorem bindings_plain (b : Bindings) : (bindingsToJson b).Plain := by
  simpa [bindingsToJson] using entriesToJson_plain b

theorem bindings_reread (medium : Json.Medium) {b : Bindings} (ordered : b.Ordered) :
    Json.Rereads (bindingsOfJson medium) bindingsToJson b := by
  intro b'
  have pairs := Json.Rereads.pairs fun e member => rereads medium e.2 (ordered.2 e member)
  have kept := Entries.ofPairs_of_sorted ordered.1
  rw [bindingsToJson, Json.written_record, Json.finite_record, entriesToJson_eq, List.map_map]
  simp only [Json.record, bindingsOfJson, Json.asEntries, Json.bind_eq_ok, Json.closing_eq_ok,
    Function.comp_def, pairs, List.forall_mem_map]
  constructor
  · rintro ⟨_, ⟨finite, rfl⟩, -, rfl⟩
    exact ⟨finite, kept⟩
  · rintro ⟨finite, rfl⟩
    exact ⟨b', ⟨finite, rfl⟩, trivial, kept⟩

end Value

theorem Json.Number.inRange_nat {n : Nat} (small : n < UInt64.size) : Json.Number.InRange n :=
  ⟨Int.le_trans (by decide) (Int.natCast_nonneg n), Int.ofNat_lt.2 small⟩

namespace CatchClause

theorem toJson_plain {c : CatchClause} (small : c.body < UInt32.size) : c.toJson.Plain := by
  have body := Json.Number.inRange_nat (Nat.lt_trans small (by decide))
  simp [toJson, body]

theorem rereads {c : CatchClause} (small : c.body < UInt32.size) : Json.Rereads ofJson toJson c := by
  have kind := Json.Rereads.optional (o := c.kind) (fun s _ => .string s) (by simp [Json.written])
  have name := Json.Rereads.string c.variableName
  have body := Json.Rereads.nat small
  refine .record (by simp) rfl
    (((kind.optionalField ?_).map CatchClause.mk).seq (name.required ?_) |>.seq (body.required ?_)) ?_
  iterate 3 simp [Json.placesOf]
  simp [toJson]

end CatchClause

namespace Failure

def Ordered (f : Failure) : Prop := ∀ v ∈ f.payload, v.Ordered

theorem toJson_plain (f : Failure) : f.toJson.Plain := by
  obtain ⟨kind, message, payload⟩ := f
  cases payload <;> simp [toJson, Value.toJson_plain]

theorem rereads (medium : Json.Medium) {f : Failure} (ordered : f.Ordered) : Json.Rereads (ofJson medium) toJson f := by
  obtain ⟨kind, message, payload⟩ := f
  have kind' := Json.Rereads.string kind
  have message' := Json.Rereads.string message
  cases payload with
  | none =>
    refine .record (by simp) rfl (((kind'.required ?_).map Failure.mk).seq (message'.required ?_) |>.seq
      (.absent (Value.ofJson medium) ?_)) ?_
    iterate 3 simp [Json.placesOf]
    simp [toJson]
  | some v =>
    have payload := Json.Rereads.optional (o := some v) (fun v member => Value.rereads medium v (ordered v member))
      fun v _ => v.written_ne_null
    refine .record (by simp) rfl (((kind'.required ?_).map Failure.mk).seq (message'.required ?_) |>.seq
      (payload.optionalField ?_)) ?_
    iterate 3 simp [Json.placesOf, Json.optional]
    simp [toJson, Json.optional]

end Failure

namespace Signal

def Ordered : Signal → Prop
  | .value v => v.Ordered
  | .thrown f => f.Ordered

theorem toJson_plain (s : Signal) : s.toJson.Plain := by
  cases s <;> simp [toJson, Value.toJson_plain, Failure.toJson_plain]

theorem rereads (medium : Json.Medium) {s : Signal} (ordered : s.Ordered) : Json.Rereads (ofJson medium) toJson s := by
  intro s'
  cases s with
  | value v =>
    have inner := Value.rereads medium v ordered
    rw [toJson, Json.written_record, Json.finite_record]
    simp only [Json.record, List.map_cons, List.map_nil, ofJson, Json.bind_eq_ok, inner _, Json.closing_eq_ok]
    constructor
    · rintro ⟨_, ⟨finite, rfl⟩, -, rfl⟩
      exact ⟨by simpa using finite, rfl⟩
    · rintro ⟨finite, rfl⟩
      exact ⟨v, ⟨by simpa using finite, rfl⟩, trivial, rfl⟩
  | thrown f =>
    have inner := Failure.rereads medium ordered
    rw [toJson, Json.written_record, Json.finite_record]
    simp only [Json.record, List.map_cons, List.map_nil, ofJson, Json.bind_eq_ok, inner _, Json.closing_eq_ok]
    constructor
    · rintro ⟨_, ⟨finite, rfl⟩, -, rfl⟩
      exact ⟨by simpa using finite, rfl⟩
    · rintro ⟨finite, rfl⟩
      exact ⟨f, ⟨by simpa using finite, rfl⟩, trivial, rfl⟩

end Signal
end FlowScript
