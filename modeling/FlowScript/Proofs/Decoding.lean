import FlowScript.Proofs.TreeText
import Mathlib.Data.List.Forall2
import Mathlib.Order.MinMax

/-! What a decoder finds in a tree. A decoder that answers has found every field it asks for, so no
answer is nested deeper than the tree it comes from. -/
namespace FlowScript.Json

/-! ### Asking for fields -/

namespace Asked

@[simp] theorem combine_eq_got {f : α → β → γ} {x : Asked α} {y : Asked β} :
    x.combine f y = .got c ↔ ∃ a b, x = .got a ∧ y = .got b ∧ f a b = c := by
  cases x <;> cases y <;> simp [combine]

@[simp] theorem seq_eq_got {f : Asked (α → β)} {x : Asked α} :
    f <*> x = .got b ↔ ∃ g a, f = .got g ∧ x = .got a ∧ g a = b := combine_eq_got

@[simp] theorem map_eq_got {f : α → β} {x : Asked α} :
    f <$> x = .got b ↔ ∃ a, x = .got a ∧ f a = b := by
  change (Asked.got f).combine (fun f a => f a) x = _ ↔ _
  simp

@[simp] theorem pure_eq_got {a b : α} : (pure a : Asked α) = .got b ↔ a = b := by
  change Asked.got a = _ ↔ _
  simp

@[simp] theorem exists_eq_got {x : Asked Unit} : (∃ u, x = .got u) ↔ x = .got () :=
  ⟨fun ⟨_, asked⟩ => asked, fun asked => ⟨(), asked⟩⟩

@[simp] theorem toExcept_eq_ok {x : Asked α} : x.toExcept = .ok a ↔ x = .got a := by
  cases x <;> simp [toExcept]

end Asked

theorem ask_eq_got : ask fields key decode absent = .got a ↔
    (placesOf key 0 fields = [] ∧ absent = some a) ∨
      ∃ place j, placesOf key 0 fields = [(place, j)] ∧ decode j = .ok a := by
  unfold ask
  match placesOf key 0 fields with
  | [] => cases absent <;> simp
  | [(place, j)] => cases given : decode j <;> simp [and_assoc, given]
  | (place, j) :: (again, _) :: _ => cases given : decode j <;> simp [given]

theorem required_eq_got : required fields key decode = .got a ↔
    ∃ place j, placesOf key 0 fields = [(place, j)] ∧ decode j = .ok a := by
  simp [required, ask_eq_got]

theorem optionalField_eq_got : optionalField fields key decode = .got o ↔
    (placesOf key 0 fields = [] ∧ o = none) ∨
      ∃ place j, placesOf key 0 fields = [(place, j)] ∧ nullable decode j = .ok o := by
  simp [optionalField, ask_eq_got, @eq_comm _ none o]

/-- The tree holds the fields: it is an object whose other fields can be skipped, or an array of fields. -/
inductive Layout.Holds (layout : Layout) : Json → List (String × Json) → Prop
  | object (skipped : skipOthers layout.keys 0 fields = .got ()) : layout.Holds (.object fields none) fields
  | array (least : layout.least ≤ items.length) (most : items.length ≤ layout.keys.length) :
    layout.Holds (.array items none) (layout.keys.zip items)

theorem Layout.ended_eq_got {layout : Layout} : layout.ended items flaw = .got () ↔
    flaw = none ∧ layout.least ≤ items.length ∧ items.length ≤ layout.keys.length := by
  unfold ended
  split
  · next longer => simp [Nat.not_le.2 longer]
  · next most => cases flaw <;> simp [Nat.not_lt.1 most]

theorem asRecord_eq_ok {reads : List (String × Json) → Asked α} :
    asRecord layout reads j = .ok a ↔ ∃ fields, layout.Holds j fields ∧ reads fields = .got a := by
  constructor
  · intro decoded
    cases j with
    | object fields flaw =>
      cases flaw with
      | none =>
        have asked : reads fields = .got a ∧ skipOthers layout.keys 0 fields = .got () := by
          simpa [asRecord] using decoded
        exact ⟨fields, .object asked.2, asked.1⟩
      | some flaw => simp [asRecord] at decoded
    | array items flaw =>
      have asked : reads (layout.keys.zip items) = .got a ∧ layout.ended items flaw = .got () := by
        simpa [asRecord] using decoded
      obtain ⟨rfl, least, most⟩ := Layout.ended_eq_got.1 asked.2
      exact ⟨_, .array least most, asked.1⟩
    | _ => simp [asRecord] at decoded
  · rintro ⟨fields, held, got⟩
    cases held with
    | object skipped => simp [asRecord, got, skipped]
    | array least most => simp [asRecord, got, Layout.ended_eq_got.2 ⟨rfl, least, most⟩]

@[simp] theorem settle_eq_ok : Medium.settle medium x = .ok a ↔ x = .ok a := by
  cases medium with
  | text => rfl
  | buffer => cases x <;> simp [Medium.settle, Except.mapError]

theorem closing_eq_ok : closing flaw a = .ok b ↔ flaw = none ∧ a = b := by
  cases flaw <;> simp [closing]

theorem bind_eq_ok {x : Except ε α} {f : α → Except ε β} :
    x >>= f = .ok b ↔ ∃ a, x = .ok a ∧ f a = .ok b := by
  cases x <;> simp [bind, Except.bind]

theorem map_eq_ok {x : Except ε α} {f : α → β} : x.map f = .ok b ↔ ∃ a, x = .ok a ∧ f a = b := by
  cases x <;> simp [Except.map]

theorem decodeEach_eq_ok : decodeEach decode js = .ok as ↔
    List.Forall₂ (fun j a => decode j = .ok a) js as := by
  induction js generalizing as with
  | nil => cases as <;> simp [decodeEach]
  | cons j js ih =>
    simp only [decodeEach, bind_eq_ok, ih]
    cases as <;> simp [pure, Except.pure]

theorem asList_eq_ok : asList decode j = .ok as ↔ ∃ js, j = .array js none ∧
    List.Forall₂ (fun j a => decode j = .ok a) js as := by
  cases j with
  | array js flaw => simp [asList, bind_eq_ok, closing_eq_ok, decodeEach_eq_ok, and_comm]
  | _ => simp [asList]

theorem mem_of_asList (decoded : asList decode j = .ok as) :
    ∃ js, j = .array js none ∧ ∀ a ∈ as, ∃ i ∈ js, decode i = .ok a := by
  obtain ⟨js, rfl, each⟩ := asList_eq_ok.1 decoded
  refine ⟨js, rfl, ?_⟩
  clear decoded
  induction each with
  | nil => exact List.forall_mem_nil _
  | @cons i a js as here _ ih =>
    refine List.forall_mem_cons.2 ⟨⟨i, .head _, here⟩, fun b member => ?_⟩
    obtain ⟨k, inside, given⟩ := ih b member
    exact ⟨k, .tail _ inside, given⟩

/-! ### Depth -/

theorem nesting_record_le : nesting (record fields) ≤ d + 1 ↔ ∀ f ∈ fields, nesting f.2 ≤ d := by
  simp [record, nesting, fieldsNesting_le_iff]

theorem nesting_list_le : nesting (list items) ≤ d + 1 ↔ ∀ j ∈ items, nesting j ≤ d := by
  simp [list, nesting, itemsNesting_le_iff]

theorem nesting_optional_le {o : Option Json} : nesting (optional o) ≤ d ↔ ∀ j ∈ o, nesting j ≤ d := by
  cases o <;> simp [optional, nesting]

theorem nesting_int_le : nesting (.int i) ≤ d := Nat.zero_le d

theorem nesting_string_le : nesting (.string s) ≤ d := Nat.zero_le d

theorem nesting_bool_le : nesting (.bool b) ≤ d := Nat.zero_le d

theorem mem_of_placesOf (found : (place, j) ∈ placesOf key n fields) : (key, j) ∈ fields := by
  induction fields generalizing n with
  | nil => simp [placesOf] at found
  | cons field fields ih =>
    obtain ⟨k, j'⟩ := field
    simp only [placesOf] at found
    split at found
    · next same =>
      rcases List.mem_cons.1 found with here | later
      · simp_all
      · exact .tail _ (ih later)
    · exact .tail _ (ih found)

theorem nesting_le_of_mem (member : (key, j) ∈ fields) : nesting j ≤ fieldsNesting fields :=
  fieldsNesting_le_iff.1 (Nat.le_refl _) _ member

/-- What is decoded is, once encoded again, no deeper than what it was decoded from. -/
def Bounds (decode : Decoder α) (encode : α → Json) : Prop :=
  ∀ j a, decode j = .ok a → nesting (encode a) ≤ nesting j

theorem Bounds.flat (decode : Decoder α) (flat : ∀ a, nesting (encode a) = 0) :
    Bounds decode encode := fun _ a _ => flat a ▸ Nat.zero_le _

theorem Bounds.required (bounds : Bounds decode encode)
    (got : Json.required fields key decode = .got a) : nesting (encode a) ≤ fieldsNesting fields := by
  obtain ⟨place, j, found, decoded⟩ := required_eq_got.1 got
  have member := mem_of_placesOf (found ▸ List.mem_singleton.2 rfl)
  exact Nat.le_trans (bounds j a decoded) (nesting_le_of_mem member)

theorem Bounds.nullable (bounds : Bounds decode encode) :
    Bounds (Json.nullable decode) fun o => optional (o.map encode) := by
  intro j o decoded
  unfold Json.nullable at decoded
  split at decoded
  · cases decoded
    simp [optional, nesting]
  · obtain ⟨a, given, rfl⟩ := map_eq_ok.1 decoded
    exact bounds _ a given

theorem Bounds.optionalField (bounds : Bounds decode encode)
    (got : Json.optionalField fields key decode = .got o) :
    nesting (optional (o.map encode)) ≤ fieldsNesting fields := by
  rcases optionalField_eq_got.1 got with ⟨-, rfl⟩ | ⟨place, j, found, decoded⟩
  · simp [optional, nesting]
  · have member := mem_of_placesOf (found ▸ List.mem_singleton.2 rfl)
    exact Nat.le_trans (bounds.nullable j o decoded) (nesting_le_of_mem member)

theorem Bounds.list (bounds : Bounds decode encode) :
    Bounds (asList decode) fun as => list (as.map encode) := by
  intro j as decoded
  obtain ⟨js, rfl, each⟩ := asList_eq_ok.1 decoded
  clear decoded
  refine Nat.succ_le_succ ?_
  induction each with
  | nil => exact Nat.le_refl _
  | cons decoded _ ih => exact max_le_max (bounds _ _ decoded) ih

theorem Bounds.pairs {ps : List (String × α)} (bounds : Bounds decode encode)
    (decoded : decodePairs decode fields = .ok ps) :
    fieldsNesting (ps.map fun p => (p.1, encode p.2)) ≤ fieldsNesting fields := by
  induction fields generalizing ps with
  | nil =>
    cases decoded
    exact Nat.le_refl 0
  | cons field rest ih =>
    simp only [decodePairs, bind_eq_ok] at decoded
    obtain ⟨a, first, ps', later, ⟨⟩⟩ := decoded
    exact max_le_max (bounds _ a first) (ih later)

theorem Layout.Holds.shallow {layout : Layout} (held : layout.Holds j fields) :
    fieldsNesting fields + 1 ≤ nesting j := by
  cases held with
  | object => exact Nat.le_refl _
  | array =>
    refine Nat.succ_le_succ (fieldsNesting_le_iff.2 fun f member => ?_)
    exact itemsNesting_le_iff.1 (Nat.le_refl _) _ (List.of_mem_zip member).2

theorem Bounds.record {encode : α → Json}
    (each : ∀ fields a, reads fields = .got a → nesting (encode a) ≤ fieldsNesting fields + 1) :
    Bounds (asRecord layout reads) encode := by
  intro j a decoded
  obtain ⟨fields, held, got⟩ := asRecord_eq_ok.1 decoded
  exact Nat.le_trans (each fields a got) held.shallow

theorem mem_of_splitTag (split : splitTag tag ofName? found fields = .ok (t, others)) (member : f ∈ others) :
    f ∈ fields := by
  induction fields generalizing found t others with
  | nil =>
    simp only [splitTag, Except.ok.injEq, Prod.mk.injEq] at split
    simp [← split.2] at member
  | cons field rest ih =>
    obtain ⟨key, j⟩ := field
    unfold splitTag at split
    split at split
    · split at split
      · cases split
      · obtain ⟨t', -, split⟩ := bind_eq_ok.1 split
        exact .tail _ (ih split member)
    · split at split
      · cases split
      · obtain ⟨⟨t', later⟩, inner, same⟩ := bind_eq_ok.1 split
        cases same
        rcases List.mem_cons.1 member with rfl | member
        · exact .head _
        · exact .tail _ (ih inner member)

/-- The tree holds a tag and, beside it, the fields. -/
inductive HoldsTagged (tag : String) (ofName? : String → Option τ) (layout : τ → Layout) :
    Json → τ → List (String × Json) → Prop
  | object (split : splitTag tag ofName? none fields = .ok (some t, others)) :
    HoldsTagged tag ofName? layout (.object fields none) t others
  | array (named : asTag ofName? j = .ok t) (whole : itemsFault items = none)
    (held : (layout t).Holds (.list items) fields) :
    HoldsTagged tag ofName? layout (.array (j :: items) none) t fields

theorem asTagged_eq_ok {reads : τ → List (String × Json) → Asked α} :
    asTagged tag ofName? layout reads j = .ok a ↔
      ∃ t fields, HoldsTagged tag ofName? layout j t fields ∧ reads t fields = .got a := by
  constructor
  · intro decoded
    match j with
    | .object fields flaw =>
      simp only [asTagged, bind_eq_ok, closing_eq_ok] at decoded
      obtain ⟨⟨t, others⟩, split, -, ⟨rfl, -⟩, decoded⟩ := decoded
      cases t with
      | none => cases decoded
      | some t => exact ⟨t, others, .object split, Asked.toExcept_eq_ok.1 (settle_eq_ok.1 decoded)⟩
    | .array [] flaw => simp [asTagged] at decoded
    | .array (j :: items) flaw =>
      simp only [asTagged, bind_eq_ok] at decoded
      obtain ⟨t, named, decoded⟩ := decoded
      split at decoded
      · cases decoded
      · next unfaulted =>
        obtain ⟨whole, unflawed⟩ := Option.or_eq_none_iff.1 unfaulted
        obtain rfl := Option.map_eq_none_iff.1 unflawed
        obtain ⟨fields, held, got⟩ := asRecord_eq_ok.1 (settle_eq_ok.1 decoded)
        exact ⟨t, fields, .array named whole held, got⟩
    | .null | .bool _ | .number _ | .string _ | .flawed _ => simp [asTagged] at decoded
  · rintro ⟨t, fields, held, got⟩
    cases held with
    | object split =>
      simp only [asTagged, bind_eq_ok, closing_eq_ok]
      exact ⟨(some t, fields), split, (), ⟨trivial, trivial⟩, settle_eq_ok.2 (Asked.toExcept_eq_ok.2 got)⟩
    | array named whole held =>
      simp only [asTagged, bind_eq_ok, whole]
      exact ⟨t, named, settle_eq_ok.2 (asRecord_eq_ok.2 ⟨fields, held, got⟩)⟩

theorem HoldsTagged.shallow (held : HoldsTagged tag ofName? layout j t fields) :
    fieldsNesting fields + 1 ≤ nesting j := by
  cases held with
  | object split =>
    refine Nat.succ_le_succ (fieldsNesting_le_iff.2 fun f member => ?_)
    exact nesting_le_of_mem (mem_of_splitTag split member)
  | array named whole held => exact Nat.le_trans held.shallow (Nat.succ_le_succ (Nat.le_max_right _ _))

theorem Bounds.tagged {encode : α → Json}
    (each : ∀ t fields a, reads t fields = .got a → nesting (encode a) ≤ fieldsNesting fields + 1) :
    Bounds (asTagged tag ofName? layout reads) encode := by
  intro j a decoded
  obtain ⟨t, fields, held, got⟩ := asTagged_eq_ok.1 decoded
  exact Nat.le_trans (each t fields a got) held.shallow

/-! ### Reading back -/

/-- All numbers of the tree are written with digits. -/
def Finite (j : Json) : Prop := ∀ n ∈ numbers j, n.isFinite

/-- No part of the tree is missing, and its integers are in the range of those that are read. -/
def Plain (j : Json) : Prop :=
  readingFault j = none ∧ ∀ i, .int i ∈ numbers j → Number.InRange i

theorem mem_itemsNumbers : n ∈ itemsNumbers items ↔ ∃ j ∈ items, n ∈ numbers j := by
  induction items with
  | nil => simp [itemsNumbers]
  | cons j rest ih => simp [itemsNumbers, ih]

theorem mem_fieldsNumbers : n ∈ fieldsNumbers fields ↔ ∃ f ∈ fields, n ∈ numbers f.2 := by
  induction fields with
  | nil => simp [fieldsNumbers]
  | cons f rest ih => simp [fieldsNumbers, ih]

theorem itemsFault_eq_none : itemsFault items = none ↔ ∀ j ∈ items, readingFault j = none := by
  induction items with
  | nil => simp [itemsFault]
  | cons j rest ih => simp [itemsFault, Option.or_eq_none_iff, ih]

theorem fieldsFault_eq_none : fieldsFault fields = none ↔ ∀ f ∈ fields, readingFault f.2 = none := by
  induction fields with
  | nil => simp [fieldsFault]
  | cons f rest ih => simp [fieldsFault, Option.or_eq_none_iff, ih]

@[simp] theorem finite_null : Finite .null := by simp [Finite, numbers]

@[simp] theorem finite_bool : Finite (.bool b) := by simp [Finite, numbers]

@[simp] theorem finite_string : Finite (.string s) := by simp [Finite, numbers]

@[simp] theorem finite_int : Finite (.int i) := by simp [Finite, Json.int, numbers, Number.isFinite]

@[simp] theorem finite_float : Finite (.number (.float f)) ↔ Decimal.isFinite f := by
  simp [Finite, numbers, Number.isFinite]

@[simp] theorem finite_list : Finite (list items) ↔ ∀ j ∈ items, Finite j := by
  simp only [Finite, list, numbers, mem_itemsNumbers]
  constructor
  · intro all j member n inside
    exact all n ⟨j, member, inside⟩
  · rintro all n ⟨j, member, inside⟩
    exact all j member n inside

@[simp] theorem finite_record : Finite (record fields) ↔ ∀ f ∈ fields, Finite f.2 := by
  simp only [Finite, record, numbers, mem_fieldsNumbers]
  constructor
  · intro all f member n inside
    exact all n ⟨f, member, inside⟩
  · rintro all n ⟨f, member, inside⟩
    exact all f member n inside

theorem finite_optional {o : Option Json} : Finite (optional o) ↔ ∀ j ∈ o, Finite j := by
  cases o <;> simp [optional]

@[simp] theorem plain_null : Plain .null := by simp [Plain, readingFault, numbers]

@[simp] theorem plain_bool : Plain (.bool b) := by simp [Plain, readingFault, numbers]

@[simp] theorem plain_string : Plain (.string s) := by simp [Plain, readingFault, numbers]

@[simp] theorem plain_int : Plain (.int i) ↔ Number.InRange i := by
  simp [Plain, Json.int, readingFault, numbers]

@[simp] theorem plain_float : Plain (.number (.float f)) := by simp [Plain, readingFault, numbers]

@[simp] theorem plain_list : Plain (list items) ↔ ∀ j ∈ items, Plain j := by
  simp only [Plain, list, readingFault, numbers, mem_itemsNumbers, Option.or_eq_none_iff,
    itemsFault_eq_none]
  constructor
  · rintro ⟨⟨whole, _⟩, range⟩ j member
    exact ⟨whole j member, fun i inside => range i ⟨j, member, inside⟩⟩
  · intro all
    refine ⟨⟨fun j member => (all j member).1, rfl⟩, ?_⟩
    rintro i ⟨j, member, inside⟩
    exact (all j member).2 i inside

@[simp] theorem plain_record : Plain (record fields) ↔ ∀ f ∈ fields, Plain f.2 := by
  simp only [Plain, record, readingFault, numbers, mem_fieldsNumbers, Option.or_eq_none_iff,
    fieldsFault_eq_none]
  constructor
  · rintro ⟨⟨whole, _⟩, range⟩ f member
    exact ⟨whole f member, fun i inside => range i ⟨f, member, inside⟩⟩
  · intro all
    refine ⟨⟨fun f member => (all f member).1, rfl⟩, ?_⟩
    rintro i ⟨f, member, inside⟩
    exact (all f member).2 i inside

@[simp] theorem plain_optional {o : Option Json} : Plain (optional o) ↔ ∀ j ∈ o, Plain j := by
  cases o <;> simp [optional]

theorem Plain.legible (plain : Plain j)
    (floats : ∀ f, .float f ∈ numbers j → Number.Legible (.float f)) : Legible j := by
  refine ⟨plain.1, fun n member => ?_⟩
  cases n with
  | int i => exact fun _ => scanNumber_int (plain.2 i member)
  | float f => exact floats f member

theorem writtenItems_eq (items : List Json) : writtenItems items = items.map written := by
  induction items with
  | nil => rfl
  | cons j rest ih => simp [writtenItems, ih]

theorem writtenFields_eq (fields : List (String × Json)) :
    writtenFields fields = fields.map fun f => (f.1, written f.2) := by
  induction fields with
  | nil => rfl
  | cons f rest ih => simp [writtenFields, ih]

@[simp] theorem written_list : written (list items) = list (items.map written) := by
  simp [list, written, writtenItems_eq]

@[simp] theorem written_record :
    written (record fields) = record (fields.map fun f => (f.1, written f.2)) := by
  simp [record, written, writtenFields_eq]

@[simp] theorem written_int : written (.int i) = .int i := by
  simp [Json.int, written, Number.isFinite]

mutual

theorem readingFault_written (j : Json) (whole : readingFault j = none) :
    readingFault (written j) = none := by
  match j with
  | .null | .bool _ | .string _ | .flawed _ => exact whole
  | .number n =>
    unfold written
    split <;> rfl
  | .array items flaw =>
    have inner := itemsFault_written items (Option.or_eq_none_iff.1 whole).1
    simp [written, readingFault, inner]
  | .object fields flaw =>
    have inner := fieldsFault_written fields (Option.or_eq_none_iff.1 whole).1
    simp [written, readingFault, inner]

theorem itemsFault_written (items : List Json) (whole : itemsFault items = none) :
    itemsFault (writtenItems items) = none := by
  match items with
  | [] => rfl
  | j :: rest =>
    obtain ⟨first, later⟩ := Option.or_eq_none_iff.1 whole
    simp [writtenItems, itemsFault, readingFault_written j first, itemsFault_written rest later]

theorem fieldsFault_written (fields : List (String × Json)) (whole : fieldsFault fields = none) :
    fieldsFault (writtenFields fields) = none := by
  match fields with
  | [] => rfl
  | (_, j) :: rest =>
    obtain ⟨first, later⟩ := Option.or_eq_none_iff.1 whole
    simp [writtenFields, fieldsFault, readingFault_written j first, fieldsFault_written rest later]

end

/-- The decoder reads back what is written of the value if that is finite, and refuses it if not. -/
def Rereads (decode : Decoder α) (encode : α → Json) (a : α) : Prop :=
  ∀ b, decode (written (encode a)) = .ok b ↔ Finite (encode a) ∧ b = a

/-- What is read back from a tree is read back from the text of the tree, up to the depth of reading. -/
theorem Rereads.decodeText_text {encode : α → Json} (rereads : Rereads decode encode a) (plain : Plain (encode a))
    (floats : ∀ f, .float f ∈ numbers (encode a) → Number.Legible (.float f))
    (shallow : nesting (encode a) ≤ maxDepth) (b : α) :
    decodeText decode (encode a).text = .ok b ↔ Finite (encode a) ∧ b = a := by
  rw [Json.decodeText_text decode (plain.legible floats) shallow]
  exact rereads b

theorem Rereads.string (s : String) : Rereads asString .string s := by
  simp [Rereads, written, asString, eq_comm]

theorem Rereads.bool (b : Bool) : Rereads asBool .bool b := by
  simp [Rereads, written, asBool, eq_comm]

theorem Rereads.nat (small : n < bound) : Rereads (asNat bound) (fun n : Nat => .int n) n := by
  intro m
  have inside : (0 : Int) ≤ n ∧ (n : Int) < bound := by omega
  simp only [written_int, finite_int, true_and]
  simp [Json.int, asNat, asInt, inside, Except.map, eq_comm]

theorem Rereads.ofName {toName : α → String} (known : ofName? (toName a) = some a) :
    Rereads (asName medium ofName?) (fun a => .string (toName a)) a := by
  simp [Rereads, written, asName, known, eq_comm]

theorem Rereads.each {as : List α} (each : ∀ a ∈ as, Rereads decode encode a) (bs : List α) :
    decodeEach decode (as.map fun a => written (encode a)) = .ok bs ↔
      (∀ a ∈ as, Finite (encode a)) ∧ bs = as := by
  induction as generalizing bs with
  | nil => simp [decodeEach, eq_comm]
  | cons a as ih =>
    obtain ⟨first, later⟩ := List.forall_mem_cons.1 each
    simp only [List.map_cons, decodeEach, bind_eq_ok, first _, ih later, List.forall_mem_cons]
    constructor
    · rintro ⟨_, ⟨finite, rfl⟩, _, ⟨others, rfl⟩, ⟨⟩⟩
      exact ⟨⟨finite, others⟩, rfl⟩
    · rintro ⟨⟨finite, others⟩, rfl⟩
      exact ⟨a, ⟨finite, rfl⟩, as, ⟨others, rfl⟩, rfl⟩

theorem Rereads.list (each : ∀ a ∈ as, Rereads decode encode a) :
    Rereads (asList decode) (fun as => Json.list (as.map encode)) as := by
  intro bs
  have items := Rereads.each each bs
  simp only [written_list, List.map_map, finite_list, List.forall_mem_map]
  simpa [Json.list, asList, bind_eq_ok, closing_eq_ok, Function.comp_def] using items

theorem Rereads.pairs {ps : List (String × α)} (each : ∀ p ∈ ps, Rereads decode encode p.2)
    (qs : List (String × α)) :
    decodePairs decode (ps.map fun p => (p.1, written (encode p.2))) = .ok qs ↔
      (∀ p ∈ ps, Finite (encode p.2)) ∧ qs = ps := by
  induction ps generalizing qs with
  | nil => simp [decodePairs, eq_comm]
  | cons p ps ih =>
    obtain ⟨first, later⟩ := List.forall_mem_cons.1 each
    simp only [List.map_cons, decodePairs, bind_eq_ok, first _, ih later, List.forall_mem_cons]
    constructor
    · rintro ⟨_, ⟨finite, rfl⟩, _, ⟨others, rfl⟩, ⟨⟩⟩
      exact ⟨⟨finite, others⟩, rfl⟩
    · rintro ⟨⟨finite, others⟩, rfl⟩
      exact ⟨p.2, ⟨finite, rfl⟩, ps, ⟨others, rfl⟩, rfl⟩

/-- The value is no null, so that it differs from none. -/
theorem Rereads.optional {o : Option α} (each : ∀ a ∈ o, Rereads decode encode a)
    (present : ∀ a ∈ o, written (encode a) ≠ .null) :
    Rereads (nullable decode) (fun o => Json.optional (o.map encode)) o := by
  intro o'
  cases o with
  | none => simp [Json.optional, written, nullable, eq_comm]
  | some a =>
    have here := present a rfl
    have reread := each a rfl
    simp only [Json.optional, Option.map_some, Option.getD_some]
    rw [nullable.eq_2 _ _ here, map_eq_ok]
    constructor
    · rintro ⟨b, decoded, rfl⟩
      exact ⟨((reread b).1 decoded).1, congrArg some ((reread b).1 decoded).2⟩
    · rintro ⟨finite, rfl⟩
      exact ⟨a, (reread a).2 ⟨finite, rfl⟩, rfl⟩

theorem skipOthers_known (known : ∀ f ∈ fields, f.1 ∈ keys) (place : Nat) :
    skipOthers keys place fields = .got () := by
  induction fields generalizing place with
  | nil => rfl
  | cons f rest ih =>
    obtain ⟨here, later⟩ := List.forall_mem_cons.1 known
    simp [skipOthers, here, ih later]

theorem asRecord_record {reads : List (String × Json) → Asked α} (known : ∀ f ∈ fields, f.1 ∈ layout.keys) :
    asRecord layout reads (record fields) = .ok a ↔ reads fields = .got a := by
  rw [asRecord_eq_ok]
  constructor
  · rintro ⟨_, ⟨-⟩, got⟩
    exact got
  · exact fun got => ⟨fields, .object (skipOthers_known known 0), got⟩

/-- The fields hold the value where they are fine, and something is wrong with them where not. -/
def Asked.Gives (asked : Asked α) (fine : Prop) (a : α) : Prop :=
  ∀ b, asked = .got b ↔ fine ∧ b = a

namespace Asked.Gives

theorem pure (a : α) : Gives (Pure.pure a) True a := by simp [Gives, eq_comm]

theorem map {asked : Asked α} (gives : asked.Gives fine a) (f : α → β) :
    (f <$> asked).Gives fine (f a) := by
  intro b
  rw [map_eq_got]
  constructor
  · rintro ⟨_, asked, rfl⟩
    obtain ⟨fine, rfl⟩ := (gives _).1 asked
    exact ⟨fine, rfl⟩
  · rintro ⟨fine, rfl⟩
    exact ⟨a, (gives a).2 ⟨fine, rfl⟩, rfl⟩

theorem seq {function : Asked (α → β)} (first : function.Gives fine f) {asked : Asked α}
    (second : asked.Gives fine' a) : (function <*> asked).Gives (fine ∧ fine') (f a) := by
  intro b
  rw [seq_eq_got]
  constructor
  · rintro ⟨_, _, function, asked, rfl⟩
    obtain ⟨fine, rfl⟩ := (first _).1 function
    obtain ⟨fine', rfl⟩ := (second _).1 asked
    exact ⟨⟨fine, fine'⟩, rfl⟩
  · rintro ⟨⟨fine, fine'⟩, rfl⟩
    exact ⟨f, a, (first f).2 ⟨fine, rfl⟩, (second a).2 ⟨fine', rfl⟩, rfl⟩

end Asked.Gives

theorem Rereads.required (rereads : Rereads decode encode a)
    (here : (placesOf key 0 fields).map Prod.snd = [(encode a).written]) :
    (Json.required fields key decode).Gives (Finite (encode a)) a := by
  intro b
  obtain ⟨⟨place, _⟩, found, rfl⟩ := List.map_eq_singleton_iff.1 here
  simpa [required_eq_got, found] using rereads b

/-- A field that may be absent, and is there. -/
theorem Rereads.defaulted {encode : α → Json} (rereads : Rereads decode encode a) (default : α)
    (here : (placesOf key 0 fields).map Prod.snd = [(encode a).written]) :
    (Json.defaulted fields key default decode).Gives (Finite (encode a)) a := by
  intro b
  obtain ⟨⟨place, _⟩, found, rfl⟩ := List.map_eq_singleton_iff.1 here
  simpa [Json.defaulted, ask_eq_got, found] using rereads b

theorem Rereads.optionalField {o : Option α}
    (rereads : Rereads (nullable decode) (fun o => Json.optional (o.map encode)) o)
    (here : (placesOf key 0 fields).map Prod.snd = [(Json.optional (o.map encode)).written]) :
    (Json.optionalField fields key decode).Gives (Finite (Json.optional (o.map encode))) o := by
  intro b
  obtain ⟨⟨place, _⟩, found, rfl⟩ := List.map_eq_singleton_iff.1 here
  simpa [optionalField_eq_got, found] using rereads b

theorem Asked.Gives.absent (decode : Decoder α) (absent : placesOf key 0 fields = []) :
    (Json.optionalField fields key decode).Gives True none := by
  simp [Gives, optionalField_eq_got, absent]

theorem Rereads.record {encode : α → Json} (known : ∀ f ∈ fields, f.1 ∈ layout.keys)
    (encoded : encode a = Json.record fields)
    (gives : (reads (fields.map fun f => (f.1, f.2.written))).Gives fine a)
    (condition : Finite (encode a) ↔ fine) : Rereads (asRecord layout reads) encode a := by
  intro b
  rw [condition, encoded, written_record, asRecord_record]
  · exact gives b
  · exact List.forall_mem_map.2 known

theorem splitTag_others (others : ∀ f ∈ fields, f.1 ≠ tag ∧ readingFault f.2 = none) :
    splitTag tag ofName? found fields = .ok (found, fields) := by
  induction fields with
  | nil => rfl
  | cons f rest ih =>
    obtain ⟨key, j⟩ := f
    obtain ⟨⟨other, whole⟩, later⟩ := List.forall_mem_cons.1 others
    unfold splitTag
    simp only [if_neg other, whole, ih later]
    rfl

theorem Rereads.tagged {encode : α → Json} {tagName : τ → String}
    (encoded : encode a = Json.record ((tag, .string (tagName t)) :: fields))
    (known : ofName? (tagName t) = some t) (others : ∀ f ∈ fields, f.1 ≠ tag)
    (plain : Plain (encode a))
    (gives : (reads t (fields.map fun f => (f.1, f.2.written))).Gives fine a)
    (condition : Finite (encode a) ↔ fine) : Rereads (asTagged tag ofName? layout reads) encode a := by
  intro b
  have rest : ∀ f ∈ fields.map fun f => (f.1, f.2.written), f.1 ≠ tag ∧ readingFault f.2 = none :=
    List.forall_mem_map.2 fun f member =>
      ⟨others f member, readingFault_written f.2 (plain_record.1 (encoded ▸ plain) f (.tail _ member)).1⟩
  rw [condition, encoded, written_record]
  simp only [Json.record, asTagged, List.map_cons, written, splitTag, if_true, asTag, asString, known,
    Option.elim, bind, Except.bind, splitTag_others rest, closing]
  rw [settle_eq_ok, Asked.toExcept_eq_ok]
  exact gives b

end FlowScript.Json
