import FlowScript.Proofs.Locality

/-! What a failure keeps of the value that was thrown. Of a value that is no map it keeps all; of a map it keeps
a kind that is a text, the text of the message, and the payload, and of all other entries nothing. -/
namespace FlowScript

namespace Failure

/-- The kind that an entry gives to a failure. Where there is none, or no text, it is the usual one. -/
def reportedKind : Option Value → String
  | some (.str kind) => kind
  | _ => thrownKind

/-- The message that an entry gives to a failure. -/
def reportedMessage (entry : Option Value) : String := (entry.map Value.text).getD ""

/-- The names of the entries that are looked at in a thrown map. -/
def reportNames : List String := ["kind", "message", "payload"]

/-- Failures of the maps are made of the same. -/
structure SameReport (as bs : Bindings) : Prop where
  kind : reportedKind (as.find? "kind") = reportedKind (bs.find? "kind")
  message : reportedMessage (as.find? "message") = reportedMessage (bs.find? "message")
  payload : as.find? "payload" = bs.find? "payload"

/-- The maps say the same, where a missing kind stands for the usual one, and any message for its text. -/
structure SameData (as bs : Bindings) : Prop where
  kind : (as.find? "kind").getD (.str thrownKind) = (bs.find? "kind").getD (.str thrownKind)
  message : reportedMessage (as.find? "message") = reportedMessage (bs.find? "message")
  others : ∀ name, name ≠ "kind" → name ≠ "message" → as.find? name = bs.find? name

/-- A map whose kind is a text, if it has one, and that has no entries but those that are looked at. -/
structure Legible (entries : Bindings) : Prop where
  kind : ∀ v, entries.find? "kind" = some v → ∃ kind, v = .str kind
  names : ∀ name, name ∉ reportNames → entries.find? name = none

variable {as bs : Bindings} {v w : Value}

theorem ofThrown_map (entries : Bindings) :
    ofThrown (.map entries) = ⟨reportedKind (entries.find? "kind"),
      reportedMessage (entries.find? "message"), entries.find? "payload"⟩ := by
  simp only [ofThrown, reportedMessage, Failure.mk.injEq, and_true]
  constructor
  · cases entries.find? "kind" with
    | none => rfl
    | some v => cases v <;> rfl
  · cases entries.find? "message" <;> rfl

theorem sameReport_iff : SameReport as bs ↔ ofThrown (.map as) = ofThrown (.map bs) := by
  rw [ofThrown_map, ofThrown_map, Failure.mk.injEq]
  exact ⟨fun same => ⟨same.kind, same.message, same.payload⟩, fun ⟨kind, message, payload⟩ =>
    ⟨kind, message, payload⟩⟩

/-- Values of one type that are no maps are told apart when they are thrown. -/
theorem eq_of_ofThrown_eq (alike : v.typeName = w.typeName) (same : ofThrown v = ofThrown w) :
    v = w ∨ ∃ as bs, v = .map as ∧ w = .map bs := by
  cases v with
  | map as =>
    cases w with
    | map bs => exact .inr ⟨as, bs, rfl, rfl⟩
    | _ => simp [Value.typeName] at alike
  | str message =>
    cases w with
    | str message' => exact .inl (congrArg Value.str (congrArg Failure.message same))
    | _ => simp [Value.typeName] at alike
  | _ =>
    cases w with
    | str | map => simp [Value.typeName] at alike
    | _ => exact .inl (Option.some.inj (congrArg Failure.payload same))

/-- The exact loss. -/
theorem ofThrown_eq_iff (alike : v.typeName = w.typeName) :
    ofThrown v = ofThrown w ↔ v = w ∨ ∃ as bs, v = .map as ∧ w = .map bs ∧ SameReport as bs := by
  constructor
  · intro same
    rcases eq_of_ofThrown_eq alike same with rfl | ⟨as, bs, rfl, rfl⟩
    · exact .inl rfl
    · exact .inr ⟨as, bs, rfl, rfl, sameReport_iff.2 same⟩
  · rintro (rfl | ⟨as, bs, rfl, rfl, same⟩)
    · rfl
    · exact sameReport_iff.1 same

theorem SameData.sameReport (same : SameData as bs) : SameReport as bs where
  kind := by
    have given : ∀ entry, reportedKind entry = reportedKind (some (entry.getD (.str thrownKind))) := by
      rintro (_ | v) <;> rfl
    rw [given, same.kind, ← given]
  message := same.message
  payload := same.others "payload" (by decide) (by decide)

/-- From maps that are legible nothing is lost. -/
theorem SameReport.sameData (same : SameReport as bs) (first : Legible as) (second : Legible bs) :
    SameData as bs where
  kind := by
    have read : ∀ {entries : Bindings}, Legible entries →
        (entries.find? "kind").getD (.str thrownKind) = .str (reportedKind (entries.find? "kind")) := by
      intro entries legible
      cases found : entries.find? "kind" with
      | none => rfl
      | some v =>
        obtain ⟨kind, rfl⟩ := legible.kind v found
        rfl
    rw [read first, read second, same.kind]
  message := same.message
  others name notKind notMessage := by
    by_cases payload : name = "payload"
    · exact payload ▸ same.payload
    · have other : name ∉ reportNames := by simp [reportNames, notKind, notMessage, payload]
      rw [first.names name other, second.names name other]

end Failure

/-- A filter on names hides the entries that it drops and no others. -/
theorem Entries.find?_filter {α : Type} (entries : Entries α) (keep : String → Bool) (name : String) :
    Entries.find? (entries.filter fun entry => keep entry.1) name =
      if keep name then entries.find? name else none := by
  induction entries with
  | nil => simp
  | cons entry rest ih =>
    obtain ⟨key, a⟩ := entry
    by_cases same : key = name
    · subst same
      cases kept : keep key <;> simp [kept, find?, ih]
    · cases kept : keep key <;> simp [kept, find?, ih, same]

namespace Failure

/-- The entries that are not looked at may as well be missing. -/
theorem sameReport_filter (entries : Bindings) :
    SameReport entries (entries.filter fun entry => reportNames.contains entry.1) := by
  have looked : ∀ name, name ∈ reportNames →
      Entries.find? (entries.filter fun entry => reportNames.contains entry.1) name = entries.find? name := by
    intro name member
    rw [Entries.find?_filter, if_pos (by simpa using member)]
  constructor <;> rw [looked _ (by decide)]

end Failure

/-- The step after a throw. -/
theorem Machine.step_throw {m : Machine σ} (standard : m.table = .standard) (world : World σ) (v : Value)
    (e : ScopeId) (k : Continuation) :
    m.step world (.resume (.value v) (⟨.throw, e, .throw⟩ :: k)) =
      (world, .next (.resume (.thrown (.ofThrown v)) k)) := by
  have resumed : Frame.resume ⟨.throw, e, .throw⟩ (.value v) k =
    .ok fun h => (h, .resume (.thrown (.ofThrown v)) k) := rfl
  exact step_resumed standard (by simp [Signal.isThrown]) resumed

open Failure

/-- What is lost of thrown data, for all pairs of values of one type and wherever they are thrown. Two throws
are one and the same step, so that nothing that follows tells them apart, just if the values are equal or are
maps with the same report: the same kind, where only a text counts as one, the same text of the message, and
the same payload. Maps that have no entries but those three, and no kind but a text, are told apart but for
what a missing kind or message stands for, and for the type of the message. Entries of other names are dropped
from every map. -/
theorem throws_agree_iff {m : Machine σ} (standard : m.table = .standard) {v w : Value}
    (alike : v.typeName = w.typeName) (world : World σ) (e : ScopeId) (k : Continuation) :
    let throws (v : Value) := m.step world (.resume (.value v) (⟨.throw, e, .throw⟩ :: k))
    throws v = (world, .next (.resume (.thrown (.ofThrown v)) k)) ∧
      (throws v = throws w ↔ v = w ∨ ∃ as bs, v = .map as ∧ w = .map bs ∧ SameReport as bs) ∧
      ((∀ as, v = .map as → Legible as) → (∀ bs, w = .map bs → Legible bs) →
        (throws v = throws w ↔ v = w ∨ ∃ as bs, v = .map as ∧ w = .map bs ∧ SameData as bs)) ∧
      ∀ as, v = .map as →
        throws v = throws (.map (as.filter fun entry => reportNames.contains entry.1)) := by
  intro throws
  have step : ∀ v, throws v = (world, .next (.resume (.thrown (.ofThrown v)) k)) := fun v =>
    Machine.step_throw standard world v e k
  have throws_iff : ∀ v w, throws v = throws w ↔ ofThrown v = ofThrown w := by
    intro v w
    rw [step, step]
    simp
  refine ⟨step v, ?exact, fun first second => ?legible, ?dropped⟩
  case exact => rw [throws_iff, ofThrown_eq_iff alike]
  case legible =>
    rw [throws_iff, ofThrown_eq_iff alike]
    refine or_congr_right ⟨?_, ?_⟩
    · rintro ⟨as, bs, rfl, rfl, same⟩
      exact ⟨as, bs, rfl, rfl, same.sameData (first as rfl) (second bs rfl)⟩
    · rintro ⟨as, bs, rfl, rfl, same⟩
      exact ⟨as, bs, rfl, rfl, same.sameReport⟩
  case dropped =>
    rintro as rfl
    rw [throws_iff, ← sameReport_iff]
    exact sameReport_filter as

/-- Two messages that differ in their type only, one of them beside a kind that is written out. -/
theorem message_is_told_by_its_text :
    let m : Machine Unit := Program.machine ⟨#[], 0⟩ fun _ u => (.ok .null, u)
    let as : Bindings := [("message", .int 7)]
    let bs : Bindings := [("kind", .str "Thrown"), ("message", .str "7")]
    let throws (v : Value) := m.step ⟨.empty, ()⟩ (.resume (.value v) [⟨.throw, 0, .throw⟩])
    (Value.map as).typeName = (Value.map bs).typeName ∧ Legible as ∧ Legible bs ∧
      throws (.map as) = throws (.map bs) ∧ SameData as bs := by
  intro m as bs throws
  have first : Legible as := by
    refine ⟨nofun, fun name other => ?_⟩
    simp only [reportNames, List.mem_cons, not_or] at other
    simp [as, Entries.find?, Ne.symm other.2.1]
  have second : Legible bs := by
    refine ⟨fun v found => ⟨"Thrown", (Option.some.inj found).symm⟩, fun name other => ?_⟩
    simp only [reportNames, List.mem_cons, not_or] at other
    simp [bs, Entries.find?, Ne.symm other.1, Ne.symm other.2.1]
  obtain ⟨-, agree, legible, -⟩ :=
    throws_agree_iff (m := m) rfl (v := .map as) (w := .map bs) rfl ⟨.empty, ()⟩ 0 []
  have same : throws (.map as) = throws (.map bs) := agree.2 (.inr ⟨as, bs, rfl, rfl, ⟨rfl, rfl, rfl⟩⟩)
  have legible := legible (fun _ is => Value.map.inj is ▸ first) fun _ is => Value.map.inj is ▸ second
  refine ⟨rfl, first, second, same, ?_⟩
  rcases legible.1 same with equal | ⟨_, _, is, is', data⟩
  · exact absurd equal (by simp [as, bs])
  · exact Value.map.inj is ▸ Value.map.inj is' ▸ data

/-- A thrown map loses the entries that are neither its kind nor its message nor its payload, and a kind that is
no text. A map with a code only is the same failure as an empty one, without a payload; so is a map with a
number for its kind; and beside a kind the code is lost as well. -/
theorem thrown_entries_are_lost :
    let code : Bindings := [("code", .int 7)]
    let numbered : Bindings := [("kind", .int 7)]
    let plain : Bindings := [("kind", .str "Timeout")]
    let coded : Bindings := [("code", .int 7), ("kind", .str "Timeout")]
    (∀ as ∈ [code, numbered], ofThrown (.map as) = ofThrown (.map []) ∧ (ofThrown (.map as)).payload = none ∧
      Value.map as ≠ .map [] ∧ ¬SameData as []) ∧
    ofThrown (.map coded) = ofThrown (.map plain) ∧ Value.map coded ≠ .map plain ∧ ¬SameData coded plain := by
  intro code numbered plain coded
  refine ⟨?_, rfl, by simp [coded, plain], fun data => nomatch data.others "code" (by decide) (by decide)⟩
  rw [List.forall_mem_cons, List.forall_mem_singleton]
  exact ⟨⟨rfl, rfl, by simp [code], fun data => nomatch data.others "code" (by decide) (by decide)⟩,
    rfl, rfl, by simp [numbered], fun data => nomatch data.kind⟩

end FlowScript
