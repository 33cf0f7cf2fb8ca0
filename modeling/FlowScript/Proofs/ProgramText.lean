import FlowScript.Proofs.DecodedData

/-! Programs are read back from their text. -/
namespace FlowScript

namespace Block

/-- The ids in the block are words of the machine, and its constant is in order. -/
def Encodable : Block → Prop
  | .constant v => v.Ordered
  | .readVariable _ => True
  | .declare _ init => ∀ b ∈ init, b < UInt32.size
  | .assign _ value => value < UInt32.size
  | .logical _ lhs rhs | .binary _ lhs rhs => lhs < UInt32.size ∧ rhs < UInt32.size
  | .not operand => operand < UInt32.size
  | .ifElse cond thenBranch elseBranch =>
    (cond < UInt32.size ∧ thenBranch < UInt32.size) ∧ ∀ b ∈ elseBranch, b < UInt32.size
  | .whileLoop cond body => cond < UInt32.size ∧ body < UInt32.size
  | .sequence body => ∀ b ∈ body, b < UInt32.size
  | .scope body => body < UInt32.size
  | .property receiver _ _ => receiver < UInt32.size
  | .setProperty _ _ value _ => value < UInt32.size
  | .call receiver _ args => (∀ b ∈ receiver, b < UInt32.size) ∧ ∀ b ∈ args, b < UInt32.size
  | .throw value => value < UInt32.size
  | .tryCatch body clauses cleanup =>
    (body < UInt32.size ∧ ∀ c ∈ clauses, c.body < UInt32.size) ∧ ∀ b ∈ cleanup, b < UInt32.size
  | .yield request => request < UInt32.size

theorem toJson_plain {b : Block} (encodable : b.Encodable) : b.toJson.Plain := by
  cases b <;> simp_all [Encodable, toJson, tagged, Block.idJson_plain, Value.toJson_plain,
    CatchClause.toJson_plain]

theorem reread_of {b : Block} (plain : b.toJson.Plain) (encoded : b.toJson = tagged t fields)
    (others : ∀ f ∈ fields, f.1 ≠ "block")
    (gives : (ofFields t (fields.map fun f => (f.1, f.2.written))).Gives fine b)
    (condition : b.toJson.Finite ↔ fine) : Json.Rereads ofJson toJson b :=
  .tagged encoded (Tag.ofName?_name t) others plain gives condition

theorem rereads {b : Block} (encodable : b.Encodable) : Json.Rereads ofJson toJson b := by
  have plain := toJson_plain encodable
  have string := Json.Rereads.string
  have bool := Json.Rereads.bool
  cases b with
  | constant v =>
    have value := Value.rereads .buffer v encodable
    refine reread_of plain rfl (by simp) ((value.required ?_).map constant) ?_
    all_goals simp [Json.placesOf, toJson, tagged]
  | readVariable name =>
    refine reread_of plain rfl (by simp) (((string name).required ?_).map readVariable) ?_
    all_goals simp [Json.placesOf, toJson, tagged]
  | declare name init =>
    have init' := Captured.id_reread encodable
    refine reread_of plain rfl (by simp)
      ((((string name).required ?_).map declare).seq (init'.optionalField ?_)) ?_
    all_goals simp [Json.placesOf, toJson, tagged]
  | assign name value =>
    have value' := asId_rereads encodable
    refine reread_of plain rfl (by simp)
      ((((string name).required ?_).map assign).seq (value'.required ?_)) ?_
    all_goals simp [Json.placesOf, toJson, tagged]
  | logical op lhs rhs =>
    have op' : Json.Rereads (Json.asName .buffer LogicalOp.ofName?) (fun op => .string op.name) op :=
      .ofName (by cases op <;> decide)
    have lhs' := asId_rereads encodable.1
    have rhs' := asId_rereads encodable.2
    refine reread_of plain rfl (by simp)
      (((op'.required ?_).map logical).seq (lhs'.required ?_) |>.seq (rhs'.required ?_)) ?_
    all_goals simp [Json.placesOf, toJson, tagged]
  | not operand =>
    have operand' := asId_rereads encodable
    refine reread_of plain rfl (by simp) ((operand'.required ?_).map not) ?_
    all_goals simp [Json.placesOf, toJson, tagged]
  | binary op lhs rhs =>
    have op' : Json.Rereads (Json.asName .buffer BinaryOp.ofName?) (fun op => .string op.name) op :=
      .ofName (BinaryOp.ofName?_name op)
    have lhs' := asId_rereads encodable.1
    have rhs' := asId_rereads encodable.2
    refine reread_of plain rfl (by simp)
      (((op'.required ?_).map binary).seq (lhs'.required ?_) |>.seq (rhs'.required ?_)) ?_
    all_goals simp [Json.placesOf, toJson, tagged]
  | ifElse cond thenBranch elseBranch =>
    have cond' := asId_rereads encodable.1.1
    have then' := asId_rereads encodable.1.2
    have else' := Captured.id_reread encodable.2
    refine reread_of plain rfl (by simp)
      (((cond'.required ?_).map ifElse).seq (then'.required ?_) |>.seq (else'.optionalField ?_)) ?_
    all_goals simp [Json.placesOf, toJson, tagged]
  | whileLoop cond body =>
    have cond' := asId_rereads encodable.1
    have body' := asId_rereads encodable.2
    refine reread_of plain rfl (by simp) (((cond'.required ?_).map whileLoop).seq (body'.required ?_)) ?_
    all_goals simp [Json.placesOf, toJson, tagged]
  | sequence body =>
    have body' := Captured.ids_reread encodable
    refine reread_of plain rfl (by simp) ((body'.required ?_).map sequence) ?_
    all_goals simp [Json.placesOf, toJson, tagged]
  | scope body =>
    have body' := asId_rereads encodable
    refine reread_of plain rfl (by simp) ((body'.required ?_).map scope) ?_
    all_goals simp [Json.placesOf, toJson, tagged]
  | property receiver name isAttribute =>
    have receiver' := asId_rereads encodable
    refine reread_of plain rfl (by simp)
      (((receiver'.required ?_).map property).seq ((string name).required ?_) |>.seq
        ((bool isAttribute).defaulted false ?_)) ?_
    all_goals simp [Json.placesOf, toJson, tagged]
  | setProperty target name value isAttribute =>
    have value' := asId_rereads encodable
    refine reread_of plain rfl (by simp)
      ((((string target).required ?_).map setProperty).seq ((string name).required ?_) |>.seq
        (value'.required ?_) |>.seq ((bool isAttribute).defaulted false ?_)) ?_
    all_goals simp [Json.placesOf, toJson, tagged]
  | call receiver method args =>
    have receiver' := Captured.id_reread encodable.1
    have args' := Captured.ids_reread encodable.2
    refine reread_of plain rfl (by simp)
      (((receiver'.optionalField ?_).map call).seq ((string method).required ?_) |>.seq
        (args'.defaulted [] ?_)) ?_
    all_goals simp [Json.placesOf, toJson, tagged]
  | throw value =>
    have value' := asId_rereads encodable
    refine reread_of plain rfl (by simp) ((value'.required ?_).map throw) ?_
    all_goals simp [Json.placesOf, toJson, tagged]
  | tryCatch body clauses cleanup =>
    have body' := asId_rereads encodable.1.1
    have clauses' := Json.Rereads.list fun c member => CatchClause.rereads (encodable.1.2 c member)
    have cleanup' := Captured.id_reread encodable.2
    refine reread_of plain rfl (by simp)
      (((body'.required ?_).map tryCatch).seq (clauses'.defaulted [] ?_) |>.seq
        (cleanup'.optionalField ?_)) ?_
    all_goals simp [Json.placesOf, toJson, tagged]
  | yield request =>
    have request' := asId_rereads encodable
    refine reread_of plain rfl (by simp) ((request'.required ?_).map yield) ?_
    all_goals simp [Json.placesOf, toJson, tagged]

theorem decodes_ofJson : Json.Decodes ofJson fun b => b.Encodable ∧ b.toJson.Finite := by
  refine .tagged fun t fields b finite asked => ?_
  have id : ∀ {key b}, Json.required fields key asId = .got b → b < UInt32.size :=
    decodes_asId.required finite
  have id? : ∀ {key o}, Json.optionalField fields key asId = .got o → ∀ b ∈ o, b < UInt32.size :=
    decodes_asId.optionalField finite
  cases t <;> simp only [ofFields, Json.Asked.seq_eq_got, Json.Asked.map_eq_got] at asked
  case constant =>
    obtain ⟨v, asked, rfl⟩ := asked
    have value := Value.decodes_ofJson.required finite asked
    exact ⟨value.ordered, by simp [toJson, tagged, value.finite]⟩
  case readVariable =>
    obtain ⟨name, -, rfl⟩ := asked
    exact ⟨trivial, by simp [toJson, tagged]⟩
  case declare =>
    obtain ⟨_, init, ⟨name, -, rfl⟩, asked, rfl⟩ := asked
    exact ⟨id? asked, by simp [toJson, tagged]⟩
  case assign =>
    obtain ⟨_, value, ⟨name, -, rfl⟩, asked, rfl⟩ := asked
    exact ⟨id asked, by simp [toJson, tagged]⟩
  case logical | binary =>
    obtain ⟨_, rhs, ⟨_, lhs, ⟨op, -, rfl⟩, asked, rfl⟩, asked', rfl⟩ := asked
    exact ⟨⟨id asked, id asked'⟩, by simp [toJson, tagged]⟩
  case not | scope | throw | yield =>
    obtain ⟨b, asked, rfl⟩ := asked
    exact ⟨id asked, by simp [toJson, tagged]⟩
  case ifElse =>
    obtain ⟨_, elseBranch, ⟨_, thenBranch, ⟨cond, asked, rfl⟩, asked', rfl⟩, asked'', rfl⟩ := asked
    exact ⟨⟨⟨id asked, id asked'⟩, id? asked''⟩, by simp [toJson, tagged]⟩
  case whileLoop =>
    obtain ⟨_, body, ⟨cond, asked, rfl⟩, asked', rfl⟩ := asked
    exact ⟨⟨id asked, id asked'⟩, by simp [toJson, tagged]⟩
  case sequence =>
    obtain ⟨body, asked, rfl⟩ := asked
    exact ⟨decodes_asId.list.required finite asked, by simp [toJson, tagged]⟩
  case property =>
    obtain ⟨_, isAttribute, ⟨_, name, ⟨receiver, asked, rfl⟩, -, rfl⟩, -, rfl⟩ := asked
    exact ⟨id asked, by simp [toJson, tagged]⟩
  case setProperty =>
    obtain ⟨_, isAttribute, ⟨_, value, ⟨_, name, ⟨target, -, rfl⟩, -, rfl⟩, asked, rfl⟩, -, rfl⟩ := asked
    exact ⟨id asked, by simp [toJson, tagged]⟩
  case call =>
    obtain ⟨_, args, ⟨_, method, ⟨receiver, asked, rfl⟩, -, rfl⟩, asked', rfl⟩ := asked
    have args' := decodes_asId.list.defaulted finite (List.forall_mem_nil _) asked'
    exact ⟨⟨id? asked, args'⟩, by simp [toJson, tagged]⟩
  case tryCatch =>
    obtain ⟨_, cleanup, ⟨_, clauses, ⟨body, asked, rfl⟩, asked', rfl⟩, asked'', rfl⟩ := asked
    have clauses' := CatchClause.decodes_ofJson.list.defaulted finite (List.forall_mem_nil _) asked'
    exact ⟨⟨⟨id asked, clauses'⟩, id? asked''⟩, by simp [toJson, tagged, CatchClause.finite_toJson]⟩

/-- Only a constant can nest deeply. -/
theorem nesting_le_iff (b : Block) :
    b.toJson.nesting ≤ d + 3 ↔ ∀ v, b = .constant v → v.toJson.nesting ≤ d + 2 := by
  cases b <;>
    simp [toJson, tagged, Json.nesting_record_le, Json.nesting_list_le, Json.nesting_optional_le,
      Json.nesting_int_le, Json.nesting_string_le, Json.nesting_bool_le, idJson, CatchClause.nesting_le]

/-- A block that is written in full, its defaults included, nests no deeper than what it was decoded from,
unless that is flat. -/
theorem nesting_ofJson (decoded : ofJson j = .ok b) (shallow : j.nesting ≤ d + 3) :
    b.toJson.nesting ≤ d + 3 := by
  rw [nesting_le_iff]
  rintro v rfl
  obtain ⟨t, fields, held, asked⟩ := Json.asTagged_eq_ok.1 decoded
  cases t <;> simp [ofFields] at asked
  -- The value is one of the fields, so it is no deeper than the block that it was read from.
  have deep := Value.ofJson_bounds.required asked
  have outer := held.shallow
  omega

end Block

namespace Program

/-- The ids in the program are words of the machine, and its constants are in order. -/
structure Encodable (p : Program) : Prop where
  root : p.root < UInt32.size
  blocks : ∀ b ∈ p.blocks.toList, b.Encodable

theorem toJson_plain {p : Program} (encodable : p.Encodable) : p.toJson.Plain := by
  have blocks : ∀ b ∈ p.blocks.toList, b.toJson.Plain :=
    fun b member => Block.toJson_plain (encodable.blocks b member)
  have root := Block.idJson_plain encodable.root
  simpa [toJson, root] using blocks

theorem rereads {p : Program} (encodable : p.Encodable) : Json.Rereads ofJson toJson p := by
  have blocks := Json.Rereads.list fun b member => Block.rereads (encodable.blocks b member)
  have root := Block.asId_rereads encodable.root
  refine .record (by simp) rfl
    (((blocks.required ?_).map fun blocks root => Program.mk blocks.toArray root).seq (root.required ?_)) ?_
  all_goals simp [Json.placesOf, toJson]

theorem decodes_ofJson : Json.Decodes ofJson fun p => p.Encodable ∧ p.toJson.Finite := by
  refine .record fun fields p finite asked => ?_
  simp only [Json.Asked.seq_eq_got, Json.Asked.map_eq_got] at asked
  obtain ⟨_, root, ⟨blocks, asked, rfl⟩, asked', rfl⟩ := asked
  have blocks' := Block.decodes_ofJson.list.required finite asked
  refine ⟨⟨Block.decodes_asId.required finite asked', fun b member => (blocks' b member).1⟩, ?_⟩
  have finite : ∀ b ∈ blocks, b.toJson.Finite := fun b member => (blocks' b member).2
  simpa [toJson] using finite

/-- A program that is written in full nests no deeper than what it was decoded from, unless that is flat. -/
theorem nesting_ofJson (decoded : ofJson j = .ok p) (shallow : j.nesting ≤ d + 5) :
    p.toJson.nesting ≤ d + 5 := by
  obtain ⟨fields, held, asked⟩ := Json.asRecord_eq_ok.1 decoded
  simp only [Json.Asked.seq_eq_got, Json.Asked.map_eq_got] at asked
  obtain ⟨_, root, ⟨blocks, asked, rfl⟩, -, rfl⟩ := asked
  obtain ⟨place, j, found, listed⟩ := Json.required_eq_got.1 asked
  obtain ⟨js, rfl, each⟩ := Json.mem_of_asList listed
  have outer := Json.nesting_le_of_mem (Json.mem_of_placesOf (found ▸ List.mem_singleton.2 rfl))
  have inner : ∀ i ∈ js, i.nesting ≤ d + 3 := by
    refine Json.itemsNesting_le_iff.1 ?_
    have outermost := held.shallow
    simp only [Json.nesting] at outer
    omega
  have deep : ∀ b ∈ blocks, b.toJson.nesting ≤ d + 3 := by
    intro b member
    obtain ⟨i, inside, given⟩ := each b member
    exact Block.nesting_ofJson given (inner i inside)
  simpa [toJson, Json.nesting_record_le, Json.nesting_list_le, Block.idJson, Json.nesting_int_le] using deep

theorem compile_eq_ok :
    compile t = .ok p ↔ Json.decodeText ofJson t = .ok p ∧ p.validate = .ok () := by
  unfold compile
  cases Json.decodeText ofJson t with
  | error problem => simp
  | ok q =>
    simp only [Except.ok.injEq]
    cases valid : q.validate with
    | error e =>
      simp only [reduceCtorEq, false_iff, not_and]
      rintro rfl
      simp [valid]
    | ok =>
      simp only [Except.ok.injEq]
      exact ⟨by rintro rfl; exact ⟨rfl, valid⟩, And.left⟩

theorem compile_again (compiled : compile t = .ok p)
    (floats : ∀ f, .float f ∈ p.toJson.numbers → Json.Number.Legible (.float f)) :
    compile p.toJson.text = .ok p := by
  obtain ⟨decoded, valid⟩ := compile_eq_ok.1 compiled
  have read := Json.decode_read decoded
  obtain ⟨encodable, finite⟩ := decodes_ofJson _ p (Json.finite_invariant.read t) read
  have shallow := nesting_ofJson read (Json.nesting_invariant.read t)
  -- What has been read is in order, finite and shallow enough, which is what reading it again needs.
  have again := (rereads encodable).decodeText_text (toJson_plain encodable) floats shallow p
  exact compile_eq_ok.2 ⟨again.2 ⟨finite, rfl⟩, valid⟩

end Program

theorem Snapshot.ofText_again (decoded : ofText t = .ok s)
    (floats : ∀ f, .float f ∈ s.toJson.numbers → Json.Number.Legible (.float f)) :
    ofText s.text = .ok s := by
  obtain ⟨encodable, finite⟩ := decodes_ofJson _ s (Json.finite_invariant.read t) (Json.decode_read decoded)
  have again := (rereads encodable).decodeText_text (toJson_plain encodable) floats
    (nesting_of_ofText decoded) s
  exact again.2 ⟨finite, rfl⟩

/-! Data that is accepted, but is not what is written: fields stand in another order or, without their keys, in
arrays, one is not known, a key of a map is given twice, a float is given as an integer, an operator as an object,
and fields are left out. A null receiver is not an absent one. -/
namespace Untidy

def null : Json := .record [("type", .string "null")]

def float (content : Json) : Json := .record [("value", content), ("type", .string "float")]

def half : Json := .number (.float 1.5)

def program : Json :=
  .record [("more", .null), ("root", .int 1), ("blocks", .list [
    .record [("value", .record [("value", .record [("b", float (.int 1)), ("a", null), ("b", float half)]),
      ("type", .string "map")]), ("block", .string "constant")],
    .record [("method", .string "m"), ("block", .string "call")],
    .list [.string "constant", .list [.string "list", .list [.list [.string "null", .null]]]],
    .list [.string "if", .int 0, .int 1],
    .record [("op", .record [("add", .record [])]), ("rhs", .int 1), ("lhs", .int 0),
      ("block", .string "binary")]])]

def programRead : Program :=
  ⟨#[.constant (.map [("a", .null), ("b", .float 1.5)]), .call none "m" [], .constant (.list [.null]),
    .ifElse 0 1 none, .binary .add 0 1], 1⟩

def snapshot : Json :=
  .record [("frames", .list [.record [("captured", .record [("receiver", null), ("evaluated", .list []),
      ("args", .list []), ("method", .string "m"), ("kind", .string "call")]),
      ("method", .string "m"), ("group", .string "g"), ("scope", .int 1)],
      .list [.string "g", .string "m", .int 1,
        .list [.string "call", .string "m", .list [], .null, .list []]]]),
    ("scopes", .list [.record [("bindings", .record [])]]), ("request", float half)]

def snapshotRead : Snapshot :=
  ⟨.float 1.5, [⟨none, []⟩],
    [⟨"g", "m", 1, .call "m" [] (some .null) []⟩, ⟨"g", "m", 1, .call "m" [] none []⟩]⟩

/-- Whether the number is an integer or the one float of the texts. -/
def isKnown : Json.Number → Bool
  | .int _ => true
  | .float f => decide (f = 1.5)

theorem legible_of_known {j : Json} (known : j.numbers.all isKnown = true) (f : Float)
    (member : .float f ∈ j.numbers) : Json.Number.Legible (.float f) := by
  obtain rfl : f = 1.5 := of_decide_eq_true (List.all_eq_true.1 known _ member)
  exact fun _ => rfl

theorem inRange_zero : Json.Number.InRange 0 := ⟨by decide, by decide⟩

theorem inRange_one : Json.Number.InRange 1 := ⟨by decide, by decide⟩

theorem compile_program : Program.compile program.text = .ok programRead := by
  have plain : program.Plain := by simp [program, float, null, half, inRange_zero, inRange_one]
  have legible := plain.legible (legible_of_known (by decide +kernel))
  rw [Program.compile_eq_ok, Json.decodeText_text _ legible (by decide +kernel)]
  exact ⟨rfl, rfl⟩

theorem ofText_snapshot : Snapshot.ofText snapshot.text = .ok snapshotRead := by
  have plain : snapshot.Plain := by simp [snapshot, float, null, half, inRange_one]
  have legible := plain.legible (legible_of_known (by decide +kernel))
  rw [Snapshot.ofText, Json.decodeText_text _ legible (by decide +kernel)]
  rfl

end Untidy

end FlowScript
