import FlowScript.Proofs.ScalarText

/-! A printed tree is read back, up to the depth that reading goes to, and no deeper tree is ever read. -/
namespace FlowScript

def Decimal.isFinite (f : Float) : Bool :=
  match datum f with
  | .finite .. => true
  | _ => false

namespace Json

mutual

/-- How many brackets stand around the innermost part of a tree. -/
def nesting : Json → Nat
  | .array items _ => itemsNesting items + 1
  | .object fields _ => fieldsNesting fields + 1
  | _ => 0

def itemsNesting : List Json → Nat
  | [] => 0
  | j :: rest => max (nesting j) (itemsNesting rest)

def fieldsNesting : List (String × Json) → Nat
  | [] => 0
  | (_, j) :: rest => max (nesting j) (fieldsNesting rest)

end

/-- Whether a number is written with digits. -/
def Number.isFinite : Number → Bool
  | .int _ => true
  | .float f => Decimal.isFinite f

mutual

/-- The tree that the text of a tree stands for. -/
def written : Json → Json
  | .number n => if n.isFinite then .number n else .null
  | .array items _ => .array (writtenItems items) none
  | .object fields _ => .object (writtenFields fields) none
  | j => j

def writtenItems : List Json → List Json
  | [] => []
  | j :: rest => written j :: writtenItems rest

def writtenFields : List (String × Json) → List (String × Json)
  | [] => []
  | (key, j) :: rest => (key, written j) :: writtenFields rest

end

mutual

/-- The numbers in a tree. -/
def numbers : Json → List Number
  | .number n => [n]
  | .array items _ => itemsNumbers items
  | .object fields _ => fieldsNumbers fields
  | _ => []

def itemsNumbers : List Json → List Number
  | [] => []
  | j :: rest => numbers j ++ itemsNumbers rest

def fieldsNumbers : List (String × Json) → List Number
  | [] => []
  | (_, j) :: rest => numbers j ++ fieldsNumbers rest

end

/-- A number without digits has no text of its own, any other is read as it is printed. -/
def Number.Legible (n : Number) : Prop := n.isFinite → scanNumber n.print = .read n []

def Legible (j : Json) : Prop := readingFault j = none ∧ ∀ n ∈ numbers j, n.Legible

def LegibleItems (items : List Json) : Prop :=
  itemsFault items = none ∧ ∀ n ∈ itemsNumbers items, n.Legible

def LegibleFields (fields : List (String × Json)) : Prop :=
  fieldsFault fields = none ∧ ∀ n ∈ fieldsNumbers fields, n.Legible

theorem Legible.ofNumber (legible : Legible (.number n)) : n.Legible :=
  legible.2 n (by simp [numbers])

theorem Legible.ofArray (legible : Legible (.array items flaw)) : LegibleItems items :=
  ⟨(Option.or_eq_none_iff.1 legible.1).1, legible.2⟩

theorem Legible.ofObject (legible : Legible (.object fields flaw)) : LegibleFields fields :=
  ⟨(Option.or_eq_none_iff.1 legible.1).1, legible.2⟩

theorem not_legible_flawed : ¬ Legible (.flawed flaw) := by simp [Legible, readingFault]

theorem legibleItems_cons : LegibleItems (j :: items) ↔ Legible j ∧ LegibleItems items := by
  simp only [LegibleItems, itemsFault, itemsNumbers, Option.or_eq_none_iff, List.forall_mem_append]
  exact and_and_and_comm

theorem legibleFields_cons : LegibleFields ((key, j) :: fields) ↔ Legible j ∧ LegibleFields fields := by
  simp only [LegibleFields, fieldsFault, fieldsNumbers, Option.or_eq_none_iff, List.forall_mem_append]
  exact and_and_and_comm

/-! ### Reading what was printed -/

/-- The text of items that follow another one. -/
def moreItems : List Json → List Char
  | [] => []
  | j :: rest => ',' :: (print j ++ moreItems rest)

def moreFields : List (String × Json) → List Char
  | [] => []
  | (key, j) :: rest => ',' :: (quoted key ++ ':' :: (print j ++ moreFields rest))

theorem printItems_cons (j : Json) (rest : List Json) :
    printItems (j :: rest) = print j ++ moreItems rest := by
  induction rest generalizing j with
  | nil => simp [printItems, moreItems]
  | cons j' rest ih => simp [printItems, moreItems, ih]

theorem printFields_cons (key : String) (j : Json) (rest : List (String × Json)) :
    printFields ((key, j) :: rest) = quoted key ++ ':' :: (print j ++ moreFields rest) := by
  induction rest generalizing key j with
  | nil => simp [printFields, moreFields]
  | cons field rest ih =>
    obtain ⟨key', j'⟩ := field
    simp [printFields, moreFields, ih]

theorem delimited_moreItems (items : List Json) (rest : List Char) :
    Delimited (moreItems items ++ ']' :: rest) := by
  cases items <;> simp [Delimited, moreItems]

theorem delimited_moreFields (fields : List (String × Json)) (rest : List Char) :
    Delimited (moreFields fields ++ '\x7d' :: rest) := by
  obtain _ | ⟨⟨key, j⟩, fields⟩ := fields <;> simp [Delimited, moreFields]

theorem scanNumber_head (scanned : scanNumber cs = .read n rest) :
    ∃ c cs', cs = c :: cs' ∧ (c = '-' ∨ c.isDigit) := by
  match cs with
  | [] => simp [scanNumber, scanMagnitude, scanWhole, scanDigits, Scan.fault] at scanned
  | c :: cs =>
    refine ⟨c, cs, rfl, Decidable.byContradiction fun other => ?_⟩
    obtain ⟨minus, digit⟩ := not_or.1 other
    have none : scanDigits (c :: cs) = .fault .malformed := by simp [scanDigits, digit]
    have whole : scanWhole (c :: cs) = .fault .malformed := by
      unfold scanWhole
      rw [none]
      rfl
    unfold scanNumber at scanned
    split at scanned
    · simp_all
    · simp [scanMagnitude, whole, Scan.fault] at scanned

theorem Number.print_of_not_finite {n : Number} (infinite : ¬ n.isFinite) :
    n.print = "null".toList := by
  cases n with
  | int i => simp [isFinite] at infinite
  | float f =>
    unfold isFinite Decimal.isFinite at infinite
    have none : Decimal.Layout.exponential.render? f = none := by
      unfold Decimal.Layout.render?
      split <;> simp_all
    simp [print, none]

theorem isSpace_digit (digit : c.isDigit) : isSpace c = false := by
  have bounds := Char.isDigit_iff_toNat.1 digit
  simp only [isSpace, Bool.or_eq_false_iff, decide_eq_false_iff_not]
  refine ⟨⟨⟨?_, ?_⟩, ?_⟩, ?_⟩ <;> rintro rfl <;> simp at bounds

/-- A printed tree starts with a character that is no blank and closes nothing. -/
theorem print_head (legible : Legible j) :
    ∃ c cs, print j = c :: cs ∧ isSpace c = false ∧ c ≠ ']' := by
  cases j with
  | null => exact ⟨_, _, rfl, by decide, by decide⟩
  | bool b => cases b <;> exact ⟨_, _, rfl, by decide, by decide⟩
  | string s => exact ⟨_, _, rfl, by decide, by decide⟩
  | array items flaw => exact ⟨_, _, rfl, by decide, by decide⟩
  | object fields flaw => exact ⟨_, _, rfl, by decide, by decide⟩
  | flawed flaw => exact absurd legible not_legible_flawed
  | number n =>
    by_cases finite : n.isFinite
    · obtain ⟨c, cs, printed, minus | digit⟩ := scanNumber_head (legible.ofNumber finite)
      · exact ⟨c, cs, printed, by simp [minus, isSpace], by simp [minus]⟩
      · refine ⟨c, cs, printed, isSpace_digit digit, ?_⟩
        rintro rfl
        simp at digit
    · exact ⟨'n', "ull".toList, Number.print_of_not_finite finite, by decide, by decide⟩

theorem readValue_null (fuel depth : Nat) (rest : List Char) :
    readValue (fuel + 1) depth ("null".toList ++ rest) = (.null, some rest) := by
  have word := scanWord_append "ull".toList Json.null rest
  simp_all [readValue, skipSpace, isSpace, Scan.toReading]

theorem readValue_bool (fuel depth : Nat) (b : Bool) (rest : List Char) :
    readValue (fuel + 1) depth (print (.bool b) ++ rest) = (.bool b, some rest) := by
  have yes := scanWord_append "rue".toList true rest
  have no := scanWord_append "alse".toList false rest
  cases b <;> simp_all [readValue, print, skipSpace, isSpace, Scan.toReading]

theorem readValue_number (scanned : scanNumber n.print = .read n []) (delimited : Delimited rest) :
    readValue (fuel + 1) depth (n.print ++ rest) = (.number n, some rest) := by
  have whole := scanNumber_append scanned delimited
  obtain ⟨c, cs, printed, start⟩ := scanNumber_head scanned
  rw [printed] at whole ⊢
  have other : isSpace c = false ∧
      c ≠ '[' ∧ c ≠ '\x7b' ∧ c ≠ '"' ∧ c ≠ 'n' ∧ c ≠ 't' ∧ c ≠ 'f' := by
    rcases start with rfl | digit
    · decide
    · refine ⟨isSpace_digit digit, ?_, ?_, ?_, ?_, ?_, ?_⟩ <;> rintro rfl <;> simp at digit
  have sign : (decide (c = '-') || c.isDigit) = true := by simpa using start
  simp only [List.cons_append] at whole
  simp [readValue, skipSpace, other, sign, whole, Scan.toReading]

theorem readItems_close (fuel depth : Nat) (first : Bool) (before : List Json) (rest : List Char) :
    readItems (fuel + 1) depth first before (']' :: rest) = (.array before.reverse none, some rest) := by
  simp [readItems, skipSpace, isSpace]

theorem readItems_first (legible : Legible j)
    (read : readValue fuel depth (print j ++ cs) = (item, some rest)) :
    readItems (fuel + 1) depth true before (print j ++ cs) =
      readItems fuel depth false (item :: before) rest := by
  obtain ⟨c, cs', printed, space, close⟩ := print_head legible
  rw [printed, List.cons_append] at read ⊢
  simp [readItems, skipSpace, space, close, read]

theorem readItems_comma (read : readValue fuel depth cs = (item, some rest)) :
    readItems (fuel + 1) depth false before (',' :: cs) =
      readItems fuel depth false (item :: before) rest := by
  simp [readItems, skipSpace, isSpace, read]

theorem readFields_close (fuel depth : Nat) (first : Bool) (before : List (String × Json))
    (rest : List Char) : readFields (fuel + 1) depth first before ('\x7d' :: rest) =
      (.object before.reverse none, some rest) := by
  simp [readFields, skipSpace, isSpace]

theorem readFields_first (read : readValue fuel depth cs = (j, some rest)) :
    readFields (fuel + 1) depth true before (quoted key ++ ':' :: cs) =
      readFields fuel depth false ((key, j) :: before) rest := by
  simp [readFields, quoted, skipSpace, isSpace, scanString_quoted, read]

theorem readFields_comma (read : readValue fuel depth cs = (j, some rest)) :
    readFields (fuel + 1) depth false before (',' :: (quoted key ++ ':' :: cs)) =
      readFields fuel depth false ((key, j) :: before) rest := by
  simp [readFields, quoted, skipSpace, isSpace, scanString_quoted, read]

mutual

theorem readValue_print (fuel depth : Nat) (j : Json) (legible : Legible j)
    (shallow : nesting j ≤ depth) (enough : (print j).length ≤ fuel) (delimited : Delimited rest) :
    readValue fuel depth (print j ++ rest) = (written j, some rest) := by
  obtain ⟨c, cs, printed, -⟩ := print_head legible
  obtain _ | fuel := fuel
  · simp [printed] at enough
  match j with
  | .null => exact readValue_null fuel depth rest
  | .bool b => exact readValue_bool fuel depth b rest
  | .string s =>
    simp [readValue, print, quoted, written, skipSpace, isSpace, scanString_quoted, Scan.toReading]
  | .flawed flaw => exact absurd legible not_legible_flawed
  | .number n =>
    unfold written print
    split
    · next finite => exact readValue_number (legible.ofNumber finite) delimited
    · next infinite =>
      rw [Number.print_of_not_finite infinite]
      exact readValue_null fuel depth rest
  | .array items flaw =>
    obtain _ | depth := depth
    · simp [nesting] at shallow
    have inner : readItems fuel depth true [] (printItems items ++ ']' :: rest) =
        (.array (writtenItems items) none, some rest) := by
      obtain _ | fuel := fuel
      · simp [print] at enough
      match items with
      | [] => exact readItems_close ..
      | j :: items =>
        obtain ⟨first, later⟩ := legibleItems_cons.1 legible.ofArray
        rw [print, printItems_cons] at enough
        simp only [List.length_cons, List.length_append, List.length_nil] at enough
        simp only [nesting, itemsNesting] at shallow
        obtain ⟨c, cs, item, -⟩ := print_head first
        have size : (print j).length = cs.length + 1 := by simp [item]
        have read := readValue_print fuel depth j first (by omega) (by omega)
          (delimited_moreItems items rest)
        rw [printItems_cons, List.append_assoc, readItems_first first read,
          readItems_more items later (by omega) (by omega)]
        rfl
    simp [readValue, print, written, skipSpace, isSpace, inner]
  | .object fields flaw =>
    obtain _ | depth := depth
    · simp [nesting] at shallow
    have inner : readFields fuel depth true [] (printFields fields ++ '\x7d' :: rest) =
        (.object (writtenFields fields) none, some rest) := by
      obtain _ | fuel := fuel
      · simp [print] at enough
      match fields with
      | [] => exact readFields_close ..
      | (key, j) :: fields =>
        obtain ⟨first, later⟩ := legibleFields_cons.1 legible.ofObject
        rw [print, printFields_cons] at enough
        simp only [List.length_cons, List.length_append, List.length_nil] at enough
        simp only [nesting, fieldsNesting] at shallow
        have read := readValue_print fuel depth j first (by omega) (by omega)
          (delimited_moreFields fields rest)
        rw [printFields_cons, List.append_assoc, List.cons_append, List.append_assoc,
          readFields_first read, readFields_more fields later (by omega) (by omega)]
        rfl
    simp [readValue, print, written, skipSpace, isSpace, inner]

theorem readItems_more (items : List Json) (legible : LegibleItems items)
    (shallow : itemsNesting items ≤ depth) (enough : (moreItems items).length < fuel) :
    readItems fuel depth false before (moreItems items ++ ']' :: rest) =
      (.array (before.reverse ++ writtenItems items) none, some rest) := by
  obtain _ | fuel := fuel
  · simp at enough
  match items with
  | [] => simp [moreItems, writtenItems, readItems_close]
  | j :: items =>
    obtain ⟨first, later⟩ := legibleItems_cons.1 legible
    simp only [moreItems, List.length_cons, List.length_append] at enough
    simp only [itemsNesting] at shallow
    have read := readValue_print fuel depth j first (by omega) (by omega)
      (delimited_moreItems items rest)
    rw [moreItems, List.cons_append, List.append_assoc, readItems_comma read,
      readItems_more items later (by omega) (by omega)]
    simp [writtenItems]

theorem readFields_more (fields : List (String × Json)) (legible : LegibleFields fields)
    (shallow : fieldsNesting fields ≤ depth) (enough : (moreFields fields).length < fuel) :
    readFields fuel depth false before (moreFields fields ++ '\x7d' :: rest) =
      (.object (before.reverse ++ writtenFields fields) none, some rest) := by
  obtain _ | fuel := fuel
  · simp at enough
  match fields with
  | [] => simp [moreFields, writtenFields, readFields_close]
  | (key, j) :: fields =>
    obtain ⟨first, later⟩ := legibleFields_cons.1 legible
    simp only [moreFields, List.length_cons, List.length_append] at enough
    simp only [fieldsNesting] at shallow
    have read := readValue_print fuel depth j first (by omega) (by omega)
      (delimited_moreFields fields rest)
    rw [moreFields, List.cons_append, List.append_assoc, List.cons_append, List.append_assoc,
      readFields_comma read, readFields_more fields later (by omega) (by omega)]
    simp [writtenFields]

end

/-! ### What all trees that are read have in common -/

theorem itemsNesting_le_iff : itemsNesting items ≤ d ↔ ∀ j ∈ items, nesting j ≤ d := by
  induction items with
  | nil => simp [itemsNesting]
  | cons j rest ih => rw [itemsNesting, Nat.max_le, ih, List.forall_mem_cons]

theorem fieldsNesting_le_iff : fieldsNesting fields ≤ d ↔ ∀ f ∈ fields, nesting f.2 ≤ d := by
  induction fields with
  | nil => simp [fieldsNesting]
  | cons f rest ih => rw [fieldsNesting, Nat.max_le, ih, List.forall_mem_cons]

theorem scanWord_read (scanned : scanWord word a cs = .read b rest) : b = a := by
  change scanWord.go a word cs = _ at scanned
  induction word generalizing cs with
  | nil =>
    simp only [scanWord.go, Scan.read.injEq] at scanned
    exact scanned.1.symm
  | cons w ws ih =>
    cases cs with
    | nil => simp [scanWord.go, Scan.fault] at scanned
    | cons c cs =>
      simp only [scanWord.go] at scanned
      split at scanned
      · exact ih scanned
      · simp [Scan.fault] at scanned

/-- A property of trees and of how many brackets may still be opened, which all that is read in one piece has
and which goes from the parts of a tree to the tree. -/
structure ReadInvariant (P : Nat → Json → Prop) : Prop where
  flawed : ∀ depth flaw, P depth (.flawed flaw)
  null : ∀ depth, P depth .null
  bool : ∀ depth b, P depth (.bool b)
  number : ∀ depth cs n rest, scanNumber cs = .read n rest → P depth (.number n)
  string : ∀ depth s, P depth (.string s)
  array : ∀ depth items flaw, (∀ j ∈ items, P depth j) → P (depth + 1) (.array items flaw)
  object : ∀ depth fields flaw, (∀ f ∈ fields, P depth f.2) → P (depth + 1) (.object fields flaw)

namespace ReadInvariant
variable {P : Nat → Json → Prop}

theorem toReading (invariant : ReadInvariant P) {scan : Scan α}
    (each : ∀ a rest, scan = .read a rest → P depth (wrap a)) : P depth (scan.toReading wrap).1 := by
  cases scan with
  | read a rest => exact each a rest rfl
  | unreadable | broken => exact invariant.flawed _ _

/-- Whatever is read has the property. -/
theorem readValue (invariant : ReadInvariant P) (fuel : Nat) :
    (∀ depth cs, P depth (readValue fuel depth cs).1) ∧
    (∀ depth first before cs, (∀ j ∈ before, P depth j) →
      P (depth + 1) (readItems fuel depth first before cs).1) ∧
    (∀ depth first before cs, (∀ f ∈ before, P depth f.2) →
      P (depth + 1) (readFields fuel depth first before cs).1) := by
  have items : ∀ {before : List Json} {depth} flaw, (∀ j ∈ before, P depth j) →
      P (depth + 1) (.array before.reverse flaw) := fun flaw parts =>
    invariant.array _ _ _ fun j member => parts j (List.mem_reverse.1 member)
  have fields : ∀ {before : List (String × Json)} {depth} flaw, (∀ f ∈ before, P depth f.2) →
      P (depth + 1) (.object before.reverse flaw) := fun flaw parts =>
    invariant.object _ _ _ fun f member => parts f (List.mem_reverse.1 member)
  induction fuel with
  | zero =>
    refine ⟨fun depth cs => invariant.flawed _ _, fun depth first before cs parts => ?_,
      fun depth first before cs parts => ?_⟩
    · exact items _ parts
    · exact fields _ parts
  | succ fuel ih =>
    obtain ⟨value, moreItems, moreFields⟩ := ih
    refine ⟨fun depth cs => ?_, fun depth first before cs parts => ?_,
      fun depth first before cs parts => ?_⟩
    · unfold Json.readValue
      split
      · exact invariant.flawed _ _
      split
      · cases depth with
        | zero => exact invariant.flawed _ _
        | succ depth => exact moreItems depth true [] _ (by simp)
      split
      · cases depth with
        | zero => exact invariant.flawed _ _
        | succ depth => exact moreFields depth true [] _ (by simp)
      split
      · exact invariant.toReading fun s _ _ => invariant.string _ s
      split
      · refine invariant.toReading fun _ _ scanned => ?_
        rw [scanWord_read scanned]
        exact invariant.null _
      iterate 2
        split
        · exact invariant.toReading fun b _ _ => invariant.bool _ b
      split
      · exact invariant.toReading fun n rest scanned => invariant.number _ _ n rest scanned
      · exact invariant.flawed _ _
    · have longer : ∀ j, P depth j → ∀ i ∈ j :: before, P depth i :=
        fun j here => List.forall_mem_cons.2 ⟨here, parts⟩
      unfold readItems
      grind
    · have longer : ∀ key j, P depth j → ∀ f ∈ (key, j) :: before, P depth f.2 :=
        fun key j here => List.forall_mem_cons.2 ⟨here, parts⟩
      have inner : ∀ {cs j rest}, Json.readValue fuel depth cs = (j, rest) → P depth j :=
        fun {cs j rest} read => by simpa [read] using value depth cs
      unfold readFields
      repeat' split
      all_goals try exact fields _ parts
      · next read =>
        exact moreFields depth false _ _ (longer _ _ (inner read))
      · next read => exact fields none (longer _ _ (inner read))

theorem read (invariant : ReadInvariant P) (s : String) : P maxDepth (Json.read s).1 :=
  (invariant.readValue _).1 _ _

end ReadInvariant

/-- No tree is read that is deeper than reading may go. -/
theorem nesting_invariant : ReadInvariant fun depth j => nesting j ≤ depth where
  flawed _ _ := Nat.zero_le _
  null _ := Nat.zero_le _
  bool _ _ := Nat.zero_le _
  number _ _ _ _ _ := Nat.zero_le _
  string _ _ := Nat.zero_le _
  array _ _ _ parts := Nat.succ_le_succ (itemsNesting_le_iff.2 parts)
  object _ _ _ parts := Nat.succ_le_succ (fieldsNesting_le_iff.2 parts)

/-! ### Whole texts -/

/-- The text of a tree that is not too deep decodes as the tree it stands for. -/
theorem decodeText_text (decode : Decoder α) (legible : Legible j) (shallow : nesting j ≤ maxDepth) :
    decodeText decode j.text = decode (written j) := by
  have whole : read j.text = (written j, some []) := by
    have ended : Delimited [] := by simp [Delimited]
    have tree := readValue_print (2 * (print j).length + 2) maxDepth j legible shallow (by omega) ended
    simpa [read, text] using tree
  simp only [decodeText, whole]
  cases decode (written j) <;> rfl

/-- What is decoded from a text is decoded from the tree at its start. -/
theorem decode_read {decode : Decoder α} (decoded : decodeText decode s = .ok a) :
    decode (read s).1 = .ok a := by
  unfold decodeText at decoded
  cases given : decode (read s).1 with
  | error problem => simp [given, bind, Except.bind] at decoded
  | ok a' =>
    simp only [given, bind, Except.bind] at decoded
    split at decoded
    · exact decoded
    · cases decoded

end Json
end FlowScript
