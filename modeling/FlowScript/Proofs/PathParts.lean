import FlowScript.Path
import Mathlib.Data.List.Basic

/-! The parts of paths. What is behind a path has its parts and then parts of its own, and what is above it
has the first ones of them; an empty part at the end says nothing. -/
namespace FlowScript

namespace Text

variable {isSeparator : Char → Bool} {separator : Char}

theorem splitChars_append (a b : List Char) (separates : isSeparator c = true) :
    splitChars isSeparator (a ++ c :: b) = splitChars isSeparator a ++ splitChars isSeparator b := by
  induction a with
  | nil => simp [splitChars, separates]
  | cons x a ih =>
    simp only [List.cons_append, splitChars, ih]
    split
    · rfl
    · cases parts : splitChars isSeparator a with
      | nil => exact absurd parts (splitChars_ne_nil _ a)
      | cons part parts => rfl

theorem splitChars_of_none (none : ∀ c ∈ cs, isSeparator c = false) : splitChars isSeparator cs = [cs] := by
  induction cs with
  | nil => rfl
  | cons c cs ih =>
    obtain ⟨first, others⟩ := List.forall_mem_cons.1 none
    simp [splitChars, first, ih others]

theorem of_mem_splitChars (member : part ∈ splitChars isSeparator cs) (inside : c ∈ part) :
    c ∈ cs ∧ isSeparator c = false := by
  induction cs generalizing part with
  | nil =>
    obtain rfl := List.mem_singleton.1 member
    exact nomatch inside
  | cons x cs ih =>
    simp only [splitChars] at member
    split at member
    · rcases List.mem_cons.1 member with rfl | member
      · exact nomatch inside
      · exact (ih member inside).imp_left (List.mem_cons_of_mem x)
    · next plain =>
      cases parts : splitChars isSeparator cs with
      | nil => exact absurd parts (splitChars_ne_nil _ cs)
      | cons first parts' =>
        rw [parts] at member ih
        rcases List.mem_cons.1 member with rfl | member
        · rcases List.mem_cons.1 inside with rfl | inside
          · exact ⟨List.mem_cons_self, by simpa using plain⟩
          · exact (ih List.mem_cons_self inside).imp_left (List.mem_cons_of_mem x)
        · exact (ih (List.mem_cons_of_mem first member) inside).imp_left (List.mem_cons_of_mem x)

theorem split_ne_nil (separator : Char) (s : String) : split separator s ≠ [] := by
  simp [split, splitChars_ne_nil]

theorem of_mem_split (member : part ∈ split separator s) (inside : c ∈ part.toList) :
    c ∈ s.toList ∧ c ≠ separator := by
  obtain ⟨cs, split, rfl⟩ := List.mem_map.1 member
  obtain ⟨there, plain⟩ := of_mem_splitChars split (by simpa using inside)
  exact ⟨there, by simpa using plain⟩

/-- Each part of a text is without the separator. -/
theorem separator_not_mem (member : part ∈ split separator s) : separator ∉ part.toList :=
  fun inside => (of_mem_split member inside).2 rfl

theorem split_of_not_mem (none : separator ∉ s.toList) : split separator s = [s] := by
  have plain : ∀ c ∈ s.toList, (c == separator) = false :=
    fun c inside => beq_false_of_ne (by rintro rfl; exact none inside)
  simp [split, splitChars_of_none plain]

theorem split_slash_append (a b : String) : split '/' (a ++ "/" ++ b) = split '/' a ++ split '/' b := by
  have slash : ("/" : String).toList = ['/'] := rfl
  simp only [split, String.toList_append, slash, List.append_assoc, List.singleton_append]
  have parts : splitChars (· == '/') (a.toList ++ '/' :: b.toList) =
      splitChars (· == '/') a.toList ++ splitChars (· == '/') b.toList := splitChars_append _ _ rfl
  rw [parts, List.map_append]

theorem join_cons (part : String) (parts : List String) (more : parts ≠ []) :
    join "/" (part :: parts) = part ++ "/" ++ join "/" parts := by
  cases parts with
  | nil => exact absurd rfl more
  | cons => rfl

theorem join_append {a b : List String} (first : a ≠ []) (second : b ≠ []) :
    join "/" (a ++ b) = join "/" a ++ "/" ++ join "/" b := by
  induction a with
  | nil => exact absurd rfl first
  | cons part a ih =>
    cases a with
    | nil => exact join_cons part b second
    | cons next a =>
      rw [List.cons_append, join_cons part _ (by simp), ih (by simp), join_cons part _ (by simp)]
      simp only [String.append_assoc]

theorem split_join {parts : List String} (some : parts ≠ []) (plain : ∀ part ∈ parts, '/' ∉ part.toList) :
    split '/' (join "/" parts) = parts := by
  induction parts with
  | nil => exact absurd rfl some
  | cons part parts ih =>
    obtain ⟨first, others⟩ := List.forall_mem_cons.1 plain
    cases parts with
    | nil => exact split_of_not_mem first
    | cons next parts =>
      rw [join_cons part _ (by simp), split_slash_append, split_of_not_mem first, ih (by simp) others,
        List.singleton_append]

theorem of_mem_join {parts : List String} (inside : c ∈ (join "/" parts).toList) (plain : c ≠ '/') :
    ∃ part ∈ parts, c ∈ part.toList := by
  induction parts with
  | nil => simp [join] at inside
  | cons part parts ih =>
    cases parts with
    | nil => exact ⟨part, by simp, inside⟩
    | cons next parts =>
      rw [join_cons part _ (List.cons_ne_nil _ _)] at inside
      simp only [String.toList_append, List.mem_append] at inside
      rcases inside with (first | slash) | others
      · exact ⟨part, by simp, first⟩
      · exact absurd (List.mem_singleton.1 slash) plain
      · obtain ⟨part', member, inside⟩ := ih others
        exact ⟨part', List.mem_cons_of_mem _ member, inside⟩

theorem join_append_cons (a part : String) (parts : List String) :
    join "/" ((a ++ part) :: parts) = a ++ join "/" (part :: parts) := by
  cases parts with
  | nil => rfl
  | cons next parts =>
    rw [join_cons (a ++ part) _ (List.cons_ne_nil _ _), join_cons part _ (List.cons_ne_nil _ _)]
    simp only [String.append_assoc]

theorem join_split (s : String) : join "/" (split '/' s) = s := by
  have chars : ∀ cs : List Char,
      join "/" ((splitChars (· == '/') cs).map String.ofList) = String.ofList cs := by
    intro cs
    induction cs with
    | nil => rfl
    | cons c cs ih =>
      have cons : ∀ cs, String.ofList (c :: cs) = String.singleton c ++ String.ofList cs := by
        intro cs
        apply String.toList_injective
        simp
      simp only [splitChars]
      split
      · next slash =>
        obtain rfl : c = '/' := by simpa using slash
        rw [List.map_cons, join_cons _ _ (by simp [splitChars_ne_nil]), ih, cons]
        apply String.toList_injective
        simp
      · cases parts : splitChars (· == '/') cs with
        | nil => exact absurd parts (splitChars_ne_nil _ cs)
        | cons part parts' =>
          rw [parts, List.map_cons] at ih
          rw [cons cs, ← ih, List.map_cons, cons part, join_append_cons]
  rw [split, chars, String.ofList_toList]

end Text

namespace Path
variable {p q : Path}

/-- The parts of what is behind a path begin with these. -/
def trunk (p : Path) : List String :=
  if p.text.isEmpty || p.text.toList.getLast? == some '/' then p.parts.dropLast else p.parts

theorem parts_eq_trunk (p : Path) : p.parts = p.trunk ∨ p.parts = p.trunk ++ [""] := by
  unfold trunk
  split
  · next ends =>
    refine .inr ?_
    rcases List.eq_nil_or_concat p.text.toList with empty | ⟨cs, c, last⟩
    · obtain ⟨text⟩ := p
      obtain rfl : text = "" := String.toList_injective (by simpa using empty)
      rfl
    · obtain rfl : c = '/' := by
        have some : p.text ≠ "" := by
          rintro none
          simp [none] at last
        simpa [last, some] using ends
      have text : p.text = String.ofList cs ++ "/" ++ "" := by
        apply String.toList_injective
        simp [last]
      rw [parts, text, Text.split_slash_append]
      exact (List.dropLast_append_getLast? _ (by simp [Text.split, Text.splitChars])).symm
  · exact .inl rfl

theorem isAbsolute_append (text more : String) (some : text.isEmpty = false) :
    Path.isAbsolute ⟨text ++ more⟩ = Path.isAbsolute ⟨text⟩ := by
  cases chars : text.toList with
  | nil =>
    obtain rfl : text = "" := String.toList_injective (by simpa using chars)
    exact nomatch some
  | cons c cs => simp [isAbsolute, chars]

theorem isAbsolute_join (relative : q.isAbsolute = false) : (p.join q).isAbsolute = p.isAbsolute := by
  unfold join
  cases empty : p.text.isEmpty with
  | true =>
    obtain ⟨text⟩ := p
    obtain rfl : text = "" := by simpa using empty
    simpa [isAbsolute] using relative
  | false =>
    simp only [relative, Bool.or_false, Bool.false_eq_true, if_false]
    split
    · exact isAbsolute_append _ _ empty
    · rw [String.append_assoc]
      exact isAbsolute_append _ _ empty

theorem parts_join (relative : q.isAbsolute = false) : (p.join q).parts = p.trunk ++ q.parts := by
  unfold join trunk
  cases empty : p.text.isEmpty with
  | true =>
    obtain ⟨text⟩ := p
    obtain rfl : text = "" := by simpa using empty
    simp [relative, parts, Text.split, Text.splitChars]
  | false =>
    simp only [relative, Bool.false_or, Bool.false_eq_true, if_false]
    split
    · next ends =>
      obtain ⟨cs, last⟩ := List.getLast?_eq_some_iff.1 (by simpa using ends)
      have text : p.text = String.ofList cs ++ "/" := by
        apply String.toList_injective
        simp [last]
      have whole : p.parts = Text.split '/' (String.ofList cs) ++ [""] := by
        have := Text.split_slash_append (String.ofList cs) ""
        rwa [String.append_empty, ← text] at this
      rw [whole, List.dropLast_concat, parts, parts]
      simp only [text, Text.split_slash_append]
    · simp only [parts, Text.split_slash_append]

/-- A path without a slash at its end is its own trunk. -/
theorem trunk_eq (last : p.parts.getLast? ≠ some "") : p.trunk = p.parts := by
  rcases p.parts_eq_trunk with same | blank
  · exact same.symm
  · simp [blank] at last

theorem last_ne_slash (last : p.parts.getLast? ≠ some "") : p.text.toList.getLast? ≠ some '/' := by
  intro ends
  obtain ⟨cs, chars⟩ := List.getLast?_eq_some_iff.1 ends
  have text : p.text = String.ofList cs ++ "/" ++ "" := by
    apply String.toList_injective
    simp [chars]
  rw [parts, text, Text.split_slash_append] at last
  simp [Text.split, Text.splitChars] at last

/-- But for slashes, what is written behind a path adds its own characters and no others. -/
theorem mem_text_join (relative : q.isAbsolute = false) (plain : c ≠ '/') :
    c ∈ (p.join q).text.toList ↔ c ∈ p.text.toList ∨ c ∈ q.text.toList := by
  unfold join
  cases empty : p.text.isEmpty with
  | true =>
    obtain ⟨text⟩ := p
    obtain rfl : text = "" := by simpa using empty
    simp
  | false =>
    simp only [relative, Bool.false_or, Bool.false_eq_true, if_false]
    split
    · simp
    · simp [plain]

/-- A path of several parts is absolute if there is nothing before the first slash. -/
theorem isAbsolute_iff (parts : p.parts = first :: rest) (more : rest ≠ []) :
    p.isAbsolute = true ↔ first = "" := by
  obtain ⟨text⟩ := p
  cases chars : text.toList with
  | nil => simp_all [Path.parts, Text.split, Text.splitChars]
  | cons c cs =>
    simp only [Path.parts, Text.split, Text.splitChars, chars] at parts
    simp only [isAbsolute, chars, List.head?_cons, beq_iff_eq, Option.some.injEq]
    split at parts
    · next slash =>
      obtain ⟨rfl, -⟩ := List.cons.inj parts
      simpa using slash
    · next plain =>
      have plain : c ≠ '/' := by simpa using plain
      split at parts
      · next none => exact absurd none (Text.splitChars_ne_nil _ _)
      · obtain ⟨rfl, -⟩ := List.cons.inj parts
        simp [plain]

/-- What is above a path is the empty path, or has the first parts of it. -/
theorem parent?_parts (above : p.parent? = some q) :
    q.text = "" ∨ q.isAbsolute = p.isAbsolute ∧
      ∃ front, front <+: p.parts ∧ (q.parts = front ∨ q.parts = front ++ [""]) := by
  unfold parent? at above
  have plain : ∀ part ∈ p.parts, '/' ∉ part.toList := fun _ => Text.separator_not_mem
  cases parts : p.parts with
  | nil => simp [parts] at above
  | cons first rest =>
    rw [parts] at plain
    obtain ⟨plainFirst, plainRest⟩ := List.forall_mem_cons.1 plain
    simp only [parts] at above
    split at above
    · next last before behind =>
      -- The last part that says something goes, and what says nothing at the end of the others.
      refine .inr ?_
      have suffix : last :: before <:+ rest.reverse := behind ▸ List.dropWhile_suffix _
      have before_front : before.reverse <+: rest :=
        List.IsPrefix.trans (by simp) (List.reverse_reverse rest ▸ List.reverse_prefix.2 suffix)
      have more : rest ≠ [] := by
        rintro rfl
        simp at suffix
      have absolute := isAbsolute_iff parts more
      obtain rfl := Option.some.inj above
      simp only [ofParts]
      split
      · cases empty : first.isEmpty with
        | true =>
          obtain rfl : first = "" := by simpa using empty
          exact ⟨(absolute.2 rfl).symm, [""], by simp, .inr rfl⟩
        | false =>
          have some : first ≠ "" := by
            rintro rfl
            simp at empty
          refine ⟨?_, [first], by simp, .inl (Text.split_of_not_mem plainFirst)⟩
          rw [Bool.eq_false_iff.2 fun is => some (absolute.1 is)]
          cases chars : first.toList with
          | nil => simp [isAbsolute, chars]
          | cons c cs =>
            have : c ≠ '/' := by
              rintro rfl
              simp [chars] at plainFirst
            simp [isAbsolute, chars, this]
      · next shown =>
        have shown_front :
          (before.dropWhile fun part => (Component.ofPart? part).isNone).reverse <+: rest :=
          (List.reverse_prefix.2 (List.dropWhile_suffix _)).trans before_front
        have front : Text.split '/' (Text.join "/" (first ::
            (before.dropWhile fun part => (Component.ofPart? part).isNone).reverse)) = _ :=
          Text.split_join (List.cons_ne_nil _ _)
            (List.forall_mem_cons.2
              ⟨plainFirst, fun part member => plainRest part (shown_front.subset member)⟩)
        refine ⟨?_, _, ?_, .inl front⟩
        · exact Bool.eq_iff_iff.2 ((isAbsolute_iff front (by simpa using shown)).trans absolute.symm)
        · exact List.cons_prefix_cons.2 ⟨rfl, shown_front⟩
    · cases empty : first.isEmpty with
      | true => simp [empty] at above
      | false =>
        rw [empty] at above
        obtain rfl := Option.some.inj above
        exact .inl rfl

end Path
end FlowScript
