import FlowScript.CodeSource
import Mathlib.Data.List.Sort
import Mathlib.Data.List.TakeWhile

/-! What the grants of a policy come to. A grant is a text, and a call is held against three texts: `*`, its
signature, and the wildcard of its receiver type. Receiver types have no dot, so the first dot of a text tells
the type from the member, whatever the member is. A policy is its name with the set of its grants. -/
namespace FlowScript

/-! ### Signatures -/

/-- A text has one part before its first dot, and one behind it. -/
theorem dotted_inj {a b x y : String} (plain : '.' ∉ a.toList) (plain' : '.' ∉ b.toList) :
    a ++ "." ++ x = b ++ "." ++ y ↔ a = b ∧ x = y := by
  refine ⟨fun same => ?_, fun ⟨front, back⟩ => by rw [front, back]⟩
  have texts : a.toList ++ '.' :: x.toList = b.toList ++ '.' :: y.toList := by
    simpa using congrArg String.toList same
  have before : ∀ s t : List Char, '.' ∉ s → (s ++ '.' :: t).takeWhile (· != '.') = s := by
    intro s t plain
    rw [List.takeWhile_append_of_pos fun c member => by simpa using ne_of_mem_of_not_mem member plain]
    simp
  have front : a.toList = b.toList := by
    rw [← before _ x.toList plain, texts, before _ y.toList plain']
  rw [front, List.append_cancel_left_eq] at texts
  exact ⟨String.toList_injective front, String.toList_injective (List.cons.inj texts).2⟩

namespace Invocation

theorem dot_notMem_receiverType (call : Invocation) : '.' ∉ call.receiverType.toList := by
  have types : ∀ v : Value, '.' ∉ v.typeName.toList := by
    intro v
    cases v <;> simp [Value.typeName]
  cases call with
  | methodCall receiver method args =>
    cases receiver with
    | null => simp [receiverType, scriptType]
    | bool | int | float | str | list | map => exact types _
  | getProperty receiver | setProperty receiver | getAttribute receiver | setAttribute receiver =>
    exact types receiver

end Invocation

/-! ### Entries in order -/

namespace Entries.Sorted
variable {entries other : Entries α}

theorem mem_iff (sorted : entries.Sorted) : (name, a) ∈ entries ↔ entries.find? name = some a := by
  induction entries with
  | nil => simp
  | cons entry rest ih =>
    obtain ⟨key, b⟩ := entry
    obtain ⟨above, tail⟩ := List.pairwise_cons.1 sorted
    rw [List.mem_cons, ih tail, find?]
    by_cases here : key = name
    · subst here
      have once : Entries.find? rest key ≠ some a := fun found =>
        String.lt_irrefl key (above (key, a) ((ih tail).2 found))
      simp [once, eq_comm]
    · simp [here, Ne.symm here]

/-- Entries in order are told by what they have for each name. -/
theorem eq_of_find? (sorted : entries.Sorted) (sorted' : other.Sorted)
    (same : ∀ name, entries.find? name = other.find? name) : entries = other := by
  have irrefl : Std.Irrefl fun a b : String × α => a.1 < b.1 := ⟨fun a => String.lt_irrefl a.1⟩
  have antisymm : Std.Antisymm fun a b : String × α => a.1 < b.1 :=
    ⟨fun a b lt gt => absurd (String.lt_trans lt gt) (String.lt_irrefl a.1)⟩
  exact List.Pairwise.eq_of_mem_iff sorted sorted' fun ⟨name, a⟩ => by
    rw [sorted.mem_iff, sorted'.mem_iff, same]

end Entries.Sorted

/-! ### Grants -/

namespace Policy
variable {name name' : String} {grants grants' : List String}

theorem allows_allow (p : Policy) (signature text : String) :
    (p.allow signature).allows text = true ↔ p.allows text = true ∨ text = signature := by
  simp only [allows, allow, Entries.binds, Entries.find?_insert]
  by_cases here : signature = text
  · simp [here]
  · simp [here, Ne.symm here]

theorem allows_allowAll (p : Policy) (grants : List String) (text : String) :
    (p.allowAll grants).allows text = true ↔ p.allows text = true ∨ text ∈ grants := by
  induction grants generalizing p with
  | nil => simp [allowAll]
  | cons signature grants ih =>
    have first : p.allowAll (signature :: grants) = (p.allow signature).allowAll grants := rfl
    rw [first, ih, allows_allow, List.mem_cons, or_assoc]

theorem name_allowAll (p : Policy) (grants : List String) : (p.allowAll grants).name = p.name := by
  induction grants generalizing p with
  | nil => rfl
  | cons signature grants ih => exact ih (p.allow signature)

theorem sorted_allowAll {p : Policy} (sorted : p.allowed.Sorted) (grants : List String) :
    (p.allowAll grants).allowed.Sorted := by
  induction grants generalizing p with
  | nil => exact sorted
  | cons signature grants ih => exact ih (Entries.sorted_insert sorted signature ())

/-- Policies in order are told by their names and by what they allow. -/
theorem eq_of_allows {p q : Policy} (sorted : p.allowed.Sorted) (sorted' : q.allowed.Sorted)
    (names : p.name = q.name) (texts : ∀ text, p.allows text = true ↔ q.allows text = true) : p = q := by
  obtain ⟨name, allowed⟩ := p
  obtain ⟨name', allowed'⟩ := q
  obtain rfl : name = name' := names
  congr 1
  refine sorted.eq_of_find? sorted' fun text => ?_
  have both : (allowed.find? text).isSome = (allowed'.find? text).isSome := Bool.eq_iff_iff.2 (texts text)
  -- An entry of a policy holds nothing, so it is there or it is not.
  cases here : allowed.find? text <;> cases there : allowed'.find? text <;> simp_all

theorem allows_granted (name : String) (grants : List String) (text : String) :
    ((strict name).allowAll grants).allows text = true ↔ text ∈ grants := by
  rw [allows_allowAll]
  exact or_iff_right nofun

/-- A policy is its name with the set of its grants. -/
theorem granted_eq_iff :
    (strict name).allowAll grants = (strict name').allowAll grants' ↔
      name = name' ∧ ∀ text, text ∈ grants ↔ text ∈ grants' := by
  constructor
  · intro same
    refine ⟨?_, fun text => ?_⟩
    · exact (name_allowAll (strict name) grants).symm.trans (same ▸ name_allowAll (strict name') grants')
    · rw [← allows_granted name grants, same, allows_granted]
  · rintro ⟨rfl, texts⟩
    refine eq_of_allows (sorted_allowAll Entries.sorted_nil grants)
      (sorted_allowAll Entries.sorted_nil grants') ?_ fun text => ?_
    · rw [name_allowAll, name_allowAll]
    · rw [allows_granted, allows_granted, texts]

theorem permits_granted (name : String) (grants : List String) (call : Invocation) :
    ((strict name).allowAll grants).permits call = true ↔
      any ∈ grants ∨ call.signature ∈ grants ∨ call.receiverType ++ "." ++ any ∈ grants := by
  simp only [permits, Bool.or_eq_true, allows_granted, or_assoc]

/-- Grants take nothing away. -/
theorem permits_allowAll {p : Policy} (permitted : p.permits call = true) (grants : List String) :
    (p.allowAll grants).permits call = true := by
  induction grants generalizing p with
  | nil => exact permitted
  | cons signature grants ih =>
    have first : (p.allow signature).permits call = true := by
      rw [permits_allow, permitted, Bool.true_or, Bool.true_or, Bool.true_or]
    exact ih first

/-- A grant for a type lets through no call on another one. -/
theorem permits_allow_of_ne {type : String} (plain : '.' ∉ type.toList) (apart : type ≠ call.receiverType)
    (p : Policy) (member : String) : (p.allow (type ++ "." ++ member)).permits call = p.permits call := by
  have not_any : type ++ "." ++ member ≠ any := by
    intro same
    have dotted : '.' ∈ (type ++ "." ++ member).toList := by simp
    rw [same] at dotted
    exact absurd dotted (by decide)
  have elsewhere : ∀ text, type ++ "." ++ member ≠ call.receiverType ++ "." ++ text := fun _ same =>
    apart ((dotted_inj plain call.dot_notMem_receiverType).1 same).1
  have not_signature : type ++ "." ++ member ≠ call.signature := elsewhere call.member
  rw [permits_allow, beq_false_of_ne not_any, beq_false_of_ne not_signature, beq_false_of_ne (elsewhere any)]
  simp only [Bool.or_false]

end Policy

/-- Grants are exact and only add. A policy permits the calls that one of its grants names, and no other. One
more grant lets through what was permitted, and further all calls if it is `*`, those on its type if it is a
wildcard, and those of its signature; members may have dots and stars in them, or be empty. So no grant is ever
revoked, a grant for one receiver type lets through no call on another, and a signature has one receiver type
and one member. The order of the grants and their repetition change nothing: what is permitted, whether two
policies are equal and whether they give equal keys to the cache is decided by the sets of the grants. -/
theorem grants_are_exact (name : String) (grants : List String) :
    let p := (Policy.strict name).allowAll grants
    (∀ call, p.permits call = true ↔
      Policy.any ∈ grants ∨ call.signature ∈ grants ∨ call.receiverType ++ "." ++ Policy.any ∈ grants) ∧
    (∀ signature call, (p.allow signature).permits call = true ↔
      p.permits call = true ∨ signature = Policy.any ∨
        signature = call.receiverType ++ "." ++ Policy.any ∨
        signature = call.receiverType ++ "." ++ call.member) ∧
    (∀ further call, p.permits call = true → (p.allowAll further).permits call = true) ∧
    (∀ name' grants', let q := (Policy.strict name').allowAll grants'
      ((∀ text, text ∈ grants ↔ text ∈ grants') → ∀ call, p.permits call = q.permits call) ∧
      (p = q ↔ name = name' ∧ ∀ text, text ∈ grants ↔ text ∈ grants') ∧
      ∀ source, CacheKey.mk p source = CacheKey.mk q source ↔
        name = name' ∧ ∀ text, text ∈ grants ↔ text ∈ grants') ∧
    (∀ (other call : Invocation) (member : String), other.receiverType ≠ call.receiverType →
      (p.allow (other.receiverType ++ "." ++ member)).permits call = p.permits call) ∧
    ∀ call call' : Invocation, call.signature = call'.signature ↔
      call.receiverType = call'.receiverType ∧ call.member = call'.member := by
  intro p
  refine ⟨Policy.permits_granted name grants, ?further, ?kept, ?sets, ?apart, ?signatures⟩
  case further =>
    intro signature call
    simp only [Policy.permits_allow, Bool.or_eq_true, beq_iff_eq, or_assoc]
    exact or_congr_right (or_congr_right or_comm)
  case kept =>
    exact fun further call permitted => Policy.permits_allowAll permitted further
  case sets =>
    intro name' grants' q
    refine ⟨fun texts call => ?_, Policy.granted_eq_iff, fun source => ?_⟩
    · rw [Bool.eq_iff_iff, Policy.permits_granted, Policy.permits_granted, texts, texts, texts]
    · rw [CacheKey.mk.injEq, Policy.granted_eq_iff]
      exact and_iff_left rfl
  case apart =>
    intro other call member apart
    exact Policy.permits_allow_of_ne other.dot_notMem_receiverType apart p member
  case signatures =>
    exact fun call call' => dotted_inj call.dot_notMem_receiverType call'.dot_notMem_receiverType

/-- A grant that looks like a wildcard for members is the grant of one member. What is missing is not made up
for by the same member of another type, and granting what is granted changes neither policy nor key. -/
theorem starred_member_is_one_member :
    let p := (Policy.strict "maps").allowAll ["Map.a.*", "List.size"]
    let call (member : String) : Invocation := .getProperty (.map []) member
    p.permits (call "a.*") = true ∧ p.permits (call "a.b") = false ∧
      (p.allow "List.a.b").permits (call "a.b") = false ∧ (p.allow "Map.*").permits (call "a.b") = true ∧
      ∀ source, CacheKey.mk p source =
        CacheKey.mk ((Policy.strict "maps").allowAll ["List.size", "Map.a.*", "List.size"]) source := by
  intro p call
  obtain ⟨permits, further, -, sets, apart, -⟩ := grants_are_exact "maps" ["Map.a.*", "List.size"]
  have refused : p.permits (call "a.b") = false := Bool.eq_false_iff.2 fun permitted =>
    absurd ((permits (call "a.b")).1 permitted) (by decide +kernel)
  refine ⟨(permits (call "a.*")).2 (by decide +kernel), refused, ?_, ?_, fun source => ?_⟩
  · exact (apart (.getProperty (.list []) "a.b") (call "a.b") "a.b" (by decide)).trans refused
  · exact (further "Map.*" (call "a.b")).2 (.inr (.inr (.inl rfl)))
  · exact ((sets "maps" ["List.size", "Map.a.*", "List.size"]).2.2 source).2 ⟨rfl, fun text => by simp; tauto⟩

end FlowScript
