/-! Named entries in the order of their names: a name has at most one entry, and names are ordered by
code point. Every operation is given with what it does to `find?`, the view of the entries. -/
namespace FlowScript

abbrev Entries (α : Type u) := List (String × α)

namespace Entries
variable {α : Type u} {β : Type v}

/-- The entry of a name. -/
def find? : Entries α → String → Option α
  | [], _ => none
  | (key, a) :: rest, name => if key = name then some a else find? rest name

def binds (entries : Entries α) (name : String) : Bool := (entries.find? name).isSome

/-- Sets the entry of a name, at its place in the order. -/
def insert : Entries α → String → α → Entries α
  | [], name, a => [(name, a)]
  | (key, b) :: rest, name, a =>
    if key = name then (name, a) :: rest
    else if name < key then (name, a) :: (key, b) :: rest
    else (key, b) :: insert rest name a

/-- The pairs in order of their names; of a name that occurs twice the last pair counts. -/
def ofPairs (pairs : List (String × α)) : Entries α :=
  pairs.foldl (fun entries (name, a) => insert entries name a) []

def names (entries : Entries α) : List String := entries.map Prod.fst

/-- Counts one more under a name; what has no entry was counted zero times. -/
def increment (entries : Entries Nat) (name : String) : Entries Nat :=
  entries.insert name ((entries.find? name).getD 0 + 1)

/-- The names stand in strictly increasing order. -/
def Sorted (entries : Entries α) : Prop := entries.Pairwise fun a b => a.1 < b.1

@[simp] theorem find?_nil (name : String) : find? ([] : Entries α) name = none := rfl

@[simp] theorem find?_insert (entries : Entries α) (name other : String) (a : α) :
    (entries.insert name a).find? other = if name = other then some a else entries.find? other := by
  induction entries with
  | nil => simp [insert, find?]
  | cons entry rest ih =>
    obtain ⟨key, b⟩ := entry
    simp only [insert]
    split
    · next h => subst h; simp only [find?]; split <;> simp_all
    · next h =>
      split
      · simp [find?]
      · simp only [find?, ih]
        by_cases hk : key = other
        · subst hk; simp [Ne.symm h]
        · simp [hk]

theorem mem_of_mem_insert {entries : Entries α} {name : String} {a : α} {e : String × α}
    (h : e ∈ entries.insert name a) : e = (name, a) ∨ e ∈ entries := by
  induction entries with
  | nil => simpa [insert] using h
  | cons entry rest ih =>
    obtain ⟨key, b⟩ := entry
    simp only [insert] at h
    split at h
    · simp only [List.mem_cons] at h ⊢; grind
    · split at h
      · simp only [List.mem_cons] at h ⊢; grind
      · simp only [List.mem_cons] at h ⊢; grind

theorem mem_of_mem_ofPairs {pairs : List (String × α)} (member : e ∈ ofPairs pairs) : e ∈ pairs := by
  suffices held : ∀ start : Entries α,
      e ∈ pairs.foldl (fun entries pair => insert entries pair.1 pair.2) start →
        e ∈ start ∨ e ∈ pairs by
    simpa using held [] member
  clear member
  induction pairs with
  | nil => exact fun start member => .inl member
  | cons pair rest ih =>
    intro start member
    rcases ih _ member with placed | later
    · rcases mem_of_mem_insert placed with rfl | before
      · exact .inr (.head _)
      · exact .inl before
    · exact .inr (.tail _ later)

theorem sorted_nil : Sorted ([] : Entries α) := List.Pairwise.nil

theorem sorted_insert {entries : Entries α} (h : entries.Sorted) (name : String) (a : α) :
    (entries.insert name a).Sorted := by
  induction entries with
  | nil => simp [insert, Sorted]
  | cons entry rest ih =>
    obtain ⟨key, b⟩ := entry
    have hr := List.pairwise_cons.1 h
    simp only [insert]
    split
    · next hk => subst hk; exact List.pairwise_cons.2 ⟨hr.1, hr.2⟩
    · next hk =>
      split
      · next hlt =>
        refine List.pairwise_cons.2 ⟨?_, h⟩
        intro e he
        rcases List.mem_cons.1 he with rfl | he
        · exact hlt
        · exact String.lt_trans hlt (hr.1 e he)
      · next hlt =>
        refine List.pairwise_cons.2 ⟨?_, ih hr.2⟩
        intro e he
        rcases mem_of_mem_insert he with rfl | he
        · simp only
          rcases String.le_total key name with hle | hle
          · by_cases hlt' : key < name
            · exact hlt'
            · exact absurd (String.le_antisymm hle hlt') hk
          · exact absurd (String.le_antisymm hlt hle) hk
        · exact hr.1 e he

theorem sorted_ofPairs (pairs : List (String × α)) : (ofPairs pairs).Sorted := by
  suffices ∀ start : Entries α, Sorted start →
      Sorted (pairs.foldl (fun entries (name, a) => insert entries name a) start) from
    this [] sorted_nil
  induction pairs with
  | nil => exact fun _ h => h
  | cons p rest ih => exact fun start h => ih _ (sorted_insert h p.1 p.2)

end Entries
end FlowScript
