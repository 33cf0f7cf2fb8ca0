/-! Looking up keys in lists of pairs. -/
namespace FlowScript

/-- A filter on keys hides the keys that it drops and no others. -/
theorem lookup_filter_keys [BEq α] [LawfulBEq α] (pairs : List (α × β)) (keep : α → Bool) (key : α) :
    (pairs.filter fun p => keep p.1).lookup key = if keep key then pairs.lookup key else none := by
  induction pairs with
  | nil => simp
  | cons p rest ih =>
    obtain ⟨k, b⟩ := p
    by_cases hk : key = k
    · subst hk
      by_cases h : keep key <;> simp [h, ih]
    · have hb : (key == k) = false := beq_false_of_ne hk
      by_cases h : keep k <;> simp [h, ih, List.lookup_cons, hb]

/-- A pair at the end is found where nothing before it is. -/
theorem lookup_append_pair [BEq α] [LawfulBEq α] [DecidableEq α] (pairs : List (α × β)) (k key : α) (b : β) :
    (pairs ++ [(k, b)]).lookup key = (pairs.lookup key).or (if key = k then some b else none) := by
  induction pairs with
  | nil =>
    by_cases h : key = k
    · subst h; simp
    · simp [List.lookup_cons, beq_false_of_ne h, h]
  | cons p rest ih =>
    obtain ⟨k', b'⟩ := p
    by_cases h : key = k'
    · subst h; simp
    · simp [List.lookup_cons, beq_false_of_ne h, ih]

end FlowScript
