/-! Texts as parts between separators. -/
namespace FlowScript.Text

/-- The parts between the characters that `isSeparator` names: one more than there are of those. -/
def splitChars (isSeparator : Char → Bool) : List Char → List (List Char)
  | [] => [[]]
  | c :: rest =>
    if isSeparator c then [] :: splitChars isSeparator rest
    else
      match splitChars isSeparator rest with
      | [] => [[c]]
      | part :: parts => (c :: part) :: parts

def split (separator : Char) (s : String) : List String :=
  (splitChars (· == separator) s.toList).map String.ofList

/-- The parts with a separator between each two. -/
def join (separator : String) : List String → String
  | [] => ""
  | [part] => part
  | part :: parts => part ++ separator ++ join separator parts

example : split '/' "/a//b" = ["", "a", "", "b"] := by decide +kernel
example : join "/" ["", "a", "", "b"] = "/a//b" := by decide +kernel

theorem splitChars_ne_nil (isSeparator : Char → Bool) (cs : List Char) :
    splitChars isSeparator cs ≠ [] := by
  cases cs with
  | nil => simp [splitChars]
  | cons c rest =>
    simp only [splitChars]
    split
    · simp
    · split <;> simp

end FlowScript.Text
