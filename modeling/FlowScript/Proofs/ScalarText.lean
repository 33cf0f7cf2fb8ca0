import FlowScript.Json.Decoder
import FlowScript.Json.Printer
import Mathlib.Data.List.TakeWhile

/-! The smallest parts of a printed text are read back: words, strings, and whole numbers. -/
namespace FlowScript.Json

/-! ### Words -/

theorem scanWord_append (word : List Char) (a : α) (rest : List Char) :
    scanWord word a (word ++ rest) = .read a rest := by
  show scanWord.go a word (word ++ rest) = _
  induction word with
  | nil => rfl
  | cons w ws ih => simpa [scanWord.go] using ih

/-! ### Strings -/

theorem hexValue?_hexDigit : ∀ n < 16, hexValue? (hexDigit n) = some n := by decide

theorem hexUnit?_hexDigits {n : Nat} (small : n < 32) :
    hexUnit? '0' '0' (hexDigit (n / 16)) (hexDigit (n % 16)) = some n := by
  have zero : hexValue? '0' = some 0 := by decide
  have high := hexValue?_hexDigit (n / 16) (by omega)
  have low := hexValue?_hexDigit (n % 16) (by omega)
  simp only [hexUnit?, zero, high, low, bind, Option.bind, pure]
  congr 1
  omega

/-- Four digits that name a character by themselves. -/
theorem scanString_unit {n : Nat} (unit : hexUnit? a b c d = some n) (small : n < 32)
    (before rest : List Char) :
    scanString before ('\\' :: 'u' :: a :: b :: c :: d :: rest) =
      scanString (Char.ofNat n :: before) rest := by
  have notLow : isLowSurrogate n = false := by simp [isLowSurrogate]; omega
  have notHigh : isHighSurrogate n = false := by simp [isHighSurrogate]; omega
  rw [scanString.eq_def]
  split <;> grind

theorem scanString_escape (c : Char) (before rest : List Char) :
    scanString before (escape c ++ rest) = scanString (c :: before) rest := by
  unfold escape
  iterate 5
    split
    · subst c
      simp [scanString, unescape?]
  split
  · next backspace =>
    obtain rfl : c = '\x08' := Char.ext (UInt32.toNat_inj.1 backspace)
    simp [scanString, unescape?]
  split
  · next feed =>
    obtain rfl : c = '\x0c' := Char.ext (UInt32.toNat_inj.1 feed)
    simp [scanString, unescape?]
  split
  · next control =>
    simp [scanString_unit (hexUnit?_hexDigits control) control, Char.ofNat_toNat]
  · rw [List.singleton_append, scanString.eq_def]
    split <;> grind

theorem scanString_escapes (cs before rest : List Char) :
    scanString before (cs.flatMap escape ++ '"' :: rest) =
      .read (String.ofList (before.reverse ++ cs)) rest := by
  induction cs generalizing before with
  | nil => simp [scanString]
  | cons c cs ih =>
    rw [List.flatMap_cons, List.append_assoc, scanString_escape, ih]
    simp

theorem scanString_quoted (s : String) (rest : List Char) :
    scanString [] (s.toList.flatMap escape ++ '"' :: rest) = .read s rest := by
  simp [scanString_escapes]

/-! ### Whole numbers -/

theorem digitsValue_toDigits (n : Nat) : digitsValue (Nat.toDigits 10 n) = n :=
  have folded : Nat.ofDigitChars 10 (Nat.toDigits 10 n) 0 = digitsValue (Nat.toDigits 10 n) :=
    Nat.ofDigitChars_eq_foldl
  folded.symm.trans (Nat.ofDigitChars_toDigits (by decide) (by decide))

/-- No zero stands before another digit. -/
theorem toDigits_ne (n : Nat) (c : Char) (cs : List Char) : Nat.toDigits 10 n ≠ '0' :: c :: cs := by
  induction n using Nat.strongRecOn generalizing c cs with
  | _ n ih =>
    rw [Nat.toDigits_eq_if (by decide)]
    split
    · simp
    · next large =>
      intro same
      match whole : Nat.toDigits 10 (n / 10) with
      | [] => exact Nat.toDigits_ne_nil whole
      | [z] =>
        have value := digitsValue_toDigits (n / 10)
        obtain rfl : z = '0' := by simp_all
        rw [whole] at value
        simp [digitsValue, digitValue] at value
        omega
      | z :: c' :: cs' =>
        obtain rfl : z = '0' := by simp_all
        exact ih (n / 10) (by omega) c' cs' whole

/-- What may follow a number. -/
def Delimited (rest : List Char) : Prop :=
  ∀ c ∈ rest.head?, c.isDigit = false ∧ c ≠ '.' ∧ c ≠ 'e' ∧ c ≠ 'E'

theorem Delimited.digits (delimited : Delimited rest) :
    rest.takeWhile Char.isDigit = [] ∧ rest.dropWhile Char.isDigit = rest := by
  cases rest with
  | nil => simp
  | cons c rest => simp [(delimited c rfl).1]

theorem scanDigits_eq_read_iff : scanDigits cs = .read ds after ↔
    ds ≠ [] ∧ cs.takeWhile Char.isDigit = ds ∧ cs.dropWhile Char.isDigit = after := by
  unfold scanDigits
  cases cs.takeWhile Char.isDigit with
  | nil => cases cs <;> simp [Scan.fault] <;> grind
  | cons d ds' => simp; grind

theorem scanDigits_append (scanned : scanDigits cs = .read ds after) (delimited : Delimited rest) :
    scanDigits (cs ++ rest) = .read ds (after ++ rest) := by
  obtain ⟨some, rfl, rfl⟩ := scanDigits_eq_read_iff.1 scanned
  obtain ⟨noDigits, allRest⟩ := delimited.digits
  refine scanDigits_eq_read_iff.2 ⟨some, ?_, ?_⟩
  · rw [List.takeWhile_append, noDigits, List.append_nil]
    split
    · next all => exact ((List.takeWhile_prefix _).eq_of_length all).symm
    · rfl
  · rw [List.dropWhile_append, allRest]
    split
    · next empty => simp [List.isEmpty_iff.1 empty]
    · rfl

theorem scanWhole_append (scanned : scanWhole cs = .read ds after) (delimited : Delimited rest) :
    scanWhole (cs ++ rest) = .read ds (after ++ rest) := by
  unfold scanWhole at scanned ⊢
  split at scanned
  · simp [Scan.fault] at scanned
  · next noZero =>
    rw [scanDigits_append scanned delimited]
    split
    · next zero =>
      simp only [Scan.read.injEq] at zero
      exact absurd (zero.1 ▸ scanned) (noZero _ _ _)
    · rfl

theorem scanFraction_append (scanned : scanFraction cs = .read ds after) (delimited : Delimited rest) :
    scanFraction (cs ++ rest) = .read ds (after ++ rest) := by
  have noPoint : ∀ cs, (∀ c ∈ cs.head?, c ≠ '.') → scanFraction cs = .read [] cs := by
    intro cs ne
    unfold scanFraction
    split
    · simp at ne
    · rfl
  match cs with
  | [] =>
    simp only [scanFraction, Scan.read.injEq] at scanned
    obtain ⟨rfl, rfl⟩ := scanned
    exact noPoint rest fun c head => (delimited c head).2.1
  | c :: cs =>
    by_cases point : c = '.'
    · subst point
      exact scanDigits_append scanned delimited
    · rw [noPoint (c :: cs) (by simpa using point)] at scanned
      simp only [Scan.read.injEq] at scanned
      obtain ⟨rfl, rfl⟩ := scanned
      exact noPoint _ (by simpa using point)

/-- The digits of an exponent behind its sign. -/
def scanSigned (negative : Bool) (digits : List Char) : Scan (Option Int) :=
  match scanDigits digits with
  | .read ds rest =>
    .read (some (if negative then -(digitsValue ds : Int) else (digitsValue ds : Int))) rest
  | .unreadable rest => .unreadable rest
  | .broken flaw f => .broken flaw f

theorem scanSigned_append (scanned : scanSigned negative cs = .read e after)
    (delimited : Delimited rest) : scanSigned negative (cs ++ rest) = .read e (after ++ rest) := by
  unfold scanSigned at scanned ⊢
  split at scanned
  · next some =>
    simp only [Scan.read.injEq] at scanned
    obtain ⟨rfl, rfl⟩ := scanned
    simp [scanDigits_append some delimited]
  · simp at scanned
  · simp at scanned

theorem scanExponent_minus (letter : l = 'e' ∨ l = 'E') (cs : List Char) :
    scanExponent (l :: '-' :: cs) = scanSigned true cs := by
  simp only [scanExponent, letter, if_true]
  rfl

theorem scanExponent_plus (letter : l = 'e' ∨ l = 'E') (cs : List Char) :
    scanExponent (l :: '+' :: cs) = scanSigned false cs := by
  simp only [scanExponent, letter, if_true]
  rfl

theorem scanExponent_unsigned (letter : l = 'e' ∨ l = 'E') (minus : c ≠ '-') (plus : c ≠ '+')
    (cs : List Char) : scanExponent (l :: c :: cs) = scanSigned false (c :: cs) := by
  simp only [scanExponent, letter, if_true]
  split <;> simp_all [scanSigned]

theorem scanExponent_append (scanned : scanExponent cs = .read e after) (delimited : Delimited rest) :
    scanExponent (cs ++ rest) = .read e (after ++ rest) := by
  match cs with
  | [] =>
    simp only [scanExponent, Scan.read.injEq] at scanned
    obtain ⟨rfl, rfl⟩ := scanned
    cases rest with
    | nil => rfl
    | cons c rest =>
      obtain ⟨_, _, lower, upper⟩ := delimited c rfl
      simp [scanExponent, lower, upper]
  | l :: cs =>
    by_cases letter : l = 'e' ∨ l = 'E'
    · match cs with
      | [] => simp [scanExponent, letter, scanDigits, Scan.fault] at scanned
      | c :: cs =>
        by_cases minus : c = '-'
        · subst minus
          rw [scanExponent_minus letter] at scanned
          rw [List.cons_append, List.cons_append, scanExponent_minus letter]
          exact scanSigned_append scanned delimited
        · by_cases plus : c = '+'
          · subst plus
            rw [scanExponent_plus letter] at scanned
            rw [List.cons_append, List.cons_append, scanExponent_plus letter]
            exact scanSigned_append scanned delimited
          · rw [scanExponent_unsigned letter minus plus] at scanned
            rw [List.cons_append, List.cons_append, scanExponent_unsigned letter minus plus]
            exact scanSigned_append scanned delimited
    · simp only [scanExponent, List.cons_append, letter, if_false, Scan.read.injEq] at scanned ⊢
      obtain ⟨rfl, rfl⟩ := scanned
      simp

/-- A number is read to its end, whatever follows. -/
theorem scanNumber_append (scanned : scanNumber cs = .read n []) (delimited : Delimited rest) :
    scanNumber (cs ++ rest) = .read n rest := by
  have magnitude : ∀ (negative : Bool) (cs : List Char), scanMagnitude negative cs = .read n [] →
      scanMagnitude negative (cs ++ rest) = .read n rest := by
    intro negative cs scanned
    unfold scanMagnitude at scanned ⊢
    split at scanned
    · next whole =>
      split at scanned
      · next fraction =>
        split at scanned
        · next exponent =>
          rw [scanWhole_append whole delimited]
          simp only [scanFraction_append fraction delimited]
          simp only [scanExponent_append exponent delimited]
          split at scanned
          · next number =>
            simp only [Scan.read.injEq] at scanned
            obtain ⟨rfl, rfl⟩ := scanned
            simp
          · simp at scanned
        · simp at scanned
        · simp at scanned
      · simp at scanned
      · simp at scanned
    · simp at scanned
    · simp at scanned
  match cs with
  | [] => simp [scanNumber, scanMagnitude, scanWhole, scanDigits, Scan.fault] at scanned
  | c :: cs =>
    by_cases minus : c = '-'
    · subst minus
      exact magnitude true cs scanned
    · have unsigned : ∀ cs, scanNumber (c :: cs) = scanMagnitude false (c :: cs) := by
        intro cs
        unfold scanNumber
        split <;> simp_all
      rw [unsigned] at scanned
      rw [List.cons_append, unsigned]
      exact magnitude false (c :: cs) scanned

/-! ### Integers -/

theorem scanMagnitude_toDigits (number : number? negative (Nat.toDigits 10 n) [] none = some m) :
    scanMagnitude negative (Nat.toDigits 10 n) = .read m [] := by
  have digits : scanDigits (Nat.toDigits 10 n) = .read (Nat.toDigits 10 n) [] := by
    have all : ∀ c ∈ Nat.toDigits 10 n, c.isDigit = true :=
      fun c => Nat.isDigit_of_mem_toDigits (by decide) (by decide)
    refine scanDigits_eq_read_iff.2 ⟨Nat.toDigits_ne_nil, ?_, ?_⟩
    · exact List.takeWhile_eq_self_iff.2 all
    · exact List.dropWhile_eq_nil_iff.2 all
  have whole : scanWhole (Nat.toDigits 10 n) = .read (Nat.toDigits 10 n) [] := by
    unfold scanWhole
    rw [digits]
    split
    · next zero =>
      simp only [Scan.read.injEq] at zero
      exact absurd zero.1 (toDigits_ne n _ _)
    · rfl
  simp only [scanMagnitude, whole, scanFraction, scanExponent, number]

/-- The integers that are read as such. -/
def Number.InRange (i : Int) : Prop := Int64.minValue.toInt ≤ i ∧ i < UInt64.size

theorem scanNumber_int (inRange : Number.InRange i) :
    scanNumber (Number.print (.int i)) = .read (.int i) [] := by
  obtain ⟨least, bound⟩ := inRange
  cases i with
  | ofNat n =>
    have printed : Number.print (.int (.ofNat n)) = Nat.toDigits 10 n := by
      simp [Number.print, Int.toString_eq_repr, Int.repr]
    have small : n < UInt64.size := Int.ofNat_lt.1 bound
    have number : number? false (Nat.toDigits 10 n) [] none = some (.int n) := by
      simp [number?, digitsValue_toDigits, small]
    rw [printed, scanNumber.eq_def]
    split
    · next minus same =>
      have digit : '-'.isDigit = true :=
        Nat.isDigit_of_mem_toDigits (b := 10) (n := n) (by decide) (by decide) (by simp [same])
      simp at digit
    · exact scanMagnitude_toDigits number
  | negSucc n =>
    have printed : Number.print (.int (.negSucc n)) = '-' :: Nat.toDigits 10 (n + 1) := by
      simp [Number.print, Int.toString_eq_repr, Int.repr]
    have number : number? true (Nat.toDigits 10 (n + 1)) [] none = some (.int (.negSucc n)) := by
      have range : Int64.minValue.toInt ≤ -((n + 1 : Nat) : Int) := by simpa [Int.negSucc_eq] using least
      simp only [number?, digitsValue_toDigits]
      rw [if_neg (by simp), if_pos ⟨trivial, trivial, trivial, Nat.succ_pos n, range⟩]
      rfl
    rw [printed]
    exact scanMagnitude_toDigits number

end FlowScript.Json
