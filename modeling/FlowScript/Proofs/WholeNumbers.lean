import FlowScript.Operator
import Mathlib.Algebra.Order.Ring.Int

/-! What operators answer on integers. Each operator of arithmetic stands for a number. It answers that
number where 64 bits hold it and is refused otherwise, but for one remainder, which is refused together with
its quotient. -/
namespace FlowScript

/-- 64 bits hold the number. -/
def IsInt64 (n : Int) : Prop := -2 ^ 63 ≤ n ∧ n < 2 ^ 63

/-- The dividend is so many divisors and a rest, which is nearer to zero than the divisor and on the same
side of zero as the dividend. -/
structure CutsTo (a b q r : Int) : Prop where
  whole : a = q * b + r
  small : r.natAbs < b.natAbs
  above : 0 ≤ a → 0 ≤ r
  below : a ≤ 0 → r ≤ 0

/-- The number that an operator of arithmetic stands for. By zero nothing is divided, and comparisons stand
for no numbers. -/
inductive BinaryOp.Denotes : BinaryOp → Int → Int → Int → Prop where
  | add : Denotes .add a b (a + b)
  | sub : Denotes .sub a b (a - b)
  | mul : Denotes .mul a b (a * b)
  | div : CutsTo a b q r → Denotes .div a b q
  | mod : CutsTo a b q r → Denotes .mod a b r

/-- The operators of arithmetic. -/
def BinaryOp.numeric : List BinaryOp := [.add, .sub, .mul, .div, .mod]

/-- The operator divides. -/
def BinaryOp.Divides (op : BinaryOp) : Prop := op = .div ∨ op = .mod

/-- The remainder that is refused though 64 bits hold it. -/
structure IsOddRemainder (op : BinaryOp) (a b : Int64) : Prop where
  remainder : op = .mod
  dividend : a = Int64.minValue
  divisor : b = -1

theorem IsOddRemainder.divides (odd : IsOddRemainder op a b) : op.Divides := .inr odd.remainder

theorem IsOddRemainder.some (odd : IsOddRemainder op a b) : b ≠ 0 := by
  rw [odd.divisor]
  decide

/-! ### Quotients and remainders -/

theorem cutsTo_iff {a b q r : Int} : CutsTo a b q r ↔ b ≠ 0 ∧ a.tdiv b = q ∧ a.tmod b = r := by
  constructor
  · rintro ⟨whole, small, above, below⟩
    have some : b ≠ 0 := by omega
    refine ⟨some, ?_⟩
    have sum : r + b * q = a := by rw [whole, Int.mul_comm]; omega
    rcases Int.le_total 0 a with positive | negative
    · exact (Int.tdiv_tmod_unique positive some).2 ⟨sum, above positive, by have := above positive; omega⟩
    · exact (Int.tdiv_tmod_unique' negative some).2 ⟨sum, by have := below negative; omega, below negative⟩
  · rintro ⟨some, rfl, rfl⟩
    refine ⟨?_, ?_, fun positive => ?_, fun negative => ?_⟩
    · have sum := Int.mul_tdiv_add_tmod a b
      rw [Int.mul_comm] at sum
      exact sum.symm
    · rw [Int.natAbs_tmod]
      exact Nat.mod_lt _ (by omega)
    · exact Int.tmod_nonneg b positive
    · exact ((Int.tdiv_tmod_unique' negative some).1 ⟨rfl, rfl⟩).2.2

/-- A rest is no farther from zero than what is divided, so 64 bits hold it. -/
theorem CutsTo.isInt64 (cuts : CutsTo a b q r) (held : IsInt64 b) : IsInt64 r := by
  obtain ⟨-, small, -, -⟩ := cuts
  obtain ⟨low, high⟩ := held
  constructor <;> omega

/-! ### Numbers of 64 bits -/

theorem isInt64_toInt (i : Int64) : IsInt64 i.toInt := ⟨i.le_toInt, i.toInt_lt⟩

namespace Value
variable {n : Int} {r : Int64}

theorem int64?_eq_some : int64? n = some r ↔ r.toInt = n := by
  have least : Int64.minValue.toInt = -2 ^ 63 := by decide
  have greatest : Int64.maxValue.toInt = 2 ^ 63 - 1 := by decide
  unfold int64?
  rw [least, greatest]
  split
  · next held =>
    have back : (Int64.ofInt n).toInt = n := Int64.toInt_ofInt_of_le held.1 (by omega)
    rw [Option.some.injEq, ← Int64.toInt_inj, back, eq_comm]
  · next beyond =>
    have held := isInt64_toInt r
    simp only [reduceCtorEq, false_iff]
    rintro rfl
    exact beyond ⟨held.1, by have := held.2; omega⟩

theorem int64?_eq_none : int64? n = none ↔ ¬IsInt64 n := by
  rw [Option.eq_none_iff_forall_ne_some]
  constructor
  · intro none held
    exact none (Int64.ofInt n) (int64?_eq_some.2 (Int64.toInt_ofInt_of_le held.1 held.2))
  · rintro beyond r found
    exact beyond (int64?_eq_some.1 found ▸ isInt64_toInt r)

end Value
open Value

/-! ### Answers -/

namespace BinaryOp
variable {op : BinaryOp} {a b : Int64} {m n : Int}

/-- By a legal divisor an operator has the result for which it stands. -/
theorem exactResult?_eq_some (legal : op.Divides → b ≠ 0) :
    exactResult? op a.toInt b.toInt = some n ↔ op.Denotes a.toInt b.toInt n := by
  have some : op.Divides → b.toInt ≠ 0 := fun divides zero =>
    legal divides (Int64.toInt_inj.1 (zero.trans (by decide)))
  cases op with
  | add | sub | mul =>
    simp only [exactResult?, Option.some.injEq]
    exact ⟨by rintro rfl; constructor, by rintro ⟨⟩; rfl⟩
  | div =>
    simp only [exactResult?, Option.some.injEq]
    constructor
    · rintro rfl
      exact .div (cutsTo_iff.2 ⟨some (.inl rfl), rfl, rfl⟩)
    · rintro (_ | _ | _ | cuts | _)
      exact (cutsTo_iff.1 cuts).2.1
  | mod =>
    simp only [exactResult?, Option.some.injEq]
    constructor
    · rintro rfl
      exact .mod (cutsTo_iff.2 ⟨some (.inr rfl), rfl, rfl⟩)
    · rintro (_ | _ | _ | _ | cuts)
      exact (cutsTo_iff.1 cuts).2.2
  | eq | ne | lt | le | gt | ge =>
    simp only [exactResult?, reduceCtorEq, false_iff]
    exact nofun

theorem Denotes.legal (denotes : op.Denotes a.toInt b.toInt n) (divides : op.Divides) : b ≠ 0 := by
  rintro rfl
  rcases divides with rfl | rfl
  · obtain _ | _ | _ | cuts | _ := denotes
    exact absurd rfl (cutsTo_iff.1 cuts).1
  · obtain _ | _ | _ | _ | cuts := denotes
    exact absurd rfl (cutsTo_iff.1 cuts).1

theorem Denotes.unique (first : op.Denotes a.toInt b.toInt m) (second : op.Denotes a.toInt b.toInt n) :
    m = n := by
  have found := (exactResult?_eq_some first.legal).2 first
  exact Option.some.inj (found.symm.trans ((exactResult?_eq_some first.legal).2 second))

/-- What an operator may answer on two integers, and when. -/
inductive Answers (op : BinaryOp) (a b : Int64) : Except Failure Value → Prop where
  | exact (r : Int64) : op.Denotes a.toInt b.toInt r.toInt → ¬IsOddRemainder op a b →
      Answers op a b (.ok (.int r))
  | truth (c : Bool) : op ∉ numeric → Answers op a b (.ok (.bool c))
  | byZero : op.Divides → b = 0 → Answers op a b (.error .divisionByZero)
  | beyond (n : Int) : op.Denotes a.toInt b.toInt n → ¬IsInt64 n →
      Answers op a b (.error (integerOverflow op a b))
  | odd : IsOddRemainder op a b → Answers op a b (.error (integerOverflow op a b))

theorem Denotes.numeric (denotes : op.Denotes a.toInt b.toInt n) : op ∈ numeric := by
  cases denotes <;> decide

theorem Divides.numeric (divides : op.Divides) : op ∈ numeric := by
  rcases divides with rfl | rfl <;> decide

theorem exists_exactResult (numeric : op ∈ numeric) (x y : Int) : ∃ n, exactResult? op x y = some n := by
  simp only [BinaryOp.numeric, List.mem_cons, List.not_mem_nil, or_false] at numeric
  rcases numeric with rfl | rfl | rfl | rfl | rfl <;> exact ⟨_, rfl⟩

theorem integerArithmetic_answers (numeric : op ∈ numeric) : Answers op a b (integerArithmetic op a b) := by
  unfold integerArithmetic
  split
  · next refused => exact .byZero refused.1 refused.2
  · next legal =>
    have legal : op.Divides → b ≠ 0 := fun divides zero => legal ⟨divides, zero⟩
    split
    · next refused =>
      obtain ⟨rfl, overflows⟩ := refused
      obtain ⟨rfl, rfl⟩ : a = Int64.minValue ∧ b = -1 := by simpa [quotientOverflows] using overflows
      exact .odd ⟨rfl, rfl, rfl⟩
    · next even =>
      obtain ⟨n, exact⟩ := exists_exactResult numeric a.toInt b.toInt
      have denotes := (exactResult?_eq_some legal).1 exact
      rw [exact, Option.bind_some]
      cases held : int64? n with
      | none => exact .beyond n denotes (int64?_eq_none.1 held)
      | some r =>
        refine .exact r (int64?_eq_some.1 held ▸ denotes) fun odd => even ⟨odd.remainder, ?_⟩
        simp [quotientOverflows, odd.dividend, odd.divisor]

theorem apply_answers (op : BinaryOp) (a b : Int64) : Answers op a b (op.apply (.int a) (.int b)) := by
  cases op with
  | add | sub | mul | div | mod => exact integerArithmetic_answers (by decide)
  | eq | ne | lt | le | gt | ge => exact .truth _ (by decide)

theorem integerOverflow_ne_divisionByZero : integerOverflow op a b ≠ .divisionByZero := by
  intro same
  have kinds : Failure.typeMismatchKind = Failure.divisionByZeroKind := congrArg Failure.kind same
  exact absurd kinds (by decide)

/-- A remainder is a number that 64 bits hold. -/
theorem Denotes.isInt64_of_mod (denotes : Denotes .mod a.toInt b.toInt n) : IsInt64 n := by
  obtain _ | _ | _ | _ | cuts := denotes
  exact cuts.isInt64 (isInt64_toInt b)

theorem apply_eq_int_iff (op : BinaryOp) (a b r : Int64) :
    op.apply (.int a) (.int b) = .ok (.int r) ↔
      op.Denotes a.toInt b.toInt r.toInt ∧ ¬IsOddRemainder op a b := by
  have answers := apply_answers op a b
  generalize op.apply (.int a) (.int b) = answer at answers
  constructor
  · rintro rfl
    cases answers with
    | exact _ denotes even => exact ⟨denotes, even⟩
  · rintro ⟨denotes, even⟩
    cases answers with
    | exact r' denotes' _ => rw [Int64.toInt_inj.1 (denotes'.unique denotes)]
    | truth _ other => exact absurd denotes.numeric other
    | byZero divides zero => exact absurd zero (denotes.legal divides)
    | beyond n denotes' beyond => exact absurd (denotes'.unique denotes ▸ isInt64_toInt r) beyond
    | odd odd => exact absurd odd even

theorem apply_eq_divisionByZero_iff (op : BinaryOp) (a b : Int64) :
    op.apply (.int a) (.int b) = .error .divisionByZero ↔ op.Divides ∧ b = 0 := by
  have answers := apply_answers op a b
  generalize answered : op.apply (.int a) (.int b) = answer at answers
  constructor
  · rintro rfl
    generalize refused : Failure.divisionByZero = f at answers
    cases answers with
    | byZero divides zero => exact ⟨divides, zero⟩
    | beyond | odd => exact absurd refused.symm integerOverflow_ne_divisionByZero
  · rintro ⟨divides, zero⟩
    cases answers with
    | exact _ denotes _ => exact absurd zero (denotes.legal divides)
    | truth _ other => exact absurd divides.numeric other
    | byZero => rfl
    | beyond _ denotes _ => exact absurd zero (denotes.legal divides)
    | odd odd => exact absurd zero odd.some

theorem apply_eq_overflow_iff (op : BinaryOp) (a b : Int64) :
    op.apply (.int a) (.int b) = .error (integerOverflow op a b) ↔
      (∃ n, op.Denotes a.toInt b.toInt n ∧ ¬IsInt64 n) ∨ IsOddRemainder op a b := by
  have answers := apply_answers op a b
  generalize op.apply (.int a) (.int b) = answer at answers
  constructor
  · rintro rfl
    generalize refused : integerOverflow op a b = f at answers
    cases answers with
    | byZero => exact absurd refused integerOverflow_ne_divisionByZero
    | beyond n denotes beyond => exact .inl ⟨n, denotes, beyond⟩
    | odd odd => exact .inr odd
  · intro overflows
    cases answers with
    | exact r denotes even =>
      rcases overflows with ⟨n, denotes', beyond⟩ | odd
      · exact absurd (denotes.unique denotes' ▸ isInt64_toInt r) beyond
      · exact absurd odd even
    | truth _ other =>
      rcases overflows with ⟨n, denotes, -⟩ | odd
      · exact absurd denotes.numeric other
      · exact absurd odd.divides.numeric other
    | byZero divides zero =>
      rcases overflows with ⟨n, denotes, -⟩ | odd
      · exact absurd zero (denotes.legal divides)
      · exact absurd zero odd.some
    | beyond | odd => rfl

/-- By a divisor that is not zero there is a remainder, unless it is the odd one. -/
theorem exists_remainder (some : b ≠ 0) :
    (∃ r, apply .mod (.int a) (.int b) = .ok (.int r)) ∨ a = Int64.minValue ∧ b = -1 := by
  have answers := apply_answers .mod a b
  generalize apply .mod (.int a) (.int b) = answer at answers ⊢
  cases answers with
  | exact r => exact .inl ⟨r, rfl⟩
  | truth _ other => exact absurd (by decide) other
  | byZero _ zero => exact absurd zero some
  | beyond n denotes beyond => exact absurd denotes.isInt64_of_mod beyond
  | odd odd => exact .inr ⟨odd.dividend, odd.divisor⟩

theorem dividend_eq (quotient : apply .div (.int a) (.int b) = .ok (.int q))
    (remainder : apply .mod (.int a) (.int b) = .ok (.int r)) :
    a.toInt = q.toInt * b.toInt + r.toInt := by
  obtain ⟨_ | _ | _ | first | _, -⟩ := (apply_eq_int_iff .div a b q).1 quotient
  obtain ⟨_ | _ | _ | _ | second, -⟩ := (apply_eq_int_iff .mod a b r).1 remainder
  obtain ⟨-, -, rest⟩ := cutsTo_iff.1 first
  obtain ⟨-, -, rest'⟩ := cutsTo_iff.1 second
  exact (rest.symm.trans rest') ▸ first.whole

end BinaryOp
open BinaryOp

/-- Arithmetic on integers is exact or refused, for all operators and all operands. An operator answers an
integer just if that is the number for which it stands; it is refused for division by zero just if it divides
and the divisor is zero, and for overflow just if 64 bits do not hold its number. The only remainder that is
refused for overflow although 64 bits hold it is that of the least integer by minus one, whose quotient they do
not hold; every other remainder by a divisor that is not zero has an answer. No operator fails otherwise. What
is answered for a quotient and a remainder makes up the dividend. -/
theorem integers_are_exact_or_refused (op : BinaryOp) (a b : Int64) :
    let answer (op : BinaryOp) := op.apply (.int a) (.int b)
    (∀ r, answer op = .ok (.int r) ↔ op.Denotes a.toInt b.toInt r.toInt ∧ ¬IsOddRemainder op a b) ∧
      (answer op = .error .divisionByZero ↔ op.Divides ∧ b = 0) ∧
      (answer op = .error (integerOverflow op a b) ↔
        (∃ n, op.Denotes a.toInt b.toInt n ∧ ¬IsInt64 n) ∨ IsOddRemainder op a b) ∧
      (∀ f, answer op = .error f → f = .divisionByZero ∨ f = integerOverflow op a b) ∧
      (b ≠ 0 → (∃ r, answer .mod = .ok (.int r)) ∨ a = Int64.minValue ∧ b = -1) ∧
      ∀ q r, answer .div = .ok (.int q) → answer .mod = .ok (.int r) →
        a.toInt = q.toInt * b.toInt + r.toInt := by
  intro answer
  refine ⟨apply_eq_int_iff op a b, apply_eq_divisionByZero_iff op a b, apply_eq_overflow_iff op a b, ?fails,
    exists_remainder, fun q r => dividend_eq⟩
  intro f failed
  have answers : op.Answers a b (answer op) := apply_answers op a b
  rw [failed] at answers
  cases answers with
  | byZero => exact .inl rfl
  | beyond | odd => exact .inr rfl

/-- The remainder of the least integer by minus one is zero, which 64 bits hold, and it is refused for
overflow. -/
theorem remainder_by_minus_one_is_refused :
    let least := Int64.minValue
    least.toInt = -2 ^ 63 ∧ BinaryOp.Denotes .mod least.toInt (-1 : Int64).toInt 0 ∧ IsInt64 0 ∧
      (-1 : Int64) ≠ 0 ∧
      BinaryOp.apply .mod (.int least) (.int (-1)) = .error (integerOverflow .mod least (-1)) ∧
      (integerOverflow .mod least (-1)).message =
        "Integer overflow in -9223372036854775808 % -1" := by
  intro least
  have cuts : CutsTo least.toInt (-1 : Int64).toInt (2 ^ 63) 0 := ⟨by decide, by decide, by decide, by decide⟩
  exact ⟨by decide, .mod cuts, ⟨by decide, by decide⟩, by decide, rfl, rfl⟩

end FlowScript
