import FlowScript.Proofs.Decoding
import Mathlib.Algebra.Group.Nat.Defs

/-! Every number that is read from a text is finite: a literal beyond the range of the doubles is refused. -/
namespace FlowScript

/-! ### Doubles -/

namespace Decimal
open Float.Model (UnpackedFloat Format totalExponent)
open Float.Model.UnpackedFloat

/-- The bits of the exponent are all set, as they are in what is infinite or no number. -/
def Ended (bits : BitVec Format.binary64.numBits) : Prop :=
  @unpackExponent .binary64 bits = -1#_

/-- A number whose exponent is small enough for a double. -/
def Moderate : UnpackedFloat → Prop
  | .zero _ => True
  | .finite _ _ exponent _ => exponent ≤ 971
  | _ => False

theorem bias_binary64 : Format.binary64.exponentBias = 1023 := rfl

theorem moderate_unpack {bits : BitVec Format.binary64.numBits} (more : ¬ Ended bits) :
    Moderate (unpack .binary64 bits) := by
  unfold Ended at more
  have small : (@unpackExponent .binary64 bits).toNat < 2048 := BitVec.isLt _
  have other : (@unpackExponent .binary64 bits).toNat ≠ 2047 := fun all =>
    more (BitVec.eq_of_toNat_eq all)
  delta unpack
  dsimp only
  rw [if_neg more]
  by_cases least : @unpackExponent .binary64 bits = 0#_
  · have zero : (@unpackExponent .binary64 bits).toNat = 0 := congrArg BitVec.toNat least
    rw [if_pos least]
    by_cases none : @unpackMantissa .binary64 bits = 0#_
    · rw [dif_pos none]
      trivial
    · rw [dif_neg none]
      change ((@unpackExponent .binary64 bits).toNat : Int) - (1023 + 52) + 1 ≤ 971
      omega
  · rw [if_neg least]
    change ((@unpackExponent .binary64 bits).toNat : Int) - (1023 + 52) ≤ 971
    omega

theorem not_ended_pack {u : UnpackedFloat} (moderate : Moderate u) : ¬ Ended (pack .binary64 u) := by
  unfold Ended
  cases u with
  | infinity s => exact moderate.elim
  | notANumber => exact moderate.elim
  | zero s =>
    change unpackExponent (packComponents .binary64 s 0 0) ≠ _
    simp
  | finite s m e positive =>
    have small : e ≤ 971 := moderate
    -- 971 is the last exponent whose biased form is not the one with all bits set.
    have room : (e + (1023 : Nat) + (52 : Nat)).toNat < 2047 := by omega
    generalize biased : (e + (1023 : Nat) + (52 : Nat)).toNat = n at room
    have unequal : BitVec.ofNat 11 n ≠ -1#11 := by
      intro all
      have same : n % 2 ^ 11 = 2047 := congrArg BitVec.toNat all
      omega
    delta pack
    dsimp only
    rw [bias_binary64, biased, if_neg (by omega)]
    split
    · simpa using unequal
    · simp

theorem not_ended_of_isFinite {bits : BitVec Format.binary64.numBits}
    (finite : (unpack .binary64 bits).isFinite = true) : ¬ Ended bits := by
  intro ended
  unfold Ended at ended
  delta unpack at finite
  dsimp only at finite
  rw [if_pos ended] at finite
  split at finite
  · cases finite
  · cases finite

theorem isFinite_iff (f : Float) : Decimal.isFinite f ↔ ¬ Ended f.toBits.toBitVec := by
  have field : (@unpackExponent .binary64 f.toBits.toBitVec).toNat =
      (f.toBits.toNat >>> 52) % 2048 := by
    simp [unpackExponent, BitVec.extractLsb_toNat]
  have ended : Ended f.toBits.toBitVec ↔ (f.toBits.toNat >>> 52) % 2048 = 2047 := by
    rw [← field]
    exact ⟨fun all => congrArg BitVec.toNat all, fun all => BitVec.eq_of_toNat_eq all⟩
  rw [ended]
  simp only [Decimal.isFinite, datum, Datum.ofBits]
  grind

theorem isFinite_of_isFinite {f : Float} (finite : f.isFinite = true) : Decimal.isFinite f :=
  (isFinite_iff f).2 (not_ended_of_isFinite finite)

theorem isFinite_pack {u : UnpackedFloat} (moderate : Moderate u) :
    Decimal.isFinite ⟨Float.Model.pack u⟩ :=
  (isFinite_iff _).2 (not_ended_pack moderate)

theorem moderate_neg {u : UnpackedFloat} (moderate : Moderate u) : Moderate u.neg := by
  cases u <;> exact moderate

theorem isFinite_neg {f : Float} (finite : Decimal.isFinite f) : Decimal.isFinite (-f) :=
  isFinite_pack (moderate_neg (moderate_unpack ((isFinite_iff f).1 finite)))

/-! Integers of 64 bits. The bounds are generous: rounding moves the exponent twice at most, each time by no
more than the width of the significand. -/

theorem mantissa_shiftRight_le (m : ExtendedMantissa) (n : Nat) : (m >>> n).mantissa ≤ m.mantissa := by
  change (n.repeat ExtendedMantissa.shiftRightOne m).mantissa ≤ m.mantissa
  induction n with
  | zero => exact Nat.le_refl _
  | succ n ih => exact Nat.le_trans (Nat.div_le_self _ 2) ih

theorem roundedMantissa_le (m : ExtendedMantissa) : m.roundedMantissa ≤ m.mantissa + 1 := by
  obtain ⟨n, round, sticky⟩ := m
  have parity := Nat.mod_lt n (by decide : 0 < 2)
  cases round <;> cases sticky <;>
    simp only [ExtendedMantissa.roundedMantissa, ExtendedMantissa.accuracy,
      Accuracy.roundToNearestEven] <;> omega

theorem shiftToTargetExponent_le {m width : Nat} {e bound : Int} (fits : m < 2 ^ width)
    (wide : 0 < width) (room : width + e ≤ bound) (least : -1074 ≤ bound) :
    (shiftToTargetExponent .binary64 m e .exact).1.mantissa ≤ m ∧
      (shiftToTargetExponent .binary64 m e .exact).2 ≤ bound := by
  have log : m.log2 < width := by
    rcases Nat.eq_zero_or_pos m with rfl | positive
    · simpa
    · exact (Nat.log2_lt (by omega)).2 fits
  refine ⟨mantissa_shiftRight_le _ _, ?_⟩
  have target : Format.binary64.targetExponent (totalExponent m e) ≤ bound := by
    refine Int.max_le.2 ⟨?_, least⟩
    change (m.log2 + 1 + e : Int) - 53 ≤ bound
    omega
  simp only [shiftToTargetExponent, shiftToExponent]
  omega

theorem moderate_roundWithAccuracy {m : Nat} {e : Int} (s : Sign) (width : Nat) (fits : m < 2 ^ width)
    (wide : 0 < width) (narrow : width ≤ 400) (low : e ≤ 0) :
    Moderate (roundWithAccuracy .binary64 s m e .exact) := by
  have room : width + e ≤ 400 := by omega
  obtain ⟨mantissa, exponent⟩ := shiftToTargetExponent_le fits wide room (by decide)
  -- Rounding can carry into one more digit, so the significand is shifted a second time.
  unfold roundWithAccuracy
  rcases first : shiftToTargetExponent .binary64 m e .exact with ⟨m₁, e₁⟩
  simp only [first] at mantissa exponent
  have wider : m₁.roundedMantissa < 2 ^ (width + 1) := by
    have rounded := roundedMantissa_le m₁
    have one := Nat.one_le_two_pow (n := width)
    rw [Nat.pow_succ]
    omega
  have room' : ((width + 1 : Nat) : Int) + e₁ ≤ 971 := by omega
  have exponent' := (shiftToTargetExponent_le wider (Nat.succ_pos _) room' (by decide)).2
  dsimp only
  rcases second : shiftToTargetExponent .binary64 m₁.roundedMantissa e₁ .exact with ⟨m₂, e₂⟩
  simp only [second] at exponent'
  dsimp only
  by_cases zero : m₂.mantissa = 0
  · rw [dif_pos zero]
    trivial
  · rw [dif_neg zero]
    exact exponent'

theorem isFinite_toFloat (n : UInt64) : Decimal.isFinite n.toFloat := by
  refine isFinite_pack ?_
  change Moderate (UnpackedFloat.normalize .binary64 (n.toNat : Int) 0 .positive)
  have small : n.toNat < 2 ^ 64 := n.toNat_lt
  have round : Moderate (UnpackedFloat.round .binary64 .positive n.toNat 0) := by
    have target : -53 ≤ Format.binary64.targetExponent (totalExponent n.toNat 0) := by
      refine Int.le_trans ?_ (Int.le_max_left _ _)
      change -53 ≤ (n.toNat.log2 + 1 + 0 : Int) - 53
      omega
    simp only [UnpackedFloat.round, decreaseExponent]
    generalize Format.binary64.targetExponent (totalExponent n.toNat 0) = t at target
    refine moderate_roundWithAccuracy .positive (64 + 53) ?_ (by decide) (by decide) (by omega)
    have shift : (0 - t).toNat ≤ 53 := by omega
    calc n.toNat <<< (0 - t).toNat = n.toNat * 2 ^ (0 - t).toNat := Nat.shiftLeft_eq ..
      _ < 2 ^ 64 * 2 ^ (0 - t).toNat := Nat.mul_lt_mul_of_pos_right small (Nat.two_pow_pos _)
      _ ≤ 2 ^ 64 * 2 ^ 53 := Nat.mul_le_mul_left _ (Nat.pow_le_pow_right (by decide) shift)
      _ = 2 ^ (64 + 53) := (Nat.pow_add 2 64 53).symm
  unfold UnpackedFloat.normalize
  split
  · next below => exact absurd (Int.compare_eq_lt.1 below) (by omega)
  · trivial
  · exact round

end Decimal

namespace Json

/-! ### Literals -/

theorem nearestDouble?_finite (nearest : nearestDouble? n e = some f) : Decimal.isFinite f := by
  unfold nearestDouble? at nearest
  simp only at nearest
  split at nearest
  · obtain rfl := Option.some.inj nearest
    decide +kernel
  · split at nearest
    · cases nearest
    · split at nearest
      · next finite =>
        obtain rfl := Option.some.inj nearest
        exact Decimal.isFinite_of_isFinite finite
      · cases nearest

theorem negateIf_finite (finite : Decimal.isFinite f) (negative : Bool) :
    Decimal.isFinite (negateIf negative f) := by
  cases negative
  · exact finite
  · exact Decimal.isFinite_neg finite

theorem number?_finite (number : number? negative whole fraction exponent = some n) : n.isFinite := by
  unfold number? at number
  simp only at number
  split at number
  · obtain rfl := Option.some.inj number
    rfl
  · split at number
    · obtain rfl := Option.some.inj number
      rfl
    · obtain ⟨f, nearest, rfl⟩ := Option.map_eq_some_iff.1 number
      exact negateIf_finite (nearestDouble?_finite nearest) negative

theorem scanNumber_finite (scanned : scanNumber cs = .read n rest) : n.isFinite := by
  have magnitude : ∀ negative cs, scanMagnitude negative cs = .read n rest → n.isFinite := by
    intro negative cs scanned
    unfold scanMagnitude at scanned
    grind [number?_finite]
  unfold scanNumber at scanned
  split at scanned
  · exact magnitude true _ scanned
  · exact magnitude false _ scanned

theorem Number.toFloat_finite {n : Number} (finite : n.isFinite) : Decimal.isFinite n.toFloat := by
  cases n with
  | int i => exact negateIf_finite (Decimal.isFinite_toFloat _) _
  | float f => exact finite

/-! ### Texts -/

theorem finite_array : Finite (.array items flaw) ↔ ∀ j ∈ items, Finite j := finite_list

theorem finite_object : Finite (.object fields flaw) ↔ ∀ f ∈ fields, Finite f.2 := finite_record

theorem finite_flawed : Finite (.flawed flaw) := by simp [Finite, numbers]

/-- All numbers of a tree that is read are finite. -/
theorem finite_invariant : ReadInvariant fun _ j => Finite j where
  flawed _ _ := finite_flawed
  null _ := finite_null
  bool _ _ := finite_bool
  number _ _ n _ scanned := by simpa [Finite, numbers] using scanNumber_finite scanned
  string _ _ := finite_string
  array _ _ _ parts := finite_array.2 parts
  object _ _ _ parts := finite_object.2 parts

end Json
end FlowScript
