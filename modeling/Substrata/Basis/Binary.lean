import Mathlib.Data.Nat.Log
import Mathlib.Data.Rat.Defs
import Mathlib.Data.Rat.Cast.Order
import Mathlib.Algebra.Order.Ring.Nat
import Mathlib.Tactic.Ring
import Mathlib.Tactic.Linarith
import Mathlib.Tactic.Positivity
import Mathlib.Tactic.FieldSimp

/-!
# Binary Floating-Point Numbers

The numbers of a binary floating-point format, kept exact.

Every finite number of a format is a whole multiple of the format's smallest
subnormal, so a number is stored as a sign, a significand and an exponent that
counts doublings of that smallest place. `Canonical` is the invariant that
makes the representation unique, and it is a field of the constructor: a
significand that is too long, or a short one above the subnormal range, cannot
be written down. All arithmetic is then arithmetic of natural numbers of those
smallest places, and rounding is one division with remainder.

`round` is the only function that loses anything. It is rounding to nearest,
ties to even, and the two facts about it that programs use are the error bound
`round_error`, half of the last place kept, and exactness `round_exact` where
the last place kept already divides the number.

## Main definitions

* `Binary.Format`: Precision, smallest place and exponent range.
* `Binary`: The numbers of a format, with the infinities and the quiet NaN.
* `Binary.units`: A finite number in smallest places.
* `Binary.numeric`: The number that a `Binary` denotes.
* `Format.round`: Rounding to nearest, ties to even.
* `Binary.ofInt`: The number nearest to an integer.
* `Binary.fmod`: The remainder of truncating division.
* `Binary.ieeeEq`: Equality of numbers, with NaN unequal to itself.
* `Binary.trunc`: The integer part.
* `Binary.convert`: The number of another format that is nearest.

## Theorems

* `Format.nearest_error`: Rounding is off by half of the last place at most.
* `Format.nearest_exact`: Numbers whose last place is kept are not changed.
* `Format.nearest_lt_two_pow_iff`: Which numbers round to less than a power of two.
* `Format.nearest_le_two_pow`: Rounding does not pass a power of two.
* `Format.round_finite`: Below the exponent range rounding gives a number.
* `Binary.ofInt_exact`: Integers up to the precision convert exactly.
* `Binary.dvd_units_of_le`: Beyond the precision every number is an integer.
* `Binary.fmod_one_eq_zero_iff`: The remainder by one tests for an integer.
* `Binary.numeric_eq_int_iff`: When a number denotes a given integer.
* `Binary.convert_convert`: A wider format gives every number back.
-/

namespace Binary

/-- A binary floating-point format: finite numbers are multiples of
    `2 ^ (-unit)`, with `precision` significand bits below `2 ^ maxExponent`
    doublings of it. -/
structure Format where
  precision : ℕ
  unit : ℕ
  maxExponent : ℕ
  precision_pos : 0 < precision
  unit_lt : unit + 1 < maxExponent

/-- The double-precision format. -/
def binary64 : Format := ⟨53, 1074, 2045, by decide, by decide⟩

/-- The single-precision format. -/
def binary32 : Format := ⟨24, 149, 253, by decide, by decide⟩

/-- A significand and an exponent that a format stores: only numbers below the
    smallest normal one have a short significand. -/
def Format.Canonical (F : Format) (significand exponent : ℕ) : Prop :=
  significand < 2 ^ F.precision ∧ exponent ≤ F.maxExponent ∧
    (exponent = 0 ∨ 2 ^ (F.precision - 1) ≤ significand)

/-- The integer of a sign and a magnitude. -/
def signed (negative : Bool) (magnitude : ℕ) : ℤ :=
  if negative then -(magnitude : ℤ) else magnitude

/-- What a floating-point number stands for. -/
inductive Numeric
  | nan
  | infinity (negative : Bool)
  | rational (q : ℚ)
  deriving DecidableEq

end Binary

open Binary

/-- The numbers of a format. -/
inductive Binary (F : Format)
  | nan
  | infinity (negative : Bool)
  | finite (negative : Bool) (significand exponent : ℕ)
      (canonical : F.Canonical significand exponent)
  deriving DecidableEq

namespace Binary

variable {F : Format}

def isFinite : Binary F → Bool
  | .finite .. => true
  | _ => false

def isNaN : Binary F → Bool
  | .nan => true
  | _ => false

/-- A finite number counted in smallest places. -/
def units : Binary F → ℤ
  | .finite negative significand exponent _ => signed negative (significand * 2 ^ exponent)
  | _ => 0

/-- The number that a `Binary` denotes. -/
def numeric : Binary F → Numeric
  | .nan => .nan
  | .infinity negative => .infinity negative
  | x@(.finite ..) => .rational (x.units / 2 ^ F.unit)

@[simp] theorem signed_natAbs (negative : Bool) (m : ℕ) : (signed negative m).natAbs = m := by
  cases negative with
  | false => simp [signed]
  | true => simp [signed]

@[simp] theorem signed_zero (negative : Bool) : signed negative 0 = 0 := by
  cases negative with
  | false => simp [signed]
  | true => simp [signed]

theorem signed_decide (n : ℤ) : signed (decide (n < 0)) n.natAbs = n := by
  unfold signed
  by_cases h : n < 0
  · rw [decide_eq_true h, if_pos rfl]
    omega
  · rw [decide_eq_false h, if_neg (by simp)]
    omega

theorem signed_mul (negative : Bool) (m k : ℕ) :
    signed negative (m * k) = signed negative m * k := by
  cases negative with
  | false => simp [signed]
  | true => simp [signed]

/-! ## Rounding -/

namespace Format

variable (F)

/-- How many places rounding gives up. -/
def shift (m : ℕ) : ℕ := m.log2 + 1 - F.precision

/-- `m` in places of `2 ^ k`, to nearest, ties to even. -/
def nearest (m k : ℕ) : ℕ :=
  if 2 ^ k < 2 * (m % 2 ^ k) ∨ (2 ^ k = 2 * (m % 2 ^ k) ∧ (m / 2 ^ k) % 2 = 1) then
    m / 2 ^ k + 1
  else
    m / 2 ^ k

theorem lt_two_pow_shift (m : ℕ) : m < 2 ^ (F.precision + F.shift m) :=
  lt_of_lt_of_le Nat.lt_log2_self (Nat.pow_le_pow_right (by decide) (by unfold shift; omega))

theorem shift_le_of_lt {m k : ℕ} (hk : F.precision ≤ k) (h : m < 2 ^ k) :
    F.shift m ≤ k - F.precision := by
  unfold shift
  by_cases hm : m = 0
  · have hzero : (0 : ℕ).log2 = 0 := by decide
    have hprecision := F.precision_pos
    rw [hm, hzero]
    omega
  · have hlog : m.log2 < k := (Nat.log2_lt hm).mpr h
    omega

theorem two_pow_le_div_shift {m : ℕ} (h : 0 < F.shift m) :
    2 ^ (F.precision - 1) ≤ m / 2 ^ F.shift m := by
  have hlog : F.precision - 1 + F.shift m = m.log2 := by
    have hprecision := F.precision_pos
    unfold shift at h ⊢
    omega
  have hm : m ≠ 0 := by
    intro hm
    have hzero : (0 : ℕ).log2 = 0 := by decide
    have hprecision := F.precision_pos
    rw [hm, hzero] at hlog
    rw [hm] at h
    unfold shift at h
    rw [hzero] at h
    omega
  rw [Nat.le_div_iff_mul_le (by positivity), ← pow_add, hlog]
  exact Nat.log2_self_le hm

theorem div_le_nearest (m k : ℕ) : m / 2 ^ k ≤ nearest m k := by
  unfold nearest
  split_ifs
  · omega
  · omega

theorem nearest_shift_le (m : ℕ) : nearest m (F.shift m) ≤ 2 ^ F.precision := by
  have hdiv : m / 2 ^ F.shift m < 2 ^ F.precision := by
    rw [Nat.div_lt_iff_lt_mul (by positivity), ← pow_add]
    exact F.lt_two_pow_shift m
  unfold nearest
  split_ifs
  · omega
  · omega

/-- Rounding is off by half of the last place at most. -/
theorem nearest_error (m k : ℕ) :
    2 * (nearest m k * 2 ^ k) ≤ 2 * m + 2 ^ k ∧ 2 * m ≤ 2 * (nearest m k * 2 ^ k) + 2 ^ k := by
  have hdiv : m / 2 ^ k * 2 ^ k + m % 2 ^ k = m := Nat.div_add_mod' m (2 ^ k)
  have hmod : m % 2 ^ k < 2 ^ k := Nat.mod_lt m (by positivity)
  unfold nearest
  split_ifs with h
  · have hhalf : 2 ^ k ≤ 2 * (m % 2 ^ k) := by
      rcases h with h | ⟨h, _⟩
      · exact Nat.le_of_lt h
      · exact Nat.le_of_eq h
    rw [Nat.add_mul, Nat.one_mul]
    omega
  · have hhalf : 2 * (m % 2 ^ k) ≤ 2 ^ k := by
      by_contra hc
      exact h (Or.inl (by omega))
    omega

/-- A number whose last place is kept is not changed. -/
theorem nearest_exact {m k : ℕ} (h : 2 ^ k ∣ m) : nearest m k = m / 2 ^ k := by
  have hpos : 0 < 2 ^ k := by positivity
  have hmod : m % 2 ^ k = 0 := Nat.mod_eq_zero_of_dvd h
  unfold nearest
  rw [hmod, if_neg (by omega)]

/-- Where the tie or the excess carries, the quotient goes up by one. -/
theorem nearest_up {m k : ℕ} (h : 2 ^ k ≤ 2 * (m % 2 ^ k)) (hodd : (m / 2 ^ k) % 2 = 1) :
    nearest m k = m / 2 ^ k + 1 := by
  unfold nearest
  rw [if_pos (by omega)]

/-- The numbers that round to less than a power of two are those that stay below
    it by more than half of the last place before it. -/
theorem nearest_lt_two_pow_iff (m i : ℕ) :
    nearest m (F.shift m) * 2 ^ F.shift m < 2 ^ (F.precision + 1 + i) ↔
      m + 2 ^ i < 2 ^ (F.precision + 1 + i) := by
  have hprecision := F.precision_pos
  have htop : 2 ^ (F.precision + 1 + i) = 2 ^ F.precision * 2 ^ (i + 1) := by
    rw [← pow_add]
    congr 1
    omega
  have hplace : 2 ^ (i + 1) = 2 * 2 ^ i := by rw [pow_succ, Nat.mul_comm]
  have hpos : 0 < 2 ^ i := by positivity
  constructor
  · intro h
    by_contra hc
    by_cases hm : m < 2 ^ (F.precision + 1 + i)
    · -- The last place is `2 ^ (i + 1)`, and the quotient is all ones.
      have hnonzero : m ≠ 0 := by
        have hle : 2 ^ i < 2 ^ (F.precision + 1 + i) :=
          Nat.pow_lt_pow_right (by decide) (by omega)
        omega
      have hlog : m.log2 = F.precision + i := by
        rw [Nat.log2_eq_iff hnonzero]
        have hhalf : 2 ^ (F.precision + 1 + i) = 2 * 2 ^ (F.precision + i) := by
          rw [← pow_succ']
          congr 1
          omega
        have hle : 2 ^ i ≤ 2 ^ (F.precision + i) := Nat.pow_le_pow_right (by decide) (by omega)
        rw [show F.precision + i + 1 = F.precision + 1 + i by omega]
        omega
      have hshift : F.shift m = i + 1 := by
        unfold shift
        omega
      have hsplit : (2 ^ F.precision - 1) * 2 ^ (i + 1) + 2 ^ (i + 1)
          = 2 ^ F.precision * 2 ^ (i + 1) := by
        rw [Nat.sub_mul, Nat.one_mul]
        exact Nat.sub_add_cancel (Nat.le_mul_of_pos_left _ (by positivity))
      have hdiv : m / 2 ^ (i + 1) = 2 ^ F.precision - 1 := by
        refine Nat.div_eq_of_lt_le (by omega) ?_
        rw [Nat.sub_add_cancel Nat.one_le_two_pow]
        omega
      have hmod : m % 2 ^ (i + 1) + (2 ^ F.precision - 1) * 2 ^ (i + 1) = m := by
        rw [← hdiv]
        exact Nat.mod_add_div' m _
      have hodd : (2 ^ F.precision - 1) % 2 = 1 := by
        have heven : 2 ^ F.precision = 2 * 2 ^ (F.precision - 1) := by
          rw [← pow_succ', Nat.sub_add_cancel hprecision]
        have hone : 0 < 2 ^ (F.precision - 1) := by positivity
        omega
      have hup : nearest m (i + 1) = 2 ^ F.precision := by
        rw [nearest_up (by omega) (by rw [hdiv]; exact hodd), hdiv]
        exact Nat.sub_add_cancel Nat.one_le_two_pow
      rw [hshift, hup] at h
      omega
    · have hlarge : F.precision + 1 + i ≤ m.log2 :=
        (Nat.le_log2 (by omega)).mpr (Nat.le_of_not_lt hm)
      have hshift : 0 < F.shift m := by
        unfold shift
        omega
      have hlow := le_trans (F.two_pow_le_div_shift hshift) (div_le_nearest m _)
      have hpow : 2 ^ (F.precision + 1 + i) ≤ 2 ^ (F.precision - 1) * 2 ^ F.shift m := by
        rw [← pow_add]
        refine Nat.pow_le_pow_right (by decide) ?_
        unfold shift
        omega
      exact absurd (lt_of_lt_of_le h hpow)
        (Nat.not_lt.mpr (Nat.mul_le_mul_right _ hlow))
  · intro h
    have hshift := F.shift_le_of_lt (m := m) (k := F.precision + 1 + i) (by omega) (by omega)
    have hlast : 2 ^ F.shift m ≤ 2 ^ (i + 1) := Nat.pow_le_pow_right (by decide) (by omega)
    have herror := (nearest_error m (F.shift m)).1
    omega

/-- Rounding does not pass a power of two. -/
theorem nearest_le_two_pow {m j : ℕ} (hj : F.precision ≤ j) (h : m ≤ 2 ^ j) :
    nearest m (F.shift m) * 2 ^ F.shift m ≤ 2 ^ j := by
  rcases Nat.lt_or_eq_of_le h with hlt | heq
  · have hshift := F.shift_le_of_lt hj hlt
    calc nearest m (F.shift m) * 2 ^ F.shift m
        ≤ 2 ^ F.precision * 2 ^ F.shift m := Nat.mul_le_mul_right _ (F.nearest_shift_le m)
      _ = 2 ^ (F.precision + F.shift m) := (pow_add 2 _ _).symm
      _ ≤ 2 ^ j := Nat.pow_le_pow_right (by decide) (by omega)
  · have hdvd : 2 ^ F.shift m ∣ m := by
      have hprecision := F.precision_pos
      have hle := F.shift_le_of_lt (m := m) (k := j + 1) (by omega)
        (by rw [heq]; exact Nat.pow_lt_pow_right (by decide) (by omega))
      rw [heq] at hle ⊢
      exact pow_dvd_pow 2 (by omega)
    rw [nearest_exact hdvd, Nat.div_mul_cancel hdvd]
    exact h

theorem canonical_nearest {m : ℕ} (hs : nearest m (F.shift m) < 2 ^ F.precision)
    (he : F.shift m ≤ F.maxExponent) :
    F.Canonical (nearest m (F.shift m)) (F.shift m) := by
  refine ⟨hs, he, ?_⟩
  by_cases hzero : F.shift m = 0
  · exact Or.inl hzero
  · have hle := F.two_pow_le_div_shift (Nat.pos_of_ne_zero hzero)
    exact Or.inr (le_trans hle (div_le_nearest m _))

theorem canonical_carry {e : ℕ} (he : e ≤ F.maxExponent) :
    F.Canonical (2 ^ (F.precision - 1)) e :=
  ⟨Nat.pow_lt_pow_right (by decide) (Nat.sub_lt F.precision_pos (by decide)), he, Or.inr le_rfl⟩

/-- The number of the format nearest to a whole number of smallest places, ties
    to even; past the exponent range it is an infinity. -/
def round (negative : Bool) (m : ℕ) : Binary F :=
  if hs : nearest m (F.shift m) < 2 ^ F.precision then
    if he : F.shift m ≤ F.maxExponent then
      .finite negative (nearest m (F.shift m)) (F.shift m) (F.canonical_nearest hs he)
    else
      .infinity negative
  else
    -- The carry out of the significand moves the exponent.
    if he : F.shift m + 1 ≤ F.maxExponent then
      .finite negative (2 ^ (F.precision - 1)) (F.shift m + 1) (F.canonical_carry he)
    else
      .infinity negative

/-- Below the exponent range rounding gives a number. -/
theorem round_finite (negative : Bool) {m : ℕ} (h : F.shift m < F.maxExponent) :
    (F.round negative m).isFinite = true ∧
      (F.round negative m).units = signed negative (nearest m (F.shift m) * 2 ^ F.shift m) := by
  unfold round
  by_cases hs : nearest m (F.shift m) < 2 ^ F.precision
  · rw [dif_pos hs, dif_pos (by omega)]
    exact ⟨rfl, rfl⟩
  · rw [dif_neg hs, dif_pos (by omega)]
    refine ⟨rfl, ?_⟩
    have hcarry : nearest m (F.shift m) = 2 ^ F.precision :=
      Nat.le_antisymm (F.nearest_shift_le m) (Nat.le_of_not_lt hs)
    have hprecision : F.precision - 1 + (F.shift m + 1) = F.precision + F.shift m := by
      have hpos := F.precision_pos
      omega
    show signed negative (2 ^ (F.precision - 1) * 2 ^ (F.shift m + 1)) = _
    rw [hcarry, ← pow_add, ← pow_add, hprecision]

/-- Rounding keeps zero and what is not zero. -/
theorem nearest_shift_eq_zero_iff (m : ℕ) : nearest m (F.shift m) = 0 ↔ m = 0 := by
  constructor
  · intro h
    by_cases hshift : F.shift m = 0
    · have hexact : nearest m 0 = m / 2 ^ 0 := nearest_exact (one_dvd m)
      rw [hshift, hexact] at h
      simpa using h
    · have hle := F.two_pow_le_div_shift (Nat.pos_of_ne_zero hshift)
      have hpos : 0 < 2 ^ (F.precision - 1) := by positivity
      have hnearest := div_le_nearest m (F.shift m)
      omega
  · intro h
    rw [h, nearest_exact (dvd_zero _), Nat.zero_div]

end Format

/-! ## Integers -/

/-- The number of the format nearest to an integer. -/
@[irreducible] def ofInt (F : Format) (n : ℤ) : Binary F :=
  F.round (decide (n < 0)) (2 ^ F.unit * n.natAbs)

/-- Integers up to the precision convert exactly. -/
theorem ofInt_exact {n : ℤ} (h : n.natAbs ≤ 2 ^ F.precision) :
    (ofInt F n).isFinite = true ∧ (ofInt F n).units = n * 2 ^ F.unit := by
  have hprecision := F.precision_pos
  have hunit := F.unit_lt
  have hdvd : F.shift (2 ^ F.unit * n.natAbs) < F.maxExponent ∧
      2 ^ F.shift (2 ^ F.unit * n.natAbs) ∣ 2 ^ F.unit * n.natAbs := by
    rcases Nat.lt_or_eq_of_le h with hlt | heq
    · have hshift := F.shift_le_of_lt (m := 2 ^ F.unit * n.natAbs)
        (k := F.unit + F.precision) (by omega) (by
          rw [pow_add]
          exact Nat.mul_lt_mul_of_pos_left hlt (by positivity))
      exact ⟨by omega, dvd_mul_of_dvd_left (pow_dvd_pow 2 (by omega)) _⟩
    · have hshift := F.shift_le_of_lt (m := 2 ^ F.unit * n.natAbs)
        (k := F.unit + F.precision + 1) (by omega) (by
          rw [heq, ← pow_add]
          exact Nat.pow_lt_pow_right (by decide) (by omega))
      rw [heq, ← pow_add] at hshift ⊢
      exact ⟨by omega, pow_dvd_pow 2 (by omega)⟩
  rcases F.round_finite (decide (n < 0)) hdvd.1 with ⟨hfinite, hunits⟩
  unfold ofInt
  refine ⟨hfinite, ?_⟩
  rw [hunits, Format.nearest_exact hdvd.2, Nat.div_mul_cancel hdvd.2, Nat.mul_comm, signed_mul,
    signed_decide]
  push_cast
  rfl

/-- The remainder of truncating division, with the sign of the dividend. It is
    a number of the format, so rounding it changes nothing. -/
def fmod : Binary F → Binary F → Binary F
  | .finite negative significand exponent _, .finite _ significand' exponent' _ =>
    if significand' = 0 then
      .nan
    else
      F.round negative ((significand * 2 ^ exponent) % (significand' * 2 ^ exponent'))
  | x@(.finite ..), .infinity _ => x
  | _, _ => .nan

/-- Equality of numbers: zeros of either sign are equal and NaN equals nothing. -/
def ieeeEq : Binary F → Binary F → Bool
  | x@(.finite ..), y@(.finite ..) => x.units == y.units
  | .infinity negative, .infinity negative' => negative == negative'
  | _, _ => false

/-- The integer part, for a finite number. -/
def trunc (x : Binary F) : ℤ := x.units.tdiv (2 ^ F.unit)

theorem one_le_two_pow_precision (F : Format) : 1 ≤ 2 ^ F.precision := Nat.one_le_two_pow

/-- The remainder by one tells whether a number is an integer. -/
theorem fmod_one_eq_zero_iff (x : Binary F) :
    (x.fmod (ofInt F 1)).ieeeEq (ofInt F 0) = true ↔
      x.isFinite = true ∧ (2 ^ F.unit : ℤ) ∣ x.units := by
  rcases ofInt_exact (F := F) (n := 1) (one_le_two_pow_precision F) with ⟨hone, honeUnits⟩
  rcases ofInt_exact (F := F) (n := 0) (Nat.zero_le _) with ⟨hzero, hzeroUnits⟩
  generalize ofInt F 1 = one at hone honeUnits ⊢
  generalize ofInt F 0 = zero at hzero hzeroUnits ⊢
  rcases one with _ | _ | ⟨negative₁, s₁, e₁, h₁⟩
  · exact absurd hone (by simp only [isFinite, Bool.false_eq_true, not_false_eq_true])
  · exact absurd hone (by simp only [isFinite, Bool.false_eq_true, not_false_eq_true])
  rcases zero with _ | _ | ⟨negative₀, s₀, e₀, h₀⟩
  · exact absurd hzero (by simp [isFinite])
  · exact absurd hzero (by simp [isFinite])
  cases x with
  | nan => simp [fmod, ieeeEq, isFinite]
  | infinity negative => simp [fmod, ieeeEq, isFinite]
  | finite negative s e h =>
      have hdivisor : s₁ * 2 ^ e₁ = 2 ^ F.unit := by
        have habs := congrArg Int.natAbs honeUnits
        simpa [units, Int.natAbs_pow] using habs
      have hne : s₁ ≠ 0 := by
        intro hs
        rw [hs, Nat.zero_mul] at hdivisor
        exact absurd hdivisor.symm (by positivity)
      have hshift : F.shift (s * 2 ^ e % 2 ^ F.unit) < F.maxExponent := by
        have hlt : s * 2 ^ e % 2 ^ F.unit < 2 ^ F.unit := Nat.mod_lt _ (by positivity)
        have hle := F.shift_le_of_lt (k := F.precision + F.unit) (by omega)
          (lt_of_lt_of_le hlt (Nat.pow_le_pow_right (by decide) (by omega)))
        have hunit := F.unit_lt
        omega
      rcases F.round_finite negative hshift with ⟨hfinite, hunits⟩
      have hround : (F.round negative (s * 2 ^ e % 2 ^ F.unit)).units = 0 ↔
          2 ^ F.unit ∣ s * 2 ^ e := by
        rw [hunits, ← Int.natAbs_eq_zero, signed_natAbs, Nat.mul_eq_zero,
          F.nearest_shift_eq_zero_iff, Nat.dvd_iff_mod_eq_zero]
        simp
      have hdvd : (2 ^ F.unit : ℤ) ∣ (finite negative s e h : Binary F).units ↔
          2 ^ F.unit ∣ s * 2 ^ e := by
        rw [← Int.natAbs_dvd_natAbs]
        simp [units, Int.natAbs_pow]
      rw [fmod, if_neg hne, hdivisor, hdvd, ← hround]
      generalize F.round negative (s * 2 ^ e % 2 ^ F.unit) = r at hfinite ⊢
      cases r with
      | nan => exact absurd hfinite (by simp [isFinite])
      | infinity _ => exact absurd hfinite (by simp [isFinite])
      | finite _ _ _ _ =>
          simp only [ieeeEq, beq_iff_eq, isFinite, true_and]
          rw [hzeroUnits, zero_mul]

/-- Beyond the precision every number is an integer. -/
theorem dvd_units_of_le {x : Binary F} (h : 2 ^ (F.precision + F.unit) ≤ x.units.natAbs) :
    (2 ^ F.unit : ℤ) ∣ x.units := by
  rw [← Int.natAbs_dvd_natAbs, Int.natAbs_pow]
  cases x with
  | nan => exact dvd_zero _
  | infinity _ => exact dvd_zero _
  | finite negative s e hcanonical =>
      simp only [units, signed_natAbs] at h ⊢
      have hexponent : F.unit ≤ e := by
        by_contra hc
        have hle : s * 2 ^ e < 2 ^ (F.precision + F.unit) := by
          rw [pow_add]
          exact Nat.mul_lt_mul_of_lt_of_le hcanonical.1
            (Nat.pow_le_pow_right (by decide) (by omega)) (by positivity)
        omega
      exact dvd_mul_of_dvd_right (pow_dvd_pow 2 hexponent) s

/-- The integer part of an integer is the integer. -/
theorem trunc_mul {x : Binary F} (h : (2 ^ F.unit : ℤ) ∣ x.units) :
    x.trunc * 2 ^ F.unit = x.units := Int.tdiv_mul_cancel h

/-- When a number denotes a given integer. -/
theorem numeric_eq_int_iff (x : Binary F) (n : ℤ) :
    x.numeric = .rational n ↔ x.isFinite = true ∧ x.units = n * 2 ^ F.unit := by
  cases x with
  | nan => simp [numeric, isFinite]
  | infinity negative => simp [numeric, isFinite]
  | finite negative s e h =>
      have hpos : (2 ^ F.unit : ℚ) ≠ 0 := by positivity
      simp only [numeric, Numeric.rational.injEq, isFinite, true_and]
      rw [div_eq_iff hpos]
      exact_mod_cast Iff.rfl

/-! ## From one format to another -/

namespace Format

variable (F)

/-- How many places rounding gives up, and `k` in any case. -/
def shiftFrom (k m : ℕ) : ℕ := max k (F.shift m)

theorem canonical_nearest_from {k m : ℕ} (hs : nearest m (F.shiftFrom k m) < 2 ^ F.precision)
    (he : F.shiftFrom k m - k ≤ F.maxExponent) :
    F.Canonical (nearest m (F.shiftFrom k m)) (F.shiftFrom k m - k) := by
  refine ⟨hs, he, ?_⟩
  by_cases hk : F.shift m ≤ k
  · have hshift : F.shiftFrom k m = k := max_eq_left hk
    exact Or.inl (by rw [hshift, Nat.sub_self])
  · have hshift : F.shiftFrom k m = F.shift m := max_eq_right (by omega)
    rw [hshift]
    exact Or.inr (le_trans (F.two_pow_le_div_shift (by omega)) (div_le_nearest m _))

/-- The number of the format nearest to a whole number of places that are `2 ^ k` times
    smaller than its smallest. -/
def roundFrom (negative : Bool) (k m : ℕ) : Binary F :=
  if hs : nearest m (F.shiftFrom k m) < 2 ^ F.precision then
    if he : F.shiftFrom k m - k ≤ F.maxExponent then
      .finite negative (nearest m (F.shiftFrom k m)) (F.shiftFrom k m - k)
        (F.canonical_nearest_from hs he)
    else
      .infinity negative
  else
    if he : F.shiftFrom k m - k + 1 ≤ F.maxExponent then
      .finite negative (2 ^ (F.precision - 1)) (F.shiftFrom k m - k + 1) (F.canonical_carry he)
    else
      .infinity negative

variable {F}

/-- A number of the format is rounded to itself. -/
theorem roundFrom_exact (negative : Bool) (k : ℕ) {s e : ℕ} (h : F.Canonical s e) :
    F.roundFrom negative k (s * 2 ^ (e + k)) = .finite negative s e h := by
  have hpos : 0 < 2 ^ (e + k) := by positivity
  have hle : F.shift (s * 2 ^ (e + k)) ≤ e + k := by
    have hlt : s * 2 ^ (e + k) < 2 ^ (F.precision + (e + k)) := by
      rw [pow_add 2 F.precision]
      exact Nat.mul_lt_mul_of_pos_right h.1 hpos
    have hshift := F.shift_le_of_lt (by omega) hlt
    omega
  have hshift : F.shiftFrom k (s * 2 ^ (e + k)) = e + k := by
    unfold shiftFrom
    rcases h.2.2 with hzero | hlong
    · omega
    · -- the significand is long, so the last place is the one that it has
      have hprecision := F.precision_pos
      have hnonzero : s * 2 ^ (e + k) ≠ 0 := by
        have hs : 0 < 2 ^ (F.precision - 1) := by positivity
        exact Nat.mul_ne_zero (by omega) (by omega)
      have hlog : F.precision - 1 + (e + k) ≤ (s * 2 ^ (e + k)).log2 := by
        rw [Nat.le_log2 hnonzero, pow_add]
        exact Nat.mul_le_mul_right _ hlong
      have hge : e + k ≤ F.shift (s * 2 ^ (e + k)) := by
        unfold shift
        omega
      omega
  have hnearest : nearest (s * 2 ^ (e + k)) (F.shiftFrom k (s * 2 ^ (e + k))) = s := by
    rw [hshift, nearest_exact (dvd_mul_left _ _), Nat.mul_div_cancel _ hpos]
  unfold roundFrom
  have hexponent : F.shiftFrom k (s * 2 ^ (e + k)) - k = e := by
    rw [hshift, Nat.add_sub_cancel]
  rw [dif_pos (by rw [hnearest]; exact h.1), dif_pos (by rw [hexponent]; exact h.2.1)]
  simp only [Binary.finite.injEq, true_and]
  exact ⟨hnearest, hexponent⟩

/-- A significand that is short enough can be made long, as far as the exponent goes. -/
theorem exists_canonical {m q : ℕ} (hm : m < 2 ^ F.precision) (hq : q ≤ F.maxExponent) :
    ∃ s e, F.Canonical s e ∧ s * 2 ^ e = m * 2 ^ q := by
  induction q generalizing m with
  | zero => exact ⟨m, 0, ⟨hm, hq, Or.inl rfl⟩, rfl⟩
  | succ q ih =>
      by_cases hlong : 2 ^ (F.precision - 1) ≤ m
      · exact ⟨m, q + 1, ⟨hm, hq, Or.inr hlong⟩, rfl⟩
      · have hprecision := F.precision_pos
        have hdouble : m * 2 < 2 ^ F.precision := by
          have hhalf : 2 ^ F.precision = 2 ^ (F.precision - 1) * 2 := by
            rw [← pow_succ, Nat.sub_add_cancel hprecision]
          omega
        rcases ih hdouble (by omega) with ⟨s, e, hcanonical, heq⟩
        refine ⟨s, e, hcanonical, ?_⟩
        rw [heq, pow_succ', Nat.mul_assoc]

end Format

variable {G : Format}

/-- The number of another format that is nearest, ties to even. -/
def convert (G : Format) : Binary F → Binary G
  | .nan => .nan
  | .infinity negative => .infinity negative
  | .finite negative significand exponent _ =>
    G.roundFrom negative F.unit (significand * 2 ^ exponent * 2 ^ G.unit)

/-- One format has every number of another. -/
structure Format.Wider (F G : Format) : Prop where
  precision_le : F.precision ≤ G.precision
  unit_le : F.unit ≤ G.unit
  maxExponent_le : F.maxExponent + (G.unit - F.unit) ≤ G.maxExponent

theorem convert_wider (hwider : F.Wider G) (negative : Bool) {s e : ℕ} (h : F.Canonical s e) :
    ∃ s' e' h', convert G (.finite negative s e h : Binary F) = .finite negative s' e' h' ∧
      s' * 2 ^ e' = s * 2 ^ (e + (G.unit - F.unit)) := by
  have hs : s < 2 ^ G.precision :=
    lt_of_lt_of_le h.1 (Nat.pow_le_pow_right (by decide) hwider.precision_le)
  have he : e + (G.unit - F.unit) ≤ G.maxExponent := by
    have hmax := hwider.maxExponent_le
    have hle := h.2.1
    omega
  rcases Format.exists_canonical hs he with ⟨s', e', h', heq⟩
  refine ⟨s', e', h', ?_, heq⟩
  have hunit := hwider.unit_le
  have hplaces : s * 2 ^ e * 2 ^ G.unit = s' * 2 ^ (e' + F.unit) := by
    rw [pow_add 2 e' F.unit, ← Nat.mul_assoc, heq, Nat.mul_assoc, Nat.mul_assoc, ← pow_add,
      ← pow_add]
    congr 2
    omega
  show G.roundFrom negative F.unit (s * 2 ^ e * 2 ^ G.unit) = _
  rw [hplaces]
  exact Format.roundFrom_exact negative F.unit h'

/-- A wider format denotes the same number. -/
theorem units_convert (hwider : F.Wider G) (x : Binary F) :
    (convert G x).units = x.units * 2 ^ (G.unit - F.unit) := by
  cases x with
  | nan => exact (zero_mul _).symm
  | infinity negative => exact (zero_mul _).symm
  | finite negative s e h =>
      rcases convert_wider hwider negative h with ⟨s', e', h', hconvert, heq⟩
      rw [hconvert]
      show signed negative (s' * 2 ^ e') = signed negative (s * 2 ^ e) * _
      rw [heq, pow_add, ← Nat.mul_assoc, signed_mul]
      push_cast
      rfl

theorem isFinite_convert (hwider : F.Wider G) (x : Binary F) :
    (convert G x).isFinite = x.isFinite := by
  cases x with
  | nan => rfl
  | infinity negative => rfl
  | finite negative s e h =>
      rcases convert_wider hwider negative h with ⟨s', e', h', hconvert, heq⟩
      rw [hconvert]
      rfl

/-- A wider format gives every number back. -/
theorem convert_convert (hwider : F.Wider G) (x : Binary F) : convert F (convert G x) = x := by
  cases x with
  | nan => rfl
  | infinity negative => rfl
  | finite negative s e h =>
      rcases convert_wider hwider negative h with ⟨s', e', h', hconvert, heq⟩
      have hunit := hwider.unit_le
      have hplaces : s' * 2 ^ e' * 2 ^ F.unit = s * 2 ^ (e + G.unit) := by
        rw [heq, Nat.mul_assoc, ← pow_add]
        congr 2
        omega
      rw [hconvert]
      show F.roundFrom negative G.unit (s' * 2 ^ e' * 2 ^ F.unit) = _
      rw [hplaces]
      exact Format.roundFrom_exact negative G.unit h

end Binary
