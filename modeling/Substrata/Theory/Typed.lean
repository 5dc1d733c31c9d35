import Substrata.Core.Typed
import Substrata.Theory.Numbers
import Substrata.Theory.RoundTrip

/-!
# Numbers by their types

Which numbers come back with the type that they were sent with.

An `Int` does, up to `2 ^ 53`. The other three types meet a gap each. `UInt.toJSValue` goes
through 32 bits and traps beyond. A `Float` or a `Double` that is an integer comes back as
an `Int`, and `typed` has no conversion from `Int` to either: it returns `nil`. So `2.0` is
lost, and `2.5` is kept. And `typed(as: UInt.self)`, which should return `nil` on what is no
`UInt`, converts every `Int` with `UInt(s)`, which traps on a negative one.

Encoding a `Float` widens it to a double, and `typed` narrows it again; `Binary` has that
this gives every number back.

## Main definitions

* `NumericType.Moderate`: Finite, and up to `2 ^ 53`.
* `ComesBack`: Encoding, decoding and `typed` give the number back.
* `NumericType.Kept`: No integer of a floating-point type, and no `UInt` beyond 32 bits.

## Theorems

* `decodes_integer`, `decodes_fraction`: What numbers decode to.
* `comesBack_iff_kept`: Which numbers come back, and where `typed(as: UInt.self)` traps.
* `exists_not_comesBack`: `2.0` as a `Double`, and `-1`.
-/

namespace Substrata

open Binary (binary32 binary64)

namespace NumericType

/-- Finite, and up to `2 ^ 53`. -/
def Moderate : (T : NumericType) → T.Value → Prop
  | .int, n => n.toInt.natAbs ≤ 2 ^ 53
  | .uint, n => n.toNat ≤ 2 ^ 53
  | .float, x => Binary.isFinite x = true ∧ x.units.natAbs ≤ 2 ^ 53 * 2 ^ binary32.unit
  | .double, d => Binary.isFinite d = true ∧ d.units.natAbs ≤ 2 ^ 53 * 2 ^ binary64.unit

/-- An `Int`, a `UInt` of 32 bits, or a floating-point number that is no integer. -/
def Kept : (T : NumericType) → T.Value → Prop
  | .int, _ => True
  | .uint, n => n.toNat < 2 ^ 32
  | .float, x => ¬ (2 ^ binary32.unit : ℤ) ∣ x.units
  | .double, d => ¬ (2 ^ binary64.unit : ℤ) ∣ d.units

end NumericType

/-- Encoding completes, decoding completes with a value whatever bound there is on its depth,
    and `typed` gives the number back. -/
def ComesBack (ext : Externals) (h : Heap) (T : NumericType) (x : T.Value) : Prop :=
  ∃ v r, T.toJSValue x = .ok v ∧ (∀ fuel, toJSConvertible ext h (fuel + 1) v = .ok (some r)) ∧
    typed T r = .ok (some x)

/-- The value denotes a number that is a `UInt`. -/
def IsUInt (r : JSConvertible) : Prop := ∃ n : UInt64, r.numeric = some (.rational n.toNat)

/-- A negative `Int`. -/
def IsNegative (r : JSConvertible) : Prop := ∃ n : Int64, r = .int n ∧ n.toInt < 0

variable (ext : Externals) (h : Heap)

/-! ## What numbers decode to -/

/-- A number that is an `Int` decodes to it. -/
theorem decodes_integer {v : JSValue} (hv : jsIsNumber v = true) {n : Int64}
    (hn : v.numeric = .rational n.toInt) (fuel : ℕ) :
    toJSConvertible ext h (fuel + 1) v = .ok (some (.int n)) := by
  have hrange : InIntRange v.numeric := by
    rw [hn]
    have hlow := n.le_toInt
    have hhigh := n.toInt_lt
    exact ⟨by exact_mod_cast hlow, by exact_mod_cast hhigh⟩
  rcases (decodesExactly_number_iff ext h ⟨v, hv⟩).mpr hrange with ⟨r, hr, hnumeric, hint⟩
  rcases hint.mpr ⟨n, hn⟩ with ⟨m, rfl⟩
  have hm : (m.toInt : ℚ) = n.toInt := by
    have heq : some (Binary.Numeric.rational (m.toInt : ℚ)) = some (.rational n.toInt) :=
      hnumeric.trans (congrArg some hn)
    simpa using heq
  have hmn : m = n := Int64.toInt_inj.mp (by exact_mod_cast hm)
  rw [hr fuel, hmn]

/-- A double that is no integer decodes to itself. -/
theorem decodes_fraction {d : Double} (hfraction : ¬ (2 ^ binary64.unit : ℤ) ∣ d.units)
    (fuel : ℕ) :
    toJSConvertible ext h (fuel + 1) (jsNewFloat64 d) = .ok (some (.double d)) := by
  have hinteger : ¬ Double.isInteger d = true := fun hc =>
    hfraction ((isInteger_iff d).mp hc).2
  rw [toJSConvertible_number ext h rfl rfl fuel, if_neg hinteger]

/-- A moderate double that is an integer decodes to an `Int`. -/
theorem decodes_integral {d : Double} (hd : NumericType.Moderate .double d)
    (hinteger : (2 ^ binary64.unit : ℤ) ∣ d.units) :
    ∃ n : Int64, ∀ fuel,
      toJSConvertible ext h (fuel + 1) (jsNewFloat64 d) = .ok (some (.int n)) := by
  have hrange : InIntRange (Binary.numeric d) := by
    rw [inIntRange_iff hd.1]
    have hbound := hd.2
    have hcast : ((2 ^ binary64.unit : ℕ) : ℤ) = 2 ^ binary64.unit := by
      push_cast
      rfl
    have hpos : 0 < 2 ^ binary64.unit := by positivity
    rw [← hcast]
    generalize (2 ^ binary64.unit : ℕ) = places at hbound hpos ⊢
    omega
  rcases toInt_integer ((isInteger_iff d).mpr ⟨hd.1, hinteger⟩) with ⟨_, n, _, hn⟩ | ⟨hout, _⟩
  · exact ⟨n, decodes_integer ext h rfl hn⟩
  · exact absurd hrange hout

/-! ## The four types -/

theorem comesBack_int {n : Int64} (hn : NumericType.Moderate .int n) :
    ComesBack ext h .int n := by
  have hnumeric : (jsNewInt64 n).numeric = .rational n.toInt := by
    unfold jsNewInt64
    by_cases hword : -2 ^ 31 ≤ n.toInt ∧ n.toInt ≤ 2 ^ 31 - 1
    · have hint32 : n.toInt32.toInt = n.toInt := by
        rw [Int64.toInt_toInt32]
        exact Int.bmod_eq_of_le (by omega) (by omega)
      rw [if_pos hword]
      show Binary.Numeric.rational (n.toInt32.toInt : ℚ) = _
      rw [hint32]
    · rw [if_neg hword]
      exact (Binary.numeric_eq_int_iff _ _).mpr (Binary.ofInt_exact hn)
  exact ⟨_, .int n, rfl, decodes_integer ext h (jsNewInt64_isNumber n) hnumeric, rfl⟩

/-- What `JS_NewUint32` makes of 32 bits. -/
theorem jsNewUint32_spec (val : UInt32) :
    jsIsNumber (jsNewUint32 val) = true ∧
      (jsNewUint32 val).numeric = .rational ((val.toNat : ℤ) : ℚ) := by
  have hlt := val.toNat_lt
  unfold jsNewUint32
  by_cases hword : val.toNat ≤ 2 ^ 31 - 1
  · have htwice : 2 * val.toBitVec.toNat < 2 ^ 32 := by
      show 2 * val.toNat < 2 ^ 32
      omega
    have hint32 : val.toInt32.toInt = val.toNat := BitVec.toInt_eq_toNat_of_lt htwice
    rw [if_pos hword]
    refine ⟨rfl, ?_⟩
    show Binary.Numeric.rational (val.toInt32.toInt : ℚ) = _
    rw [hint32]
  · have hbound : (val.toNat : ℤ).natAbs ≤ 2 ^ binary64.precision := by
      have hpow : (2 : ℕ) ^ 32 ≤ 2 ^ binary64.precision := by decide
      omega
    rw [if_neg hword]
    exact ⟨rfl, (Binary.numeric_eq_int_iff _ _).mpr (Binary.ofInt_exact hbound)⟩

theorem comesBack_uint_iff (n : UInt64) :
    ComesBack ext h .uint n ↔ NumericType.Kept .uint n := by
  constructor
  · rintro ⟨v, r, hencode, -, -⟩
    by_contra hlarge
    have htrap : NumericType.toJSValue .uint n = .error .trap := if_neg hlarge
    rw [htrap] at hencode
    exact absurd hencode nofun
  · intro hsmall
    have hsmall : n.toNat < 2 ^ 32 := hsmall
    have hencode : NumericType.toJSValue .uint n = .ok (jsNewUint32 n.toUInt32) := if_pos hsmall
    rcases jsNewUint32_spec n.toUInt32 with ⟨hnumber, hnumeric⟩
    have htwice : 2 * n.toBitVec.toNat < 2 ^ 64 := by
      show 2 * n.toNat < 2 ^ 64
      omega
    have hint : n.toInt64.toInt = n.toNat := BitVec.toInt_eq_toNat_of_lt htwice
    have hword : n.toUInt32.toNat = n.toNat := by
      rw [UInt64.toNat_toUInt32]
      exact Nat.mod_eq_of_lt hsmall
    have hdecode : (jsNewUint32 n.toUInt32).numeric = .rational n.toInt64.toInt := by
      rw [hnumeric, hword, hint]
    refine ⟨_, .int n.toInt64, hencode, decodes_integer ext h hnumber hdecode, ?_⟩
    have hpositive : Int64.toUInt n.toInt64 = .ok n.toInt64.toUInt64 := if_pos (by omega)
    show (do
      let u ← Int64.toUInt n.toInt64
      .ok (some u) : Outcome (Option UInt64)) = _
    rw [hpositive]
    exact congrArg (fun u => Except.ok (some u)) (UInt64.toUInt64_toInt64 n)

theorem comesBack_double_iff {d : Double} (hd : NumericType.Moderate .double d) :
    ComesBack ext h .double d ↔ NumericType.Kept .double d := by
  constructor
  · rintro ⟨v, r, hencode, hdecode, htyped⟩ hinteger
    rw [← Except.ok.inj hencode] at hdecode
    rcases decodes_integral ext h hd hinteger with ⟨n, hn⟩
    have hr := (hdecode 0).symm.trans (hn 0)
    simp only [Except.ok.injEq, Option.some.injEq] at hr
    rw [hr] at htyped
    exact absurd htyped nofun
  · intro hfraction
    exact ⟨_, .double d, rfl, decodes_fraction ext h hfraction, rfl⟩

/-- Every `Float` is a `Double`. -/
theorem binary32_wider : binary32.Wider binary64 := ⟨by decide, by decide, by decide⟩

/-- A `Float` and the `Double` that it widens to. -/
theorem widen_spec (x : Single) :
    (NumericType.Moderate .float x → NumericType.Moderate .double (Binary.convert binary64 x)) ∧
      ((2 ^ binary64.unit : ℤ) ∣ (Binary.convert binary64 x).units ↔
        (2 ^ binary32.unit : ℤ) ∣ x.units) := by
  have hunits := Binary.units_convert binary32_wider x
  have hpos : (0 : ℤ) < 2 ^ (binary64.unit - binary32.unit) := by positivity
  have hexponent : binary32.unit + (binary64.unit - binary32.unit) = binary64.unit := rfl
  have hunit : (2 : ℤ) ^ binary64.unit
      = 2 ^ binary32.unit * 2 ^ (binary64.unit - binary32.unit) := by
    rw [← pow_add, hexponent]
  refine ⟨fun hx => ⟨(Binary.isFinite_convert binary32_wider x).trans hx.1, ?_⟩, ?_⟩
  · have hplaces : 2 ^ 53 * 2 ^ binary64.unit
        = 2 ^ 53 * 2 ^ binary32.unit * 2 ^ (binary64.unit - binary32.unit) := by
      rw [Nat.mul_assoc, ← pow_add 2 binary32.unit, hexponent]
    have habs : (2 : ℤ).natAbs = 2 := rfl
    rw [hunits, Int.natAbs_mul, Int.natAbs_pow, habs, hplaces]
    generalize 2 ^ (binary64.unit - binary32.unit) = factor
    exact Nat.mul_le_mul_right factor hx.2
  · rw [hunits, hunit]
    generalize (2 : ℤ) ^ (binary64.unit - binary32.unit) = factor at hpos ⊢
    exact mul_dvd_mul_iff_right hpos.ne'

theorem comesBack_float_iff {x : Single} (hx : NumericType.Moderate .float x) :
    ComesBack ext h .float x ↔ NumericType.Kept .float x := by
  rcases widen_spec x with ⟨hmoderate, hdvd⟩
  constructor
  · rintro ⟨v, r, hencode, hdecode, htyped⟩ hinteger
    rw [← Except.ok.inj hencode] at hdecode
    rcases decodes_integral ext h (hmoderate hx) (hdvd.mpr hinteger) with ⟨n, hn⟩
    have hr := (hdecode 0).symm.trans (hn 0)
    simp only [Except.ok.injEq, Option.some.injEq] at hr
    rw [hr] at htyped
    exact absurd htyped nofun
  · intro hfraction
    have hdouble : ¬ (2 ^ binary64.unit : ℤ) ∣ (Binary.convert binary64 x).units :=
      fun hc => hfraction (hdvd.mp hc)
    refine ⟨_, .double (Binary.convert binary64 x), rfl, decodes_fraction ext h hdouble, ?_⟩
    show Except.ok (some (Binary.convert binary32 (Binary.convert binary64 x))) = _
    rw [Binary.convert_convert binary32_wider]

/-- `typed(as: UInt.self)` on what is no `UInt`. -/
theorem typed_uint_iff {r : JSConvertible} (hr : ¬ IsUInt r) :
    typed .uint r = .ok none ↔ ¬ IsNegative r := by
  cases r with
  | int n =>
      have hnegative : n.toInt < 0 := by
        by_contra hpositive
        refine hr ⟨n.toUInt64, ?_⟩
        have hle : 0 ≤ n := Int64.le_iff_toInt_le.mpr (Int.not_lt.mp hpositive)
        have hn : (n.toUInt64.toNat : ℤ) = n.toInt := by
          rw [Int64.toNat_toUInt64_of_le hle]
          exact Int.toNat_of_nonneg (Int.not_lt.mp hpositive)
        show some (Binary.Numeric.rational (n.toInt : ℚ)) = _
        rw [← hn]
        rfl
      have htrap : Int64.toUInt n = .error .trap := if_neg (by omega)
      have htyped : typed .uint (.int n) = .error .trap := by
        show (do
          let u ← Int64.toUInt n
          .ok (some u) : Outcome (Option UInt64)) = _
        rw [htrap]
        rfl
      rw [htyped]
      exact ⟨fun hc => absurd hc nofun, fun hc => absurd ⟨n, rfl, hnegative⟩ hc⟩
  | _ => exact ⟨fun _ hc => by rcases hc with ⟨n, hn, _⟩; exact absurd hn nofun, fun _ => rfl⟩

/-- A moderate number comes back unless it is a `UInt` beyond 32 bits, or an integer of a
    floating-point type. `typed(as: UInt.self)` returns `nil` on what is no `UInt`, unless it
    is a negative `Int`. -/
theorem comesBack_iff_kept :
    (∀ (T : NumericType) (x : T.Value), T.Moderate x → (ComesBack ext h T x ↔ T.Kept x)) ∧
      ∀ r, ¬ IsUInt r → (typed .uint r = .ok none ↔ ¬ IsNegative r) := by
  refine ⟨fun T x hx => ?_, fun r hr => typed_uint_iff hr⟩
  cases T with
  | int => exact ⟨fun _ => trivial, fun _ => comesBack_int ext h hx⟩
  | uint => exact comesBack_uint_iff ext h x
  | float => exact comesBack_float_iff ext h hx
  | double => exact comesBack_double_iff ext h hx

/-- Five as a `UInt`, and a string. -/
theorem comesBack_iff_kept_five :
    (ComesBack Externals.simple Heap.builtins .uint 5 ↔ NumericType.Kept .uint 5) ∧
      (typed .uint (.string "five") = .ok none ↔ ¬ IsNegative (.string "five")) := by
  have hstring : ¬ IsUInt (.string "five") := fun ⟨n, hn⟩ => absurd hn nofun
  have hfive : NumericType.Moderate .uint 5 := by
    show (5 : UInt64).toNat ≤ 2 ^ 53
    decide
  exact ⟨(comesBack_iff_kept Externals.simple Heap.builtins).1 .uint 5 hfive,
    (comesBack_iff_kept Externals.simple Heap.builtins).2 _ hstring⟩

/-- `2.0` does not come back as a `Double`, and `-1` traps where a `UInt` is wanted. -/
theorem exists_not_comesBack :
    ∃ (ext : Externals) (h : Heap) (d : Double) (n : Int64),
      (NumericType.Moderate .double d ∧ ¬ ComesBack ext h .double d) ∧
        (toJSConvertible ext h 1 (jsNewInt64 n) = .ok (some (.int n)) ∧ ¬ IsUInt (.int n) ∧
          typed .uint (.int n) = .error .trap) := by
  have htwo : (2 : ℤ).natAbs ≤ 2 ^ binary64.precision := by decide
  rcases Binary.ofInt_exact (F := binary64) htwo with ⟨hfinite, hunits⟩
  have hmoderate : NumericType.Moderate .double (Binary.ofInt binary64 2) := by
    refine ⟨hfinite, ?_⟩
    have habs : (2 : ℤ).natAbs = 2 := rfl
    rw [hunits, Int.natAbs_mul, Int.natAbs_pow, habs]
    generalize 2 ^ binary64.unit = places
    exact Nat.mul_le_mul_right places (by decide)
  refine ⟨Externals.simple, Heap.builtins, Binary.ofInt binary64 2, -1, ⟨hmoderate, ?_⟩, ?_, ?_,
    rfl⟩
  · rw [comesBack_double_iff _ _ hmoderate]
    exact fun hkept => hkept (Dvd.intro_left 2 hunits.symm)
  · exact decodes_integer _ _ rfl rfl 0
  · rintro ⟨n, hn⟩
    have hq : ((-1 : ℤ) : ℚ) = (n.toNat : ℤ) := by
      have heq : some (Binary.Numeric.rational (((-1 : Int64).toInt : ℤ) : ℚ))
          = some (.rational n.toNat) := hn
      simpa using heq
    have hz : (-1 : ℤ) = n.toNat := by exact_mod_cast hq
    omega

end Substrata
