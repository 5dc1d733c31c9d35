import Substrata.Core.Convert

/-!
# Numbers

Which JS numbers become Swift numbers.

Swift has two types for what is one in JS, so `toJSConvertible` has to choose: a
number that is an integer becomes an `Int`, any other a `Double`. Whether it is
an integer is asked of the `Double`, by its remainder by one, and every double
from `2 ^ 53` on answers yes. `Int(d)` is a checked conversion. So the integers
that a `Double` holds and an `Int` does not are the numbers that stop the
process: all finite doubles from `2 ^ 63` on, and all below `-2 ^ 63`.

`Int.toJSValue` can make such a number. Beyond 32 bits `JS_NewInt64` casts to
`double`, and the cast rounds to 53 bits, so the last 512 values of `Int`
become `2 ^ 63`.

## Main definitions

* `JSNumber`: The values that `JS_IsNumber` accepts.
* `JSValue.numeric`, `JSConvertible.numeric`: What a number denotes.
* `IsInt64`: A number that is an `Int`.
* `InIntRange`: A number that is not out of the range of `Int`.
* `DecodesExactly`: Decoding completes with the same number.

## Theorems

* `toInt_integer`: What `Int(d)` does with an integral double.
* `decodesExactly_float64_iff`: Which doubles decode.
* `ofInt_inIntRange_iff`: Which integers a cast keeps in range.
* `decodesExactly_iff_inIntRange`: Which numbers decode, and which of those that
  `Int.toJSValue` makes.
-/

namespace Substrata

open Binary (binary64 Numeric)

/-- The values that `JS_IsNumber` accepts. -/
abbrev JSNumber := { v : JSValue // jsIsNumber v = true }

/-- The number that a JS value denotes. -/
def JSValue.numeric : JSValue → Numeric
  | .int word => .rational word.toInt
  | .float64 d => Binary.numeric d
  | _ => .nan

/-- The number that a Swift value denotes, if it is one. -/
def JSConvertible.numeric : JSConvertible → Option Numeric
  | .int n => some (.rational n.toInt)
  | .double d => some (Binary.numeric d)
  | _ => none

/-- Integral, and representable as `Int`. -/
def IsInt64 (x : Numeric) : Prop := ∃ n : Int64, x = .rational n.toInt

/-- Not a finite number beyond the range of `Int`. -/
def InIntRange : Numeric → Prop
  | .nan => True
  | .infinity _ => True
  | .rational q => -2 ^ 63 ≤ q ∧ q < 2 ^ 63

/-- `toJSConvertible` completes, whatever bound there is on its depth, with the
    same number: an `Int` where there is one, and else a `Double`. -/
def DecodesExactly (ext : Externals) (h : Heap) (v : JSValue) : Prop :=
  ∃ r, (∀ fuel, toJSConvertible ext h (fuel + 1) v = .ok (some r)) ∧
    r.numeric = some v.numeric ∧ ((∃ n, r = .int n) ↔ IsInt64 v.numeric)

variable (ext : Externals) (h : Heap)

/-! ## Doubles -/

theorem isInteger_iff (d : Double) :
    Double.isInteger d = true ↔ Binary.isFinite d = true ∧ (2 ^ binary64.unit : ℤ) ∣ d.units :=
  Binary.fmod_one_eq_zero_iff d

/-- The range of `Int`, counted in the smallest places of a double. -/
theorem inIntRange_iff {d : Double} (hfinite : Binary.isFinite d = true) :
    InIntRange (Binary.numeric d) ↔
      -2 ^ 63 * 2 ^ binary64.unit ≤ d.units ∧ d.units < 2 ^ 63 * 2 ^ binary64.unit := by
  have hpos : (0 : ℚ) < 2 ^ binary64.unit := by positivity
  cases d with
  | nan => exact absurd hfinite (by simp only [Binary.isFinite, Bool.false_eq_true, not_false_eq_true])
  | infinity _ => exact absurd hfinite (by simp only [Binary.isFinite, Bool.false_eq_true, not_false_eq_true])
  | finite negative s e hcanonical =>
      simp only [Binary.numeric, InIntRange]
      rw [le_div_iff₀ hpos, div_lt_iff₀ hpos]
      exact_mod_cast Iff.rfl

/-- What `Int(d)` does with an integral double. -/
theorem toInt_integer {d : Double} (hinteger : Double.isInteger d = true) :
    (InIntRange (Binary.numeric d) ∧
      ∃ n : Int64, Double.toInt d = .ok n ∧ Binary.numeric d = .rational n.toInt) ∨
    (¬ InIntRange (Binary.numeric d) ∧ Double.toInt d = .error .trap) := by
  rcases (isInteger_iff d).mp hinteger with ⟨hfinite, hdvd⟩
  have hpos : (0 : ℤ) < 2 ^ binary64.unit := by positivity
  have htrunc : Binary.trunc d * 2 ^ binary64.unit = d.units := Binary.trunc_mul hdvd
  have hrange : InIntRange (Binary.numeric d) ↔
      -2 ^ 63 ≤ Binary.trunc d ∧ Binary.trunc d < 2 ^ 63 := by
    rw [inIntRange_iff hfinite, ← htrunc, mul_le_mul_iff_left₀ hpos, mul_lt_mul_iff_left₀ hpos]
  unfold Double.toInt
  by_cases hin : InIntRange (Binary.numeric d)
  · rcases hrange.mp hin with ⟨hlow, hhigh⟩
    refine Or.inl ⟨hin, Int64.ofInt (Binary.trunc d), if_pos ⟨hfinite, hlow, hhigh⟩, ?_⟩
    rw [Int64.toInt_ofInt_of_le hlow hhigh]
    exact (Binary.numeric_eq_int_iff d _).mpr ⟨hfinite, htrunc.symm⟩
  · exact Or.inr ⟨hin, if_neg fun hc => hin (hrange.mpr hc.2)⟩

/-- A double that is no integer is in the range of `Int`, or not finite. -/
theorem inIntRange_of_not_isInteger {d : Double} (hinteger : ¬ Double.isInteger d = true) :
    InIntRange (Binary.numeric d) := by
  by_cases hfinite : Binary.isFinite d = true
  · rw [inIntRange_iff hfinite]
    by_contra hc
    refine hinteger ((isInteger_iff d).mpr ⟨hfinite, Binary.dvd_units_of_le ?_⟩)
    have hpow : (2 : ℤ) ^ (binary64.precision + binary64.unit) ≤ 2 ^ 63 * 2 ^ binary64.unit := by
      rw [← pow_add]
      exact pow_le_pow_right₀ (by decide) (by decide)
    have habs : ((2 ^ (binary64.precision + binary64.unit) : ℕ) : ℤ) ≤ d.units.natAbs := by
      rw [Nat.cast_pow, Nat.cast_ofNat]
      omega
    exact_mod_cast habs
  · cases d with
    | nan => exact trivial
    | infinity _ => exact trivial
    | finite _ _ _ _ => exact absurd rfl hfinite

theorem not_isInt64_of_not_isInteger {d : Double} (hinteger : ¬ Double.isInteger d = true) :
    ¬ IsInt64 (Binary.numeric d) := by
  rintro ⟨n, hn⟩
  rcases (Binary.numeric_eq_int_iff d _).mp hn with ⟨hfinite, hunits⟩
  exact hinteger ((isInteger_iff d).mpr ⟨hfinite, hunits ▸ dvd_mul_left _ _⟩)

/-! ## Decoding -/

/-- The number case, once the number is read. -/
theorem numberFromJSValue_eq {v : JSValue} {d : Double} (hv : jsIsNumber v = true)
    (hd : jsToFloat64 ext.toCoercions v = some d) :
    numberFromJSValue ext.toCoercions v =
      if Double.isInteger d then
        match Double.toInt d with
        | .error stop => .error stop
        | .ok n => .ok (some (.int n))
      else
        .ok (some (.double d)) := by
  unfold numberFromJSValue doubleFromJSValue
  rw [if_pos hv, if_pos hv, hd]
  rfl

/-- On a number only the conversion of numbers matters. -/
theorem toJSConvertible_number {v : JSValue} {d : Double} (hv : jsIsNumber v = true)
    (hd : jsToFloat64 ext.toCoercions v = some d) (fuel : ℕ) :
    toJSConvertible ext h (fuel + 1) v =
      if Double.isInteger d then
        match Double.toInt d with
        | .error stop => .error stop
        | .ok n => .ok (some (.int n))
      else
        .ok (some (.double d)) := by
  have hnumber := numberFromJSValue_eq ext hv hd
  have hne : numberFromJSValue ext.toCoercions v ≠ .ok none := by
    rw [hnumber]
    by_cases hinteger : Double.isInteger d = true
    · rw [if_pos hinteger]
      cases Double.toInt d with
      | error stop => simp only [ne_eq, reduceCtorEq, not_false_eq_true]
      | ok n => simp only [ne_eq, Except.ok.injEq, reduceCtorEq, not_false_eq_true]
    · rw [if_neg hinteger]
      simp only [ne_eq, Except.ok.injEq, reduceCtorEq, not_false_eq_true]
  rw [toJSConvertible_succ ext h fuel, primitiveFromJSValue_number _ hv, orNext_of_ne hne,
    hnumber]
  · rintro word rfl
    exact absurd hv (by simp only [jsIsNumber, Bool.false_eq_true, not_false_eq_true])
  · rintro rfl
    exact absurd hv (by simp only [jsIsNumber, Bool.false_eq_true, not_false_eq_true])

/-- A number decodes when its double is in the range of `Int`. -/
theorem decodesExactly_of_toFloat64 {v : JSValue} {d : Double} (hv : jsIsNumber v = true)
    (hd : jsToFloat64 ext.toCoercions v = some d) (hnumeric : v.numeric = Binary.numeric d) :
    DecodesExactly ext h v ↔ InIntRange v.numeric := by
  have hdecode := toJSConvertible_number ext h hv hd
  rw [hnumeric]
  by_cases hinteger : Double.isInteger d = true
  · rcases toInt_integer hinteger with ⟨hin, n, hn, heq⟩ | ⟨hout, htrap⟩
    · refine ⟨fun _ => hin, fun _ => ⟨.int n, ?_, ?_, ?_⟩⟩
      · intro fuel
        rw [hdecode, if_pos hinteger, hn]
      · rw [hnumeric, heq]
        rfl
      · rw [hnumeric, heq]
        exact ⟨fun _ => ⟨n, rfl⟩, fun _ => ⟨n, rfl⟩⟩
    · refine ⟨?_, fun hin => absurd hin hout⟩
      rintro ⟨r, hr, _⟩
      have hzero := hr 0
      rw [hdecode, if_pos hinteger, htrap] at hzero
      exact absurd hzero (by simp only [reduceCtorEq, not_false_eq_true])
  · refine ⟨fun _ => inIntRange_of_not_isInteger hinteger, fun _ => ⟨.double d, ?_, ?_, ?_⟩⟩
    · intro fuel
      rw [hdecode, if_neg hinteger]
    · rw [hnumeric]
      rfl
    · rw [hnumeric]
      constructor
      · rintro ⟨n, hn⟩
        exact absurd hn (by simp only [reduceCtorEq, not_false_eq_true])
      · intro hint
        exact absurd hint (not_isInt64_of_not_isInteger hinteger)

/-- Every integer of 32 bits is a double. -/
theorem numeric_ofInt_word (word : Int32) :
    Binary.numeric (Binary.ofInt binary64 word.toInt) = .rational word.toInt := by
  have hlow := word.le_toInt
  have hhigh := word.toInt_lt
  have hbound : word.toInt.natAbs ≤ 2 ^ binary64.precision := by
    have hpow : (2 : ℕ) ^ 31 ≤ 2 ^ binary64.precision := by decide
    omega
  exact (Binary.numeric_eq_int_iff _ _).mpr (Binary.ofInt_exact hbound)

/-- Which numbers decode. -/
theorem decodesExactly_number_iff (v : JSNumber) :
    DecodesExactly ext h v.1 ↔ InIntRange v.1.numeric := by
  rcases v with ⟨v, hv⟩
  cases v with
  | int word =>
      have hd : jsToFloat64 ext.toCoercions (.int word) =
          some (Binary.ofInt binary64 word.toInt) := by
        simp only [jsToFloat64, numberToFloat64]
      have hnumeric : (JSValue.int word).numeric =
          Binary.numeric (Binary.ofInt binary64 word.toInt) := by
        rw [numeric_ofInt_word]
        rfl
      exact decodesExactly_of_toFloat64 ext h hv hd hnumeric
  | float64 d => exact decodesExactly_of_toFloat64 ext h hv rfl rfl
  | _ => exact absurd hv (by simp only [jsIsNumber, Bool.false_eq_true, not_false_eq_true])

/-! ## What `Int.toJSValue` makes -/

/-- Rounding keeps an `Int` in range unless it is one of the last 512. -/
theorem ofInt_inIntRange_iff (n : Int64) :
    InIntRange (Binary.numeric (Binary.ofInt binary64 n.toInt)) ↔ n.toInt < 2 ^ 63 - 512 := by
  have hlow := n.le_toInt
  have hhigh := n.toInt_lt
  generalize n.toInt = k at hlow hhigh ⊢
  have hunit : (2 : ℕ) ^ (binary64.precision + 1 + (binary64.unit + 9))
      = 2 ^ binary64.unit * 2 ^ 63 := by
    have hexponent : binary64.precision + 1 + (binary64.unit + 9) = binary64.unit + 63 := rfl
    rw [hexponent, pow_add]
  have hhalf : (2 : ℕ) ^ (binary64.unit + 9) = 2 ^ binary64.unit * 512 := by
    have hnine : (2 : ℕ) ^ 9 = 512 := by norm_num
    rw [pow_add, hnine]
  have hpos : 0 < 2 ^ binary64.unit := by positivity
  have hmagnitude : 2 ^ binary64.unit * k.natAbs ≤ 2 ^ (binary64.unit + 63) := by
    rw [pow_add]
    exact Nat.mul_le_mul_left _ (by omega)
  have hshift : binary64.shift (2 ^ binary64.unit * k.natAbs) < binary64.maxExponent := by
    have hle := binary64.shift_le_of_lt (k := binary64.unit + 64) (by decide)
      (lt_of_le_of_lt hmagnitude (Nat.pow_lt_pow_right (by decide) (by decide)))
    exact lt_of_le_of_lt hle (by decide)
  rcases binary64.round_finite (decide (k < 0)) hshift with ⟨hfinite, hunits⟩
  have hbelow := binary64.nearest_lt_two_pow_iff (2 ^ binary64.unit * k.natAbs)
    (binary64.unit + 9)
  have hcap := binary64.nearest_le_two_pow (by decide) hmagnitude
  rw [hunit, hhalf, ← Nat.mul_add, Nat.mul_lt_mul_left hpos] at hbelow
  rw [pow_add] at hcap
  unfold Binary.ofInt
  rw [inIntRange_iff hfinite, hunits]
  generalize Binary.Format.nearest (2 ^ binary64.unit * k.natAbs)
    (binary64.shift (2 ^ binary64.unit * k.natAbs)) *
      2 ^ binary64.shift (2 ^ binary64.unit * k.natAbs) = r at hbelow hcap ⊢
  have hcast : ((2 ^ binary64.unit * 2 ^ 63 : ℕ) : ℤ) = 2 ^ 63 * 2 ^ binary64.unit := by
    push_cast
    exact mul_comm _ _
  unfold Binary.signed
  by_cases hneg : k < 0
  · rw [decide_eq_true hneg, if_pos rfl]
    omega
  · rw [decide_eq_false hneg, if_neg (by decide)]
    omega

theorem jsNewInt64_isNumber (n : Int64) : jsIsNumber (jsNewInt64 n) = true := by
  unfold jsNewInt64
  split_ifs
  · rfl
  · rfl

theorem jsNewInt64_inIntRange_iff (n : Int64) :
    InIntRange (jsNewInt64 n).numeric ↔ n.toInt < 2 ^ 63 - 512 := by
  unfold jsNewInt64
  by_cases h : -2 ^ 31 ≤ n.toInt ∧ n.toInt ≤ 2 ^ 31 - 1
  · rw [if_pos h]
    have hword : n.toInt32.toInt = n.toInt := by
      rw [Int64.toInt_toInt32]
      exact Int.bmod_eq_of_le (by omega) (by omega)
    have hin : InIntRange (.rational ((n.toInt32.toInt : ℤ) : ℚ)) := by
      rw [hword]
      constructor
      · have hle : (-2 ^ 63 : ℤ) ≤ n.toInt := by omega
        exact_mod_cast hle
      · have hlt : n.toInt < (2 ^ 63 : ℤ) := by omega
        exact_mod_cast hlt
    exact ⟨fun _ => by omega, fun _ => hin⟩
  · rw [if_neg h]
    exact ofInt_inIntRange_iff n

/-- A number decodes unless it is finite and out of the range of `Int`, and a
    number made from an `Int` decodes unless it is one of the last 512. -/
theorem decodesExactly_iff_inIntRange :
    (∀ v : JSNumber, DecodesExactly ext h v.1 ↔ InIntRange v.1.numeric) ∧
      ∀ n : Int64, DecodesExactly ext h (jsNewInt64 n) ↔ n.toInt < 2 ^ 63 - 512 := by
  refine ⟨decodesExactly_number_iff ext h, fun n => ?_⟩
  rw [decodesExactly_number_iff ext h ⟨jsNewInt64 n, jsNewInt64_isNumber n⟩]
  exact jsNewInt64_inIntRange_iff n

/-- The largest `Int` does not come back. -/
theorem exists_not_decodesExactly :
    ∃ (ext : Externals) (h : Heap), ¬ DecodesExactly ext h (jsNewInt64 Int64.maxValue) := by
  refine ⟨⟨⟨fun _ => .nan, fun _ => .exception⟩, fun _ => "", id⟩, ⟨[], 0, 0, 0, 0, 0⟩, ?_⟩
  intro hdecode
  have hnumber := jsNewInt64_isNumber Int64.maxValue
  have hrange := (decodesExactly_number_iff _ _ ⟨jsNewInt64 Int64.maxValue, hnumber⟩).mp hdecode
  have hlt := (jsNewInt64_inIntRange_iff Int64.maxValue).mp hrange
  exact absurd hlt (by decide)

end Substrata
