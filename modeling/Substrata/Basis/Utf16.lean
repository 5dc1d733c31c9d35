import Mathlib.Data.List.Basic
import Mathlib.Data.Char

/-!
# UTF-16

Strings of 16-bit code units beside strings of characters.

A list of code units need not be text: a high surrogate may stand without its
low one, or the other way about. `decode` is therefore partial, and `encode`
is total. What a program that crosses between the two needs is that text comes
back, `decode_encode`, and that different texts stay different,
`encode_injective`. The code unit zero is the one that C strings treat
specially, and `zero_mem_encode_iff` says that it appears exactly where the
text has that character.

## Main definitions

* `Utf16.encodeChar`: One character as one or two code units.
* `Utf16.encode`: A text as code units.
* `Utf16.decode`: The text of a list of code units, where it is one.

## Theorems

* `decode_encode`: Encoded text decodes to itself.
* `encode_injective`: Different texts have different code units.
* `zero_mem_encode_iff`: The zero unit stands for the zero character only.
* `zero_notMem_of_decode`: Units without zero decode to no zero character.
-/

namespace Utf16

/-- One character as code units: itself in the basic plane, a surrogate pair
    above it. -/
def encodeChar (c : Char) : List UInt16 :=
  if c.toNat < 0x10000 then
    [UInt16.ofNat c.toNat]
  else
    [UInt16.ofNat (0xD800 + (c.toNat - 0x10000) / 0x400),
      UInt16.ofNat (0xDC00 + (c.toNat - 0x10000) % 0x400)]

/-- A text as code units. -/
def encode (s : List Char) : List UInt16 := s.flatMap encodeChar

/-- The text of a list of code units; `none` where a surrogate stands alone. -/
def decode : List UInt16 → Option (List Char)
  | [] => some []
  | [u] => if u.toNat < 0xD800 ∨ 0xE000 ≤ u.toNat then some [Char.ofNat u.toNat] else none
  | u :: v :: rest =>
    if u.toNat < 0xD800 ∨ 0xE000 ≤ u.toNat then
      (decode (v :: rest)).map (Char.ofNat u.toNat :: ·)
    else if u.toNat < 0xDC00 ∧ 0xDC00 ≤ v.toNat ∧ v.toNat < 0xE000 then
      (decode rest).map
        (Char.ofNat (0x10000 + (u.toNat - 0xD800) * 0x400 + (v.toNat - 0xDC00)) :: ·)
    else
      none

theorem toNat_cases (c : Char) :
    c.toNat < 0xD800 ∨ (0xE000 ≤ c.toNat ∧ c.toNat < 0x110000) := by
  rcases c.valid with h | h
  · exact Or.inl h
  · exact Or.inr ⟨h.1, h.2⟩

/-- A unit that is no surrogate decodes to its own character. -/
theorem decode_cons_unit {u : UInt16} (h : u.toNat < 0xD800 ∨ 0xE000 ≤ u.toNat)
    (rest : List UInt16) : decode (u :: rest) = (decode rest).map (Char.ofNat u.toNat :: ·) := by
  cases rest with
  | nil => simp only [decode, if_pos h, Option.map_some]
  | cons v rest => rw [decode, if_pos h]

theorem toNat_ofNat {n : ℕ} (h : n < 0x10000) : (UInt16.ofNat n).toNat = n := by
  rw [UInt16.toNat_ofNat']
  exact Nat.mod_eq_of_lt h

/-- The units of one character decode to it. -/
theorem decode_encodeChar_append (c : Char) (rest : List UInt16) :
    decode (encodeChar c ++ rest) = (decode rest).map (c :: ·) := by
  unfold encodeChar
  by_cases h : c.toNat < 0x10000
  · have hunit := toNat_ofNat h
    rw [if_pos h, List.singleton_append, decode_cons_unit, hunit, Char.ofNat_toNat]
    rw [hunit]
    rcases toNat_cases c with hc | hc
    · exact Or.inl hc
    · exact Or.inr hc.1
  · have hlt : c.toNat < 0x110000 := by
      rcases toNat_cases c with hc | hc
      · omega
      · exact hc.2
    have hhigh := toNat_ofNat (n := 0xD800 + (c.toNat - 0x10000) / 0x400) (by omega)
    have hlow := toNat_ofNat (n := 0xDC00 + (c.toNat - 0x10000) % 0x400) (by omega)
    -- Splitting the offset into two surrogates loses nothing.
    have hvalue : 0x10000 + (0xD800 + (c.toNat - 0x10000) / 0x400 - 0xD800) * 0x400
        + (0xDC00 + (c.toNat - 0x10000) % 0x400 - 0xDC00) = c.toNat := by
      omega
    rw [if_neg h, List.cons_append, List.cons_append, List.nil_append, decode, hhigh, hlow,
      if_neg (by omega), if_pos (by omega), hvalue, Char.ofNat_toNat]

/-- Encoded text decodes to itself. -/
theorem decode_encode (s : List Char) : decode (encode s) = some s := by
  induction s with
  | nil => rfl
  | cons c s ih =>
      unfold encode at ih ⊢
      rw [List.flatMap_cons, decode_encodeChar_append, ih, Option.map_some]

/-- Different texts have different code units. -/
theorem encode_injective {s t : List Char} (h : encode s = encode t) : s = t := by
  have hdecode := congrArg decode h
  rw [decode_encode, decode_encode] at hdecode
  exact Option.some.inj hdecode

theorem zero_mem_encodeChar_iff (c : Char) : 0 ∈ encodeChar c ↔ c = '\x00' := by
  have hzero (n : ℕ) (hn : n < 0x10000) : (0 : UInt16) = UInt16.ofNat n ↔ n = 0 := by
    rw [← UInt16.toNat_inj, toNat_ofNat hn]
    exact eq_comm
  unfold encodeChar
  by_cases h : c.toNat < 0x10000
  · rw [if_pos h, List.mem_singleton, hzero _ h]
    constructor
    · intro hc
      rw [← Char.ofNat_toNat c, hc]
    · intro hc
      rw [hc]
      rfl
  · have hlt : c.toNat < 0x110000 := by
      rcases toNat_cases c with hc | hc
      · omega
      · exact hc.2
    have hne : c ≠ '\x00' := by
      intro hc
      rw [hc] at h
      exact h (by decide)
    rw [if_neg h, List.mem_cons, List.mem_singleton, hzero _ (by omega), hzero _ (by omega)]
    constructor
    · intro hc
      omega
    · intro hc
      exact absurd hc hne

/-- The zero unit stands for the zero character only. -/
theorem zero_mem_encode_iff (s : List Char) : 0 ∈ encode s ↔ '\x00' ∈ s := by
  unfold encode
  rw [List.mem_flatMap]
  constructor
  · rintro ⟨c, hc, hzero⟩
    rw [zero_mem_encodeChar_iff] at hzero
    rw [← hzero]
    exact hc
  · intro h
    exact ⟨'\x00', h, (zero_mem_encodeChar_iff _).mpr rfl⟩

theorem ofNat_ne_zero {n : ℕ} (hvalid : n.isValidChar) (hn : n ≠ 0) : Char.ofNat n ≠ '\x00' := by
  intro h
  have hvalue := congrArg Char.toNat h
  unfold Char.ofNat at hvalue
  rw [dif_pos hvalid] at hvalue
  exact hn hvalue

/-- Units without zero decode to no zero character. -/
theorem zero_notMem_of_decode {units : List UInt16} {s : List Char} (h : decode units = some s)
    (hzero : 0 ∉ units) : '\x00' ∉ s := by
  have hne {u : UInt16} (hu : u ≠ 0) : u.toNat ≠ 0 := by
    intro hc
    exact hu (UInt16.toNat_inj.mp hc)
  fun_induction decode units generalizing s with
  | case1 =>
      rw [← Option.some.inj h]
      exact List.not_mem_nil
  | case2 u hunit =>
      rw [← Option.some.inj h, List.mem_singleton]
      rw [List.mem_singleton] at hzero
      have hlt := u.toNat_lt
      exact (ofNat_ne_zero (by unfold Nat.isValidChar; omega) (hne (Ne.symm hzero))).symm
  | case3 u hunit => exact absurd h (by simp only [reduceCtorEq, not_false_eq_true])
  | case4 u v rest hunit ih =>
      rw [List.mem_cons, not_or] at hzero
      rcases Option.map_eq_some_iff.mp h with ⟨s', hs', rfl⟩
      have hlt := u.toNat_lt
      rw [List.mem_cons, not_or]
      exact ⟨(ofNat_ne_zero (by unfold Nat.isValidChar; omega) (hne (Ne.symm hzero.1))).symm,
        ih hs' hzero.2⟩
  | case5 u v rest hunit hpair ih =>
      rw [List.mem_cons, List.mem_cons, not_or, not_or] at hzero
      rcases Option.map_eq_some_iff.mp h with ⟨s', hs', rfl⟩
      rw [List.mem_cons, not_or]
      exact ⟨(ofNat_ne_zero (by unfold Nat.isValidChar; omega) (by omega)).symm,
        ih hs' hzero.2.2⟩
  | case6 u v rest hunit hpair => exact absurd h (by simp only [reduceCtorEq, not_false_eq_true])

end Utf16
