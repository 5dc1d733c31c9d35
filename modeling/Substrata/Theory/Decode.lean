import Substrata.Basis.Fallible
import Substrata.Theory.Numbers
import Substrata.Theory.Picture

/-!
# What decoding makes of a picture

`toJSConvertible` on the objects that encoding leaves.

Each of its attempts on an object is settled by the class, by the prototype
chain, or by a property that a lookup finds. For an array object only the second
counts, and it comes down to the elements. A plain object comes down to the last
attempt, unless the name of its class is not `Object`, and that name is read
through `constructor`, which a key may have replaced.

The bound on the depth is a number that has to be large enough. What is shown of
results holds for every bound.

## Main definitions

* `Heap.Below`: The built-in prototypes are older than some objects.
* `EntryFrom`: Where an entry of a result comes from.

## Theorems

* `toJSConvertible_integer`: An integer of `Int` decodes to itself.
* `elements_of_decode`: When an array decodes, and to what.
* `decode_dictionary`: A plain object whose class is `Object` decodes by its
  properties.
* `entries_of_decode`: Where the entries of a result come from.
* `getClassName_dictionary`: The class of a plain object.
-/

namespace Substrata

open Binary (binary64)

variable {ext : Externals} {h : Heap}

/-! ## Attempts -/

/-- A result comes from one of two attempts. -/
theorem orNext_eq_some {α : Type} {x y : Outcome (Option α)} {a : α}
    (heq : orNext x y = .ok (some a)) : x = .ok (some a) ∨ (x = .ok none ∧ y = .ok (some a)) := by
  rcases x with stop | _ | b
  · exact absurd heq (by simp only [orNext_error, reduceCtorEq, not_false_eq_true])
  · exact Or.inr ⟨rfl, heq⟩
  · exact Or.inl heq

/-! ## Leaves -/

theorem decode_string (fuel : ℕ) (s : String) :
    toJSConvertible ext h (fuel + 1) (.string (JSString.ofSwift s)) =
      .ok (some (.string (cString s).1)) := by
  rw [toJSConvertible_succ ext h fuel (fun _ => by simp only [ne_eq, reduceCtorEq, not_false_eq_true])
    (by simp only [ne_eq, reduceCtorEq, not_false_eq_true])]
  simp only [primitiveFromJSValue, nsNullFromJSValue, stringFromJSValue,
    JSString.toSwift_ofSwift, Option.map_some, orNext_none, orNext_some]

theorem decode_bool (fuel : ℕ) (b : Bool) :
    toJSConvertible ext h (fuel + 1) (jsNewBool b) = .ok (some (.bool b)) := by
  cases b <;> rfl

theorem decode_nsNull (fuel : ℕ) :
    toJSConvertible ext h (fuel + 1) JSValue.null = .ok (some .nsNull) := rfl

/-- An integer of `Int` decodes to itself. -/
theorem toJSConvertible_integer {v : JSValue} (hv : jsIsNumber v = true) (n : Int64)
    (hnumeric : v.numeric = .rational n.toInt) (fuel : ℕ) :
    toJSConvertible ext h (fuel + 1) v = .ok (some (.int n)) := by
  have hlow := n.le_toInt
  have hhigh := n.toInt_lt
  have hrange : InIntRange v.numeric := by
    rw [hnumeric]
    exact ⟨by exact_mod_cast hlow, by exact_mod_cast hhigh⟩
  rcases (decodesExactly_number_iff ext h ⟨v, hv⟩).mpr hrange with ⟨r, hr, hsame, hint⟩
  simp only at hr hsame hint
  rw [hnumeric] at hsame hint
  rcases hint.mpr ⟨n, rfl⟩ with ⟨m, rfl⟩
  simp only [JSConvertible.numeric, Option.some.injEq, Binary.Numeric.rational.injEq,
    Int.cast_inj] at hsame
  rw [hr fuel, Int64.toInt_inj.mp hsame]

/-- The word of an array's length decodes to an `Int`. -/
theorem decode_word (fuel : ℕ) (word : Int32) :
    toJSConvertible ext h (fuel + 1) (jsNewInt32 word) = .ok (some (.int word.toInt64)) := by
  refine toJSConvertible_integer rfl _ ?_ fuel
  rw [Int32.toInt_toInt64]
  rfl

theorem numberFromJSValue_word (word : Int32) :
    numberFromJSValue ext.toCoercions (jsNewInt32 word) = .ok (some (.int word.toInt64)) := by
  have hdecode : toJSConvertible ext Heap.builtins 1 (jsNewInt32 word) = _ := decode_word 0 word
  rw [toJSConvertible_number ext _ rfl rfl] at hdecode
  rw [numberFromJSValue_eq ext rfl rfl]
  exact hdecode

/-- An `Int` of 53 bits is handed over exactly. -/
theorem jsNewInt64_numeric {n : Int64} (hn : n.toInt.natAbs ≤ 2 ^ 53) :
    (jsNewInt64 n).numeric = .rational n.toInt := by
  unfold jsNewInt64
  by_cases hword : -2 ^ 31 ≤ n.toInt ∧ n.toInt ≤ 2 ^ 31 - 1
  · rw [if_pos hword]
    have hsmall : n.toInt32.toInt = n.toInt := by
      rw [Int64.toInt_toInt32]
      exact Int.bmod_eq_of_le (by omega) (by omega)
    simp only [jsNewInt32, JSValue.numeric, hsmall]
  · rw [if_neg hword]
    exact (Binary.numeric_eq_int_iff _ _).mpr (Binary.ofInt_exact hn)

theorem decode_int (fuel : ℕ) {n : Int64} (hn : n.toInt.natAbs ≤ 2 ^ 53) :
    toJSConvertible ext h (fuel + 1) (jsNewInt64 n) = .ok (some (.int n)) :=
  toJSConvertible_integer (jsNewInt64_isNumber n) n (jsNewInt64_numeric hn) fuel

theorem decode_double (fuel : ℕ) {d : Double} (hfraction : ¬ (2 ^ binary64.unit : ℤ) ∣ d.units) :
    toJSConvertible ext h (fuel + 1) (jsNewFloat64 d) = .ok (some (.double d)) := by
  rw [toJSConvertible_number ext h (v := jsNewFloat64 d) rfl rfl fuel,
    if_neg fun hinteger => hfraction ((isInteger_iff d).mp hinteger).2]

/-! ## Arrays -/

namespace Heap

/-- The built-in prototypes are older than the objects numbered from `b` on. -/
structure Below (h : Heap) (b : ℕ) : Prop where
  intact : h.Intact
  object : h.objectProto < b
  array : h.arrayProto < b

variable {b ref : ℕ}

/-- An array is no date. -/
theorem isInstanceOfDate_array (hbelow : h.Below b) (hlow : b ≤ ref) {values : List JSValue}
    (ho : h.objects[ref]? = some (arrayObject h.arrayProto values)) :
    h.isInstanceOfDate ref = false := by
  rcases hbelow.intact.object with ⟨o, hobject, hend, _⟩
  rcases hbelow.intact.array with ⟨a, harray, hproto⟩
  have hchain := protoChain_triple ho rfl harray hproto hobject hend
    (by have := hbelow.array; omega) (by have := hbelow.object; omega)
    hbelow.intact.object_ne_array.symm
  unfold isInstanceOfDate
  rw [hchain, decide_eq_false_iff_not, List.tail_cons, List.mem_cons, List.mem_singleton, not_or]
  exact ⟨hbelow.intact.date_ne_array, hbelow.intact.date_ne_object⟩

theorem hasClass_object {o : JSObject} (ho : h.objects[ref]? = some o) (classes : List ℕ) :
    h.hasClass classes (.object ref) = decide (o.classID ∈ classes) := by
  simp only [hasClass, ho]

/-- The length of an array is its word. -/
theorem getProperty_length {p : ℕ} {values : List JSValue}
    (ho : h.objects[ref]? = some (arrayObject p values)) :
    h.getProperty ref atomLength = .ok (jsNewInt32 (Int32.ofNat values.length)) := by
  have hname : atomLength = .name (JSString.ofSwift "length") := by decide +kernel
  refine getProperty_of_own (e := false) (w := true) ho ?_
  unfold JSObject.own
  rw [hname]
  simp only [arrayObject, hname, List.lookup_cons, beq_self_eq_true]

theorem getProperty_element {p : ℕ} {values : List JSValue} {i : ℕ} {v : JSValue}
    (ho : h.objects[ref]? = some (arrayObject p values)) (hi : i < 2 ^ 31)
    (hv : values[i]? = some v) : h.getProperty ref (Atom.ofIndex i) = .ok v := by
  refine getProperty_of_own (e := true) (w := true) ho ?_
  unfold Atom.ofIndex JSObject.own
  rw [if_pos (by omega)]
  simp only [arrayObject, hv]

end Heap

/-- Only the second attempt counts for an array object. -/
theorem decode_array_eq (ext : Externals) {b ref : ℕ} (hbelow : h.Below b) (hlow : b ≤ ref)
    {values : List JSValue} (ho : h.objects[ref]? = some (arrayObject h.arrayProto values))
    (fuel : ℕ) :
    ∃ rest, toJSConvertible ext h (fuel + 1) (.object ref) =
      orNext (match toJSConvertible ext h fuel (jsNewInt32 (Int32.ofNat values.length)) with
        | .error stop => .error stop
        | .ok (some (.int size)) =>
          if 0 ≤ size.toInt then
            match (List.range size.toInt.toNat).mapM
              (elementFromJSValue (toJSConvertible ext h fuel) h ref) with
            | .error stop => .error stop
            | .ok elements => .ok (some (.array elements))
          else
            .error .trap
        | .ok _ => .ok none) rest := by
  rw [toJSConvertible_object]
  unfold objectFromJSValue
  have harray : h.isArray (.object ref) = true := Heap.hasClass_object ho _
  have hdate : dateFromJSValue ext.toCoercions h (.object ref) = none := by
    simp only [dateFromJSValue, Heap.isInstanceOfDate_array hbelow hlow ho, Bool.false_eq_true,
      if_false]
  rw [hdate, orNext_none]
  refine ⟨_, congrArg (fun x => orNext x _) ?_⟩
  unfold arrayFromJSValue
  dsimp only
  rw [if_pos harray]
  generalize hread : h.getProperty ref Heap.atomLength = read
  rw [Heap.getProperty_length ho] at hread
  subst hread
  rfl

/-- Below the overflow the elements decode one by one. -/
theorem decode_array {b ref : ℕ} (hbelow : h.Below b) (hlow : b ≤ ref)
    {values : List JSValue} (ho : h.objects[ref]? = some (arrayObject h.arrayProto values))
    (hlength : values.length < 2 ^ 31) (fuel : ℕ) :
    toJSConvertible ext h (fuel + 2) (.object ref) =
      match (List.range values.length).mapM
        (elementFromJSValue (toJSConvertible ext h (fuel + 1)) h ref) with
      | .error stop => .error stop
      | .ok elements => .ok (some (.array elements)) := by
  have hword : (Int32.ofNat values.length).toInt64.toInt = values.length := by
    rw [Int32.toInt_toInt64, Int32.toInt_ofNat_of_lt hlength]
  rcases decode_array_eq ext hbelow hlow ho (fuel + 1) with ⟨rest, hrest⟩
  rw [hrest, decode_word]
  simp only
  rw [hword, if_pos (by omega), Int.toNat_natCast]
  cases (List.range values.length).mapM
      (elementFromJSValue (toJSConvertible ext h (fuel + 1)) h ref) with
  | error stop => rfl
  | ok elements => rfl

/-- The length that an `int` does not hold is negative, and the range of the
    loop traps. -/
theorem decode_array_overflow {b ref : ℕ} (hbelow : h.Below b) (hlow : b ≤ ref)
    {values : List JSValue} (ho : h.objects[ref]? = some (arrayObject h.arrayProto values))
    (hlength : values.length = 2 ^ 31) (fuel : ℕ) :
    toJSConvertible ext h (fuel + 2) (.object ref) = .error .trap := by
  have hword : (Int32.ofNat values.length).toInt64.toInt = -2 ^ 31 := by
    rw [hlength]
    decide +kernel
  rcases decode_array_eq ext hbelow hlow ho (fuel + 1) with ⟨rest, hrest⟩
  rw [hrest, decode_word]
  simp only
  rw [hword, if_neg (by decide)]
  rfl

/-- When an array decodes, and to what. -/
theorem elements_of_decode {b ref : ℕ} (hbelow : h.Below b) (hlow : b ≤ ref)
    {values : List JSValue} (ho : h.objects[ref]? = some (arrayObject h.arrayProto values))
    (hlength : values.length ≤ 2 ^ 31) {fuel : ℕ} {r : JSConvertible}
    (hdecode : toJSConvertible ext h fuel (.object ref) = .ok (some r)) :
    values.length < 2 ^ 31 ∧ ∃ fuel' elements, r = .array elements ∧
      elements.length = values.length ∧
      ∀ (i : ℕ) v y, values[i]? = some v → elements[i]? = some y →
        ∃ z, toJSConvertible ext h fuel' v = .ok z ∧ y = z.getD .nsNull := by
  match fuel with
  | 0 =>
      rw [toJSConvertible_zero] at hdecode
      simp only [reduceCtorEq] at hdecode
  | 1 =>
      rcases decode_array_eq ext hbelow hlow ho 0 with ⟨rest, hrest⟩
      rw [hrest, toJSConvertible_zero] at hdecode
      simp only [orNext_error, reduceCtorEq] at hdecode
  | fuel + 2 =>
      by_cases hlt : values.length < 2 ^ 31
      · refine ⟨hlt, fuel + 1, ?_⟩
        rw [decode_array hbelow hlow ho hlt] at hdecode
        cases hall : (List.range values.length).mapM
            (elementFromJSValue (toJSConvertible ext h (fuel + 1)) h ref) with
        | error stop =>
            rw [hall] at hdecode
            exact absurd hdecode (by simp only [reduceCtorEq, not_false_eq_true])
        | ok elements =>
            rw [hall] at hdecode
            simp only [Except.ok.injEq, Option.some.injEq] at hdecode
            rcases (Fallible.mapM_range_eq_ok_iff _ _ _).mp hall with ⟨hsize, helements⟩
            refine ⟨elements, hdecode.symm, hsize, fun i v y hv hy => ?_⟩
            have hi : i < values.length := (List.getElem?_eq_some_iff.mp hv).1
            have helement := helements i y hy
            unfold elementFromJSValue at helement
            rw [if_pos (by omega), Heap.getProperty_element ho (by omega) hv] at helement
            simp only at helement
            cases hz : toJSConvertible ext h (fuel + 1) v with
            | error stop =>
                rw [hz] at helement
                exact absurd helement (by simp only [reduceCtorEq, not_false_eq_true])
            | ok z =>
                rw [hz] at helement
                simp only [Except.ok.injEq] at helement
                exact ⟨z, rfl, helement.symm⟩
      · rw [decode_array_overflow hbelow hlow ho (by omega)] at hdecode
        exact absurd hdecode (by simp only [reduceCtorEq, not_false_eq_true])

/-! ## Plain objects -/

/-- The slot of a key. -/
theorem lookup_slots {entries : List (String × JSConvertible)} {values : List JSValue}
    (hfree : NulFree entries) (hnodup : (entries.map Prod.fst).Nodup) {i : ℕ}
    {e : String × JSConvertible} {v : JSValue} (he : entries[i]? = some e)
    (hv : values[i]? = some v) :
    (List.zipWith slot entries values).lookup (jsNewAtom e.1) = some (.value v true true) := by
  induction entries generalizing values i with
  | nil =>
      rw [List.getElem?_nil] at he
      exact absurd he (by simp only [reduceCtorEq, not_false_eq_true])
  | cons e' entries ih =>
      cases values with
      | nil =>
          rw [List.getElem?_nil] at hv
          exact absurd hv (by simp only [reduceCtorEq, not_false_eq_true])
      | cons v' values =>
          rw [List.map_cons, List.nodup_cons] at hnodup
          rw [List.zipWith_cons_cons, slot_eq, List.lookup_cons]
          cases i with
          | zero =>
              rw [List.getElem?_cons_zero, Option.some.injEq] at he hv
              rw [he, hv, beq_self_eq_true]
          | succ i =>
              rw [List.getElem?_cons_succ] at he hv
              have hmem := List.mem_of_getElem? he
              have hne : jsNewAtom e.1 ≠ jsNewAtom e'.1 := by
                intro heq
                refine hnodup.1 ?_
                rw [← jsNewAtom_inj (hfree e (List.mem_cons_of_mem _ hmem))
                  (hfree e' (List.mem_cons_self ..)) heq]
                exact List.mem_map_of_mem hmem
              rw [beq_eq_false_iff_ne.mpr hne]
              exact ih (fun e he => hfree e (List.mem_cons_of_mem _ he)) hnodup.2 he hv

section Dictionary

variable {b ref : ℕ} {entries : List (String × JSConvertible)} {values : List JSValue}

theorem own_dictionaryObject (p : ℕ) (atom : Atom) :
    (dictionaryObject p entries values).own atom = (List.zipWith slot entries values).lookup atom :=
  Heap.own_of_pointer rfl atom

/-- Looking a key up. -/
theorem getProperty_slot (ho : h.objects[ref]? = some (dictionaryObject h.objectProto entries values))
    (hfree : NulFree entries) (hnodup : (entries.map Prod.fst).Nodup) {i : ℕ}
    {e : String × JSConvertible} {v : JSValue} (he : entries[i]? = some e)
    (hv : values[i]? = some v) : h.getProperty ref (jsNewAtom e.1) = .ok v := by
  refine Heap.getProperty_of_own (e := true) (w := true) ho ?_
  rw [own_dictionaryObject]
  exact lookup_slots hfree hnodup he hv

theorem protoChain_dictionary (hbelow : h.Below b) (hlow : b ≤ ref)
    (ho : h.objects[ref]? = some (dictionaryObject h.objectProto entries values)) :
    h.protoChain ref = [ref, h.objectProto] := by
  rcases hbelow.intact.object with ⟨o, hobject, hend, _⟩
  exact Heap.protoChain_pair ho rfl hobject hend (by have := hbelow.object; omega)

/-- The class of a plain object without a key `constructor`. -/
theorem getClassName_dictionary (hbelow : h.Below b) (hlow : b ≤ ref)
    (ho : h.objects[ref]? = some (dictionaryObject h.objectProto entries values))
    (hnone : ∀ e ∈ entries, jsNewAtom e.1 ≠ atomConstructor) :
    getClassName h (.object ref) = .ok "Object" := by
  rcases hbelow.intact.object with ⟨o, hobject, _, _, _, cref, e, hown, f, hf, hcall, e', w, hname⟩
  -- The lookup goes on to `Object.prototype`.
  have hfind : h.findProperty ref atomConstructor = some (.value (.object cref) e true) := by
    unfold Heap.findProperty
    rw [protoChain_dictionary hbelow hlow ho, List.findSome?_cons, Heap.own_eq ho,
      own_dictionaryObject, lookup_slots_eq_none hnone, List.findSome?_cons, Heap.own_eq hobject,
      hown]
  have hhas : h.hasProperty ref atomConstructor = true := by
    unfold Heap.hasProperty
    rw [hfind, Option.isSome_some]
  have hget : h.getProperty ref atomConstructor = .ok (.object cref) := by
    unfold Heap.getProperty
    rw [hfind]
  have hfunction : h.isFunction (.object cref) = true :=
    (Heap.hasClass_object hf _).trans (decide_eq_true hcall)
  have hstring := Heap.getProperty_of_own hf hname
  unfold atomConstructor at hhas hget
  unfold atomName at hstring
  simp only [getClassName, hhas, if_true, hget, getFunctionName, hfunction, hstring,
    stringFromJSValue, JSString.toSwift_ofSwift, Option.getD_some]
  rw [(cString_eq_self_iff "Object").mpr (by decide +kernel)]

/-- The class where a key `constructor` holds anything but a function. -/
theorem getClassName_constructor (ho : h.objects[ref]? = some (dictionaryObject h.objectProto entries values))
    (hfree : NulFree entries) (hnodup : (entries.map Prod.fst).Nodup) {i : ℕ}
    {e : String × JSConvertible} {v : JSValue} (he : entries[i]? = some e)
    (hv : values[i]? = some v) (hkey : e.1 = "constructor") (hfunction : h.isFunction v = false) :
    getClassName h (.object ref) = .ok "unknown" := by
  have hget := getProperty_slot ho hfree hnodup he hv
  have hhas : h.hasProperty ref (jsNewAtom e.1) = true := by
    unfold Heap.hasProperty
    rw [Heap.findProperty_of_own ho ((own_dictionaryObject _ _).trans
      (lookup_slots hfree hnodup he hv)), Option.isSome_some]
  rw [hkey] at hget hhas
  simp only [getClassName, hhas, if_true, hget]
  cases v with
  | object cref => simp only [getFunctionName, hfunction, Bool.false_eq_true, if_false]
  | _ => rfl

/-- A plain object lists its keys. -/
theorem ownPropertyNames_dictionary
    (ho : h.objects[ref]? = some (dictionaryObject h.objectProto entries values))
    (hlength : values.length = entries.length) :
    h.ownPropertyNames ref = entries.map fun e => jsNewAtom e.1 := by
  have hslots : ∀ (es : List (String × JSConvertible)) (vs : List JSValue),
      vs.length = es.length →
        ((List.zipWith slot es vs).filter fun p => Property.isEnumerable p.2).map Prod.fst =
          es.map fun e => jsNewAtom e.1 := by
    intro es
    induction es with
    | nil =>
        intro vs _
        rw [List.zipWith_nil_left]
        rfl
    | cons e es ih =>
        intro vs hvs
        cases vs with
        | nil => exact absurd hvs (by simp only [List.length_nil, List.length_cons, reduceCtorEq,
            not_false_eq_true])
        | cons v vs =>
            have hvs' : vs.length = es.length := Nat.succ.inj hvs
            rw [List.zipWith_cons_cons, List.filter_cons_of_pos (by simp only [slot,
              Property.isEnumerable]), List.map_cons, List.map_cons, ih vs hvs', slot_fst]
  unfold Heap.ownPropertyNames
  rw [ho]
  simp only [dictionaryObject, List.nil_append]
  exact hslots entries values hlength

end Dictionary

/-- The loop over the keys collects the entries in order. -/
theorem foldlM_entries {decode : JSValue → Outcome (Option JSConvertible)} {ref : ℕ}
    {rest : List (String × JSConvertible)}
    (hdecode : ∀ e ∈ rest, ∃ v, h.getProperty ref (jsNewAtom e.1) = .ok v ∧
      decode v = .ok (some e.2)) (hfree : NulFree rest)
    (done : List (String × JSConvertible))
    (hnodup : ((done ++ rest).map fun e => ext.canonical e.1).Nodup) :
    (rest.map fun e => jsNewAtom e.1).foldlM (entryFromJSValue ext decode h ref) done =
      .ok (done ++ rest) := by
  induction rest generalizing done with
  | nil =>
      rw [List.append_nil]
      rfl
  | cons e rest ih =>
      rcases hdecode e (List.mem_cons_self ..) with ⟨v, hget, hv⟩
      have hkey : (jsNewAtom e.1).toJSString.toSwift = some e.1 := by
        unfold jsNewAtom
        rw [Atom.toJSString_ofString, JSString.toSwift_ofSwift,
          (cString_eq_self_iff e.1).mpr (hfree e (List.mem_cons_self ..))]
      have hnew : ∀ e' ∈ done, ext.canonical e'.1 ≠ ext.canonical e.1 := by
        rw [List.map_append, List.map_cons, List.nodup_append] at hnodup
        exact fun e' he' => hnodup.2.2 _ (List.mem_map.mpr ⟨e', he', rfl⟩) _
          (List.mem_cons_self ..)
      have hsplit : done ++ e :: rest = done ++ [e] ++ rest := by
        rw [List.append_assoc, List.singleton_append]
      have hset : setKey ext.canonical done e.1 (some e.2) = done ++ [e] := by
        unfold setKey
        simp only
        refine if_neg fun hany => ?_
        rcases List.any_eq_true.mp hany with ⟨e', he', heq⟩
        exact hnew e' he' (of_decide_eq_true heq)
      rw [List.map_cons, List.foldlM_cons]
      have hstep : entryFromJSValue ext decode h ref done (jsNewAtom e.1) = .ok (done ++ [e]) := by
        unfold entryFromJSValue
        rw [hkey]
        simp only [hget, hv, hset]
      rw [hsplit] at hnodup ⊢
      rw [hstep]
      exact ih (fun e he => hdecode e (List.mem_cons_of_mem _ he))
        (fun e he => hfree e (List.mem_cons_of_mem _ he)) _ hnodup

/-- A plain object whose class is `Object` decodes by its properties. -/
theorem decode_dictionary {b ref : ℕ} {entries : List (String × JSConvertible)}
    {values : List JSValue} (hbelow : h.Below b) (hlow : b ≤ ref)
    (ho : h.objects[ref]? = some (dictionaryObject h.objectProto entries values))
    (hclass : getClassName h (.object ref) = .ok "Object") (fuel : ℕ) :
    toJSConvertible ext h (fuel + 1) (.object ref) =
      dictionaryFromJSValue ext (toJSConvertible ext h fuel) h (.object ref) := by
  have hnot (classes : List ℕ) (hnot : jsClassObject ∉ classes) :
      h.hasClass classes (.object ref) = false :=
    (Heap.hasClass_object ho _).trans (decide_eq_false hnot)
  have hdate : h.isInstanceOfDate ref = false := by
    unfold Heap.isInstanceOfDate
    rw [protoChain_dictionary hbelow hlow ho, decide_eq_false_iff_not, List.tail_cons,
      List.mem_singleton]
    exact hbelow.intact.date_ne_object
  have harray : h.isArray (.object ref) = false := hnot _ (by decide)
  have hfunction : h.isFunction (.object ref) = false := hnot _ (by decide)
  have herror : h.isError (.object ref) = false := hnot _ (by decide)
  rw [toJSConvertible_object]
  simp only [objectFromJSValue, dateFromJSValue, hdate, arrayFromJSValue, harray,
    functionFromJSValue, hfunction, errorFromJSValue, herror, classFromJSValue, hclass,
    Bool.false_eq_true, if_false, orNext_none, ne_eq, not_true_eq_false]

/-! ## Results that are dictionaries -/

theorem dateFromJSValue_ne_dictionary (c : Coercions) (v : JSValue)
    (fs : List (String × JSConvertible)) : dateFromJSValue c h v ≠ some (.dictionary fs) := by
  intro heq
  unfold dateFromJSValue at heq
  repeat' split at heq
  all_goals simp only [reduceCtorEq, Option.some.injEq] at heq

theorem arrayFromJSValue_ne_dictionary (decode : JSValue → Outcome (Option JSConvertible))
    (v : JSValue) (fs : List (String × JSConvertible)) :
    arrayFromJSValue decode h v ≠ .ok (some (.dictionary fs)) := by
  intro heq
  unfold arrayFromJSValue at heq
  repeat' split at heq
  all_goals simp only [reduceCtorEq, Except.ok.injEq, Option.some.injEq] at heq

theorem functionFromJSValue_ne_dictionary (v : JSValue) (fs : List (String × JSConvertible)) :
    functionFromJSValue h v ≠ .ok (some (.dictionary fs)) := by
  intro heq
  unfold functionFromJSValue at heq
  repeat' split at heq
  all_goals simp only [reduceCtorEq, Except.ok.injEq, Option.some.injEq] at heq

theorem classFromJSValue_ne_dictionary (v : JSValue) (fs : List (String × JSConvertible)) :
    classFromJSValue h v ≠ .ok (some (.dictionary fs)) := by
  intro heq
  unfold classFromJSValue at heq
  repeat' split at heq
  all_goals simp only [reduceCtorEq, Except.ok.injEq, Option.some.injEq] at heq

theorem errorFromJSValue_ne_dictionary (decode : JSValue → Outcome (Option JSConvertible))
    (v : JSValue) (fs : List (String × JSConvertible)) :
    errorFromJSValue ext decode h v ≠ .ok (some (.dictionary fs)) := by
  intro heq
  unfold errorFromJSValue at heq
  split at heq
  · split_ifs at heq
    · rcases Fallible.bind_eq_ok_iff.mp heq with ⟨name, _, heq⟩
      rcases Fallible.bind_eq_ok_iff.mp heq with ⟨message, _, heq⟩
      rcases Fallible.bind_eq_ok_iff.mp heq with ⟨cause, _, heq⟩
      rcases Fallible.bind_eq_ok_iff.mp heq with ⟨stack, _, heq⟩
      simp only [Except.ok.injEq, Option.some.injEq, reduceCtorEq] at heq
    · simp only [Except.ok.injEq, reduceCtorEq] at heq
  · simp only [Except.ok.injEq, reduceCtorEq] at heq

/-- Where an entry comes from: its key is the name of a property, and its value is
    read under a name that is the same key to Swift. -/
def EntryFrom (ext : Externals) (h : Heap) (ref : ℕ)
    (decode : JSValue → Outcome (Option JSConvertible)) (e : String × JSConvertible) : Prop :=
  (∃ atom ∈ h.ownPropertyNames ref, atom.toJSString.toSwift = some e.1) ∧
    ∃ atom ∈ h.ownPropertyNames ref, ∃ key, atom.toJSString.toSwift = some key ∧
      ext.canonical e.1 = ext.canonical key ∧
      ∃ v, h.getProperty ref (jsNewAtom key) = .ok v ∧ decode v = .ok (some e.2)

theorem mem_setKey {canonical : String → String} {result : List (String × JSConvertible)}
    {key : String} {value : Option JSConvertible} {e : String × JSConvertible}
    (he : e ∈ setKey canonical result key value) :
    e ∈ result ∨ (value = some e.2 ∧ canonical e.1 = canonical key ∧
      (e.1 = key ∨ e.1 ∈ result.map Prod.fst)) := by
  unfold setKey at he
  cases value with
  | none => exact Or.inl (List.mem_filter.mp he).1
  | some x =>
      simp only at he
      split_ifs at he
      · rcases List.mem_map.mp he with ⟨e', he', heq⟩
        by_cases hsame : canonical e'.1 = canonical key
        · rw [if_pos hsame] at heq
          rw [← heq]
          exact Or.inr ⟨rfl, hsame, Or.inr (List.mem_map.mpr ⟨e', he', rfl⟩)⟩
        · rw [if_neg hsame] at heq
          rw [← heq]
          exact Or.inl he'
      · rcases List.mem_append.mp he with he | he
        · exact Or.inl he
        · rw [List.mem_singleton] at he
          rw [he]
          exact Or.inr ⟨rfl, rfl, Or.inl rfl⟩

/-- What one property does to the dictionary. -/
theorem entryFromJSValue_cases {decode : JSValue → Outcome (Option JSConvertible)} {ref : ℕ}
    {atom : Atom} {result result' : List (String × JSConvertible)}
    (hstep : entryFromJSValue ext decode h ref result atom = .ok result') :
    (atom.toJSString.toSwift = none ∧ result' = result) ∨
      ∃ key v value, atom.toJSString.toSwift = some key ∧
        h.getProperty ref (jsNewAtom key) = .ok v ∧ decode v = .ok value ∧
        result' = setKey ext.canonical result key value := by
  unfold entryFromJSValue at hstep
  cases hkey : atom.toJSString.toSwift with
  | none =>
      rw [hkey] at hstep
      exact Or.inl ⟨rfl, (Except.ok.inj hstep).symm⟩
  | some key =>
      rw [hkey] at hstep
      simp only at hstep
      cases hget : h.getProperty ref (jsNewAtom key) with
      | error stop =>
          rw [hget] at hstep
          simp only [reduceCtorEq] at hstep
      | ok v =>
          rw [hget] at hstep
          simp only at hstep
          cases hv : decode v with
          | error stop =>
              rw [hv] at hstep
              simp only [reduceCtorEq] at hstep
          | ok value =>
              rw [hv] at hstep
              exact Or.inr ⟨key, v, value, rfl, hget, hv, (Except.ok.inj hstep).symm⟩

/-- One property adds no entry but its own. -/
theorem entryFromJSValue_spec {decode : JSValue → Outcome (Option JSConvertible)} {ref : ℕ}
    {atom : Atom} {result result' : List (String × JSConvertible)}
    (hatom : atom ∈ h.ownPropertyNames ref) (hall : ∀ e ∈ result, EntryFrom ext h ref decode e)
    (hstep : entryFromJSValue ext decode h ref result atom = .ok result') :
    ∀ e ∈ result', EntryFrom ext h ref decode e := by
  rcases entryFromJSValue_cases hstep with ⟨_, rfl⟩ | ⟨key, v, value, hkey, hget, hv, rfl⟩
  · exact hall
  intro e he
  rcases mem_setKey he with hold | ⟨hvalue, hsame, hname⟩
  · exact hall e hold
  refine ⟨?_, atom, hatom, key, hkey, hsame, v, hget, hvalue ▸ hv⟩
  rcases hname with hname | hname
  · exact ⟨atom, hatom, hname ▸ hkey⟩
  · rcases List.mem_map.mp hname with ⟨e', he', heq⟩
    rw [← heq]
    exact (hall e' he').1

/-- Where the entries of a result come from. -/
theorem entries_of_decode {fuel ref : ℕ} {fs : List (String × JSConvertible)}
    (hdecode : toJSConvertible ext h fuel (.object ref) = .ok (some (.dictionary fs))) :
    classFromJSValue h (.object ref) = .ok none ∧
      ∃ fuel', ∀ e ∈ fs, EntryFrom ext h ref (toJSConvertible ext h fuel') e := by
  cases fuel with
  | zero =>
      rw [toJSConvertible_zero] at hdecode
      simp only [reduceCtorEq] at hdecode
  | succ fuel =>
      rw [toJSConvertible_object] at hdecode
      unfold objectFromJSValue at hdecode
      rcases orNext_eq_some hdecode with hdate | ⟨_, hdecode⟩
      · exact absurd (Except.ok.inj hdate) (dateFromJSValue_ne_dictionary _ _ _)
      rcases orNext_eq_some hdecode with harray | ⟨_, hdecode⟩
      · exact absurd harray (arrayFromJSValue_ne_dictionary _ _ _)
      rcases orNext_eq_some hdecode with hfunction | ⟨_, hdecode⟩
      · exact absurd hfunction (functionFromJSValue_ne_dictionary _ _)
      rcases orNext_eq_some hdecode with herror | ⟨_, hdecode⟩
      · exact absurd herror (errorFromJSValue_ne_dictionary _ _ _)
      rcases orNext_eq_some hdecode with hclass | ⟨hclass, hdecode⟩
      · exact absurd hclass (classFromJSValue_ne_dictionary _ _)
      refine ⟨hclass, fuel, ?_⟩
      unfold dictionaryFromJSValue at hdecode
      simp only at hdecode
      cases hfold : (h.ownPropertyNames ref).foldlM
          (entryFromJSValue ext (toJSConvertible ext h fuel) h ref) [] with
      | error stop =>
          rw [hfold] at hdecode
          simp only [reduceCtorEq] at hdecode
      | ok result =>
          rw [hfold] at hdecode
          simp only [Except.ok.injEq, Option.some.injEq, JSConvertible.dictionary.injEq] at hdecode
          rw [← hdecode]
          refine Fallible.foldlM_invariant
            (P := fun result => ∀ e ∈ result, EntryFrom ext h ref (toJSConvertible ext h fuel) e)
            (fun acc atom acc' hatom hacc hstep => entryFromJSValue_spec hatom hacc hstep)
            (fun e he => absurd he List.not_mem_nil) hfold

end Substrata
