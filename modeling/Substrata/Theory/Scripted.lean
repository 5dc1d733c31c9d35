import Substrata.Core.Scripted
import Substrata.Theory.RoundTrip

/-!
# Arrays as scripts present them

What `Array.fromJSValue` does with the answers it gets, whatever they are.

It trusts the length it reads. Any number that decodes to an `Int` becomes the
end of a range, and the range of a negative number traps; so does the conversion
of an index to 32 bits, once the length is past them. An array that the engine
made has neither length, but `JS_IsArray` is true of a proxy of an array as well,
and there the handler answers.

Apart from that the loop is sound. It reads the elements one after the other,
each in the state that the last one left, and keeps what they decode to.

`replies_toJSConvertible` connects this model of the conversions with the one on
heaps: they agree where no script runs.

## Main definitions

* `Replies.Measurable`: The reads complete, and the length is one that the loop
  can count to.
* `Replies.DecodesArray`: The conversion completes, with the decoded elements.
* `lengthProxy`: A proxy whose handler answers a negative length.

## Theorems

* `replies_toJSConvertible`: On a heap the two models agree.
* `decodesArray_iff`: The conversion of an array, and when it completes.
* `exists_not_decodesArray`: A proxy on which it traps.
-/

namespace Substrata

namespace Replies

variable {σ α β : Type}

/-! ## Running a conversion -/

@[simp] theorem run_pure (a : α) (s : σ) : (pure a : Conversion σ α) s = .ok (a, s) := rfl

@[simp] theorem run_throw (stop : Stop) (s : σ) :
    (throw stop : Conversion σ α) s = .error stop := rfl

@[simp] theorem run_get_bind (f : σ → Conversion σ α) (s : σ) :
    ((get : Conversion σ σ) >>= f) s = f s s := rfl

theorem run_bind_ok {x : Conversion σ α} {s t : σ} {a : α} (hx : x s = .ok (a, t))
    (f : α → Conversion σ β) : (x >>= f) s = f a t := by
  show (x s >>= fun r => f r.1 r.2) = f a t
  rw [hx]
  rfl

/-- What is not `undefined` goes through the attempts. -/
theorem toJSConvertible_succ (replies : Replies σ) (ext : Externals) (context fuel : ℕ)
    {v : JSValue} (hundefined : ∀ word, v ≠ .undefinedTag word) (hexception : v ≠ .exception) :
    replies.toJSConvertible ext context (fuel + 1) v =
      orNext (fun s => (primitiveFromJSValue ext.toCoercions v).map (·, s))
        (replies.objectFromJSValue ext (replies.toJSConvertible ext context fuel) context v) := by
  cases v with
  | undefinedTag word => exact absurd rfl (hundefined word)
  | exception => exact absurd rfl hexception
  | _ => rfl

end Replies

/-! ## On a heap -/

section Heaps

variable {h : Heap} {ext : Externals} {α β : Type}

/-- A computation that has no state to change. -/
def still (x : Outcome α) : Conversion Unit α := fun s => x.map (·, s)

@[simp] theorem still_ok (a : α) : still (.ok a) = pure a := rfl

@[simp] theorem still_error (stop : Stop) : (still (.error stop) : Conversion Unit α) = throw stop :=
  rfl

@[simp] theorem throw_bind (stop : Stop) (f : α → Conversion Unit β) :
    ((throw stop : Conversion Unit α) >>= f) = throw stop := rfl

@[simp] theorem map_throw (stop : Stop) (f : α → β) :
    f <$> (throw stop : Conversion Unit α) = throw stop := rfl

@[simp] theorem get_bind (f : Unit → Conversion Unit α) :
    ((get : Conversion Unit Unit) >>= f) = f () := rfl

theorem still_bind (x : Outcome α) (f : α → Outcome β) :
    (still x >>= fun a => still (f a)) = still (x >>= f) := by
  cases x with
  | error stop => rfl
  | ok a => rfl

theorem still_mapM (f : α → Outcome β) (xs : List α) :
    xs.mapM (fun x => still (f x)) = still (xs.mapM f) := by
  induction xs with
  | nil => rfl
  | cons x xs ih =>
      rw [List.mapM_cons, List.mapM_cons, ih, ← still_bind]
      refine bind_congr fun y => ?_
      rw [← still_bind]
      rfl

theorem still_foldlM (f : β → α → Outcome β) (xs : List α) (b : β) :
    xs.foldlM (fun b x => still (f b x)) b = still (xs.foldlM f b) := by
  induction xs generalizing b with
  | nil => rfl
  | cons x xs ih =>
      rw [List.foldlM_cons, List.foldlM_cons, ← still_bind]
      exact bind_congr fun c => ih c

theorem still_orNext (x y : Outcome (Option α)) :
    Replies.orNext (still x) (still y) = still (orNext x y) := by
  rcases x with stop | _ | a
  · rfl
  · rfl
  · rfl

@[simp] theorem replies_isInstanceOfDate (ref : ℕ) :
    (h.replies ext.toCoercions).isInstanceOfDate ref = pure (h.isInstanceOfDate ref) := rfl

@[simp] theorem replies_jsToFloat64 (ref : ℕ) :
    (h.replies ext.toCoercions).jsToFloat64 ref =
      pure (jsToFloat64 ext.toCoercions (.object ref)) := rfl

@[simp] theorem replies_jsIsFunction (ref : ℕ) (s : Unit) :
    (h.replies ext.toCoercions).jsIsFunction ref s = h.isFunction (.object ref) := rfl

@[simp] theorem replies_jsIsArray (ref : ℕ) (s : Unit) :
    (h.replies ext.toCoercions).jsIsArray ref s = h.isArray (.object ref) := rfl

@[simp] theorem replies_jsIsError (ref : ℕ) (s : Unit) :
    (h.replies ext.toCoercions).jsIsError ref s = h.isError (.object ref) := rfl

@[simp] theorem replies_jsHasProperty (ref : ℕ) (atom : Atom) :
    (h.replies ext.toCoercions).jsHasProperty ref atom = pure (h.hasProperty ref atom) := rfl

@[simp] theorem replies_jsGetOwnPropertyNames (ref : ℕ) :
    (h.replies ext.toCoercions).jsGetOwnPropertyNames ref = pure (some (h.ownPropertyNames ref)) :=
  rfl

@[simp] theorem replies_jsGetProperty (ref : ℕ) (atom : Atom) :
    (h.replies ext.toCoercions).jsGetProperty (.object ref) atom = still (h.getProperty ref atom) :=
  rfl

theorem replies_dateFromJSValue (v : JSValue) :
    (h.replies ext.toCoercions).dateFromJSValue ext v =
      pure (dateFromJSValue ext.toCoercions h v) := by
  cases v with
  | object ref =>
      unfold Replies.dateFromJSValue dateFromJSValue
      cases hdate : h.isInstanceOfDate ref with
      | false => simp [hdate]
      | true =>
          cases hnumber : jsToFloat64 ext.toCoercions (.object ref) with
          | none => simp [hdate, hnumber]
          | some ms => simp [hdate, hnumber]
  | _ =>
      dsimp only [Replies.dateFromJSValue, dateFromJSValue]
      generalize jsToFloat64 ext.toCoercions _ = number
      cases number with
      | none => rfl
      | some ms => rfl

@[simp] theorem replies_getFunctionName (v : JSValue) :
    (h.replies ext.toCoercions).getFunctionName v = still (getFunctionName h v) := by
  cases v with
  | object ref =>
      unfold Replies.getFunctionName getFunctionName
      by_cases hfunction : h.isFunction (.object ref)
      · cases hget : h.getProperty ref (jsNewAtom "name") with
        | error stop => simp [hfunction, hget]
        | ok name => simp [hfunction, hget]
      · simp [hfunction]
  | _ => rfl

@[simp] theorem replies_getClassName (ref : ℕ) :
    (h.replies ext.toCoercions).getClassName ref = still (getClassName h (.object ref)) := by
  unfold Replies.getClassName getClassName
  by_cases hhas : h.hasProperty ref (jsNewAtom "constructor")
  · cases hget : h.getProperty ref (jsNewAtom "constructor") with
    | error stop => simp [hhas, hget]
    | ok constructor => simp [hhas, hget]
  · simp [hhas]

theorem replies_functionFromJSValue (ref : ℕ) :
    (h.replies ext.toCoercions).functionFromJSValue h.context ref =
      still (functionFromJSValue h (.object ref)) := by
  unfold Replies.functionFromJSValue functionFromJSValue
  by_cases hfunction : h.isFunction (.object ref)
  · cases hname : getFunctionName h (.object ref) with
    | error stop => simp [hfunction, hname]
    | ok name => simp [hfunction, hname]
  · simp [hfunction]

theorem replies_classFromJSValue (ref : ℕ) :
    (h.replies ext.toCoercions).classFromJSValue h.context ref =
      still (classFromJSValue h (.object ref)) := by
  unfold Replies.classFromJSValue classFromJSValue
  cases hname : getClassName h (.object ref) with
  | error stop => simp [hname]
  | ok className =>
      by_cases hobject : className = "Object"
      · simp [hname, hobject]
      · simp [hname, hobject]

variable {decode : JSValue → Outcome (Option JSConvertible)}

theorem replies_elementFromJSValue (ref i : ℕ) :
    (h.replies ext.toCoercions).elementFromJSValue (fun v => still (decode v)) ref i =
      still (elementFromJSValue decode h ref i) := by
  unfold Replies.elementFromJSValue Replies.readElement elementFromJSValue
  by_cases hi : i < 2 ^ 32
  · rw [if_pos hi, if_pos hi]
    cases hget : h.getProperty ref (Atom.ofIndex i) with
    | error stop => simp [hget]
    | ok v =>
        cases hv : decode v with
        | error stop => simp [hget, hv]
        | ok value => simp [hget, hv]
  · rw [if_neg hi, if_neg hi]
    rfl

theorem replies_arrayFromJSValue (ref : ℕ) :
    (h.replies ext.toCoercions).arrayFromJSValue (fun v => still (decode v)) ref =
      still (arrayFromJSValue decode h (.object ref)) := by
  unfold Replies.arrayFromJSValue Replies.readLength arrayFromJSValue
  by_cases harray : h.isArray (.object ref)
  · cases hget : h.getProperty ref Heap.atomLength with
    | error stop => simp [harray, hget]
    | ok sizeV =>
        cases hsize : decode sizeV with
        | error stop => simp [harray, hget, hsize]
        | ok value =>
            rcases value with _ | value
            · simp [harray, hget, hsize]
            · cases value with
              | int size =>
                  by_cases hrange : 0 ≤ size.toInt
                  · have helements : (h.replies ext.toCoercions).elementFromJSValue
                        (fun v => still (decode v)) ref =
                        fun i => still (elementFromJSValue decode h ref i) :=
                      funext (replies_elementFromJSValue ref)
                    have hmap := still_mapM (elementFromJSValue decode h ref)
                      (List.range size.toInt.toNat)
                    cases hall : (List.range size.toInt.toNat).mapM
                        (elementFromJSValue decode h ref) with
                    | error stop =>
                        simp [harray, hget, hsize, hrange, helements, hmap, hall,
                          -Int64.toNat_toInt]
                    | ok elements =>
                        simp [harray, hget, hsize, hrange, helements, hmap, hall,
                          -Int64.toNat_toInt]
                  · simp [harray, hget, hsize, hrange]
              | _ => simp [harray, hget, hsize]
  · simp [harray]

theorem replies_errorStringFromJSValue (ref : ℕ) (name : String) :
    (h.replies ext.toCoercions).errorStringFromJSValue ext (fun v => still (decode v)) (.object ref)
        name = still (errorStringFromJSValue ext decode h ref name) := by
  unfold Replies.errorStringFromJSValue errorStringFromJSValue
  cases hget : h.getProperty ref (jsNewAtom name) with
  | error stop => simp [hget]
  | ok v =>
      cases hv : decode v with
      | error stop => simp [hget, hv]
      | ok value => simp [hget, hv]

theorem replies_errorFromJSValue (ref : ℕ) :
    (h.replies ext.toCoercions).errorFromJSValue ext (fun v => still (decode v)) ref =
      still (errorFromJSValue ext decode h (.object ref)) := by
  unfold Replies.errorFromJSValue Replies.jsErrorInit errorFromJSValue
  by_cases herror : h.isError (.object ref)
  · simp only [get_bind, replies_jsIsError, herror, if_true, replies_errorStringFromJSValue,
      ← still_bind, bind_assoc]
    rfl
  · simp [herror]

theorem replies_entryFromJSValue (ref : ℕ) (result : List (String × JSConvertible)) (atom : Atom) :
    (h.replies ext.toCoercions).entryFromJSValue ext (fun v => still (decode v)) ref result atom =
      still (entryFromJSValue ext decode h ref result atom) := by
  unfold Replies.entryFromJSValue entryFromJSValue
  cases hkey : atom.toJSString.toSwift with
  | none => rfl
  | some key =>
      cases hget : h.getProperty ref (jsNewAtom key) with
      | error stop => simp [hget]
      | ok v =>
          cases hv : decode v with
          | error stop => simp [hget, hv]
          | ok value => simp [hget, hv]

theorem replies_dictionaryFromJSValue (ref : ℕ) :
    (h.replies ext.toCoercions).dictionaryFromJSValue ext (fun v => still (decode v)) ref =
      still (dictionaryFromJSValue ext decode h (.object ref)) := by
  have hentries : (h.replies ext.toCoercions).entryFromJSValue ext (fun v => still (decode v)) ref =
      fun result atom => still (entryFromJSValue ext decode h ref result atom) :=
    funext fun result => funext fun atom => replies_entryFromJSValue ref result atom
  have hfold := still_foldlM (entryFromJSValue ext decode h ref) (h.ownPropertyNames ref) []
  unfold Replies.dictionaryFromJSValue dictionaryFromJSValue
  cases hall : (h.ownPropertyNames ref).foldlM (entryFromJSValue ext decode h ref) [] with
  | error stop => simp [hentries, hfold, hall]
  | ok result => simp [hentries, hfold, hall]

theorem replies_objectFromJSValue (v : JSValue) :
    (h.replies ext.toCoercions).objectFromJSValue ext (fun v => still (decode v)) h.context v =
      still (objectFromJSValue ext decode h v) := by
  cases v with
  | object ref =>
      unfold Replies.objectFromJSValue objectFromJSValue
      dsimp only
      rw [replies_dateFromJSValue, replies_arrayFromJSValue, replies_functionFromJSValue,
        replies_errorFromJSValue, replies_classFromJSValue, replies_dictionaryFromJSValue,
        still_orNext, still_orNext, still_orNext, still_orNext, ← still_ok, still_orNext]
  | _ =>
      unfold Replies.objectFromJSValue objectFromJSValue
      dsimp only
      rw [replies_dateFromJSValue]
      generalize dateFromJSValue ext.toCoercions h _ = date
      cases date with
      | none => rfl
      | some d => rfl

/-- On a heap the two models agree. -/
theorem replies_toJSConvertible (fuel : ℕ) (v : JSValue) :
    (h.replies ext.toCoercions).toJSConvertible ext h.context fuel v =
      still (toJSConvertible ext h fuel v) := by
  induction fuel generalizing v with
  | zero => rfl
  | succ fuel ih =>
      have hdecode := funext ih
      by_cases hundefined : ∃ word, v = .undefinedTag word
      · rcases hundefined with ⟨word, rfl⟩
        rfl
      · push Not at hundefined
        by_cases hexception : v = .exception
        · rw [hexception]
          rfl
        · rw [Replies.toJSConvertible_succ _ ext _ fuel hundefined hexception,
            toJSConvertible_succ ext h fuel hundefined hexception, hdecode,
            replies_objectFromJSValue]
          exact still_orNext _ _

end Heaps

/-! ## The loop -/

namespace Replies

open Fallible (Threaded)

variable {σ : Type} {replies : Replies σ} {decode : JSValue → Conversion σ (Option JSConvertible)}
  {ref : ℕ} {s : σ}

/-- An element is read and decoded, with `NSNull` for `undefined`. -/
theorem elementFromJSValue_eq_ok_iff {i : ℕ} {y : JSConvertible} {t : σ} :
    replies.elementFromJSValue decode ref i s = .ok (y, t) ↔
      i < 2 ^ 32 ∧ ∃ value, replies.readElement decode ref i s = .ok (value, t) ∧
        y = value.getD .nsNull := by
  unfold elementFromJSValue
  by_cases hi : i < 2 ^ 32
  · rw [if_pos hi, Fallible.bind_run_eq_ok_iff]
    constructor
    · rintro ⟨value, u, hread, hend⟩
      rcases Prod.mk.inj (Except.ok.inj hend) with ⟨hy, rfl⟩
      exact ⟨hi, value, hread, hy.symm⟩
    · rintro ⟨-, value, hread, rfl⟩
      exact ⟨value, t, hread, rfl⟩
  · rw [if_neg hi]
    constructor
    · intro hthrow
      exact absurd hthrow (by simp)
    · intro h
      exact absurd h.1 hi

/-- What the conversion of an array comes down to. -/
theorem arrayFromJSValue_eq_ok_iff (harray : replies.jsIsArray ref s = true)
    {result : Option JSConvertible} {u : σ} :
    replies.arrayFromJSValue decode ref s = .ok (result, u) ↔
      ∃ value t, replies.readLength decode ref s = .ok (value, t) ∧
        ((∃ size elements, value = some (.int size) ∧ 0 ≤ size.toInt ∧
            Threaded (replies.elementFromJSValue decode ref) (List.range size.toInt.toNat) t
              elements u ∧ result = some (.array elements)) ∨
          (∀ size, value ≠ some (.int size)) ∧ result = none ∧ u = t) := by
  unfold arrayFromJSValue
  rw [run_get_bind, if_pos harray, Fallible.bind_run_eq_ok_iff]
  refine exists_congr fun value => exists_congr fun t => and_congr_right fun _ => ?_
  rcases value with _ | value
  · constructor
    · intro hend
      rcases Prod.mk.inj (Except.ok.inj hend) with ⟨rfl, rfl⟩
      exact Or.inr ⟨fun size => by simp, rfl, rfl⟩
    · rintro (⟨size, elements, hvalue, -⟩ | ⟨-, rfl, rfl⟩)
      · exact absurd hvalue (by simp)
      · rfl
  · cases value with
    | int size =>
        dsimp only
        by_cases hrange : 0 ≤ size.toInt
        · rw [if_pos hrange, Fallible.bind_run_eq_ok_iff]
          constructor
          · rintro ⟨elements, v, hall, hend⟩
            rcases Prod.mk.inj (Except.ok.inj hend) with ⟨rfl, rfl⟩
            exact Or.inl ⟨size, elements, rfl, hrange,
              (Fallible.mapM_run_eq_ok_iff _ _ _ _ _).mp hall, rfl⟩
          · rintro (⟨size', elements, hvalue, -, hall, rfl⟩ | ⟨hne, -⟩)
            · rw [Option.some.injEq, JSConvertible.int.injEq] at hvalue
              subst hvalue
              exact ⟨elements, u, (Fallible.mapM_run_eq_ok_iff _ _ _ _ _).mpr hall, rfl⟩
            · exact absurd rfl (hne size)
        · rw [if_neg hrange]
          constructor
          · intro hthrow
            exact absurd hthrow (by simp)
          · rintro (⟨size', elements, hvalue, hrange', -⟩ | ⟨hne, -⟩)
            · rw [Option.some.injEq, JSConvertible.int.injEq] at hvalue
              exact absurd (hvalue ▸ hrange') hrange
            · exact absurd rfl (hne size)
    | _ =>
        constructor
        · intro hend
          rcases Prod.mk.inj (Except.ok.inj hend) with ⟨rfl, rfl⟩
          exact Or.inr ⟨fun size => by simp, rfl, rfl⟩
        · rintro (⟨size, elements, hvalue, -⟩ | ⟨-, rfl, rfl⟩)
          · exact absurd hvalue (by simp)
          · rfl

variable (replies decode ref s)

/-- The reads complete, and the length is one that the loop can count to. -/
def Measurable : Prop :=
  ∃ value t, replies.readLength decode ref s = .ok (value, t) ∧
    ∀ size, value = some (.int size) → 0 ≤ size.toInt ∧ size.toInt ≤ 2 ^ 32 ∧
      ∃ values u, Threaded (replies.readElement decode ref) (List.range size.toInt.toNat) t values u

/-- The conversion completes, and an array it returns has the decoded length and
    the decoded elements, each read after the ones before it. -/
def DecodesArray : Prop :=
  ∃ result u, replies.arrayFromJSValue decode ref s = .ok (result, u) ∧
    ∀ r, result = some r → ∃ elements size t, r = .array elements ∧
      replies.readLength decode ref s = .ok (some (.int size), t) ∧
      (elements.length : ℤ) = size.toInt ∧
      ∀ (i : ℕ) y, elements[i]? = some y → ∃ values v value w,
        Threaded (replies.readElement decode ref) (List.range i) t values v ∧
          replies.readElement decode ref i v = .ok (value, w) ∧ y = value.getD .nsNull

variable {replies decode ref s}

/-- Elements that were converted were read. -/
theorem exists_read_of_elements {indices : List ℕ} {elements : List JSConvertible} {u : σ}
    (h : Threaded (replies.elementFromJSValue decode ref) indices s elements u) :
    ∃ values, Threaded (replies.readElement decode ref) indices s values u :=
  h.exists_of_forall fun i _ _ _ _ helement => by
    rcases (elementFromJSValue_eq_ok_iff.mp helement).2 with ⟨value, hread, -⟩
    exact ⟨value, hread⟩

/-- The conversion of a length that the loop counted to. -/
theorem le_of_elements {n : ℕ} {elements : List JSConvertible} {u : σ}
    (h : Threaded (replies.elementFromJSValue decode ref) (List.range n) s elements u) :
    n ≤ 2 ^ 32 := by
  by_contra hlarge
  rcases h.of_mem (List.mem_range.mpr (show 2 ^ 32 < n by omega)) with ⟨_, _, _, helement⟩
  exact absurd (elementFromJSValue_eq_ok_iff.mp helement).1 (lt_irrefl _)

theorem decodesArray_iff_measurable (harray : replies.jsIsArray ref s = true) :
    replies.DecodesArray decode ref s ↔ replies.Measurable decode ref s := by
  constructor
  · rintro ⟨result, u, hok, -⟩
    rcases (arrayFromJSValue_eq_ok_iff harray).mp hok with ⟨value, t, hlength, hcase⟩
    refine ⟨value, t, hlength, fun size hvalue => ?_⟩
    rcases hcase with ⟨size', elements, hvalue', hrange, hall, -⟩ | ⟨hne, -⟩
    · rw [hvalue, Option.some.injEq, JSConvertible.int.injEq] at hvalue'
      subst hvalue'
      have hle := le_of_elements hall
      rcases exists_read_of_elements hall with ⟨values, hvalues⟩
      exact ⟨hrange, by omega, values, u, hvalues⟩
    · exact absurd hvalue (hne size)
  · rintro ⟨value, t, hlength, hsize⟩
    by_cases hint : ∃ size, value = some (.int size)
    · rcases hint with ⟨size, rfl⟩
      rcases hsize size rfl with ⟨hrange, hle, values, u, hvalues⟩
      -- every index is below the length, so it fits into 32 bits
      have hread : ∃ elements,
          Threaded (replies.elementFromJSValue decode ref) (List.range size.toInt.toNat) t
            elements u :=
        hvalues.exists_of_forall fun i hi v value w helement => by
          have hlt := List.mem_range.mp hi
          exact ⟨value.getD .nsNull,
            elementFromJSValue_eq_ok_iff.mpr ⟨by omega, value, helement, rfl⟩⟩
      rcases hread with ⟨elements, hall⟩
      refine ⟨some (.array elements), u, (arrayFromJSValue_eq_ok_iff harray).mpr
        ⟨_, t, hlength, Or.inl ⟨size, elements, rfl, hrange, hall, rfl⟩⟩, ?_⟩
      intro r hr
      have hcount := hall.length_eq
      rw [List.length_range] at hcount
      refine ⟨elements, size, t, (Option.some.inj hr).symm, hlength, by omega, fun i y hy => ?_⟩
      rcases hall.getElem? hy with ⟨j, v, w, hj, hbefore, helement⟩
      have hi : i < size.toInt.toNat := by
        rw [← hcount]
        exact (List.getElem?_eq_some_iff.mp hy).1
      rw [List.getElem?_range hi, Option.some.injEq] at hj
      subst hj
      rw [List.take_range, Nat.min_eq_left hi.le] at hbefore
      rcases exists_read_of_elements hbefore with ⟨values', hbefore'⟩
      rcases (elementFromJSValue_eq_ok_iff.mp helement).2 with ⟨value, hread, hy⟩
      exact ⟨values', v, value, w, hbefore', hread, hy⟩
    · refine ⟨none, t, (arrayFromJSValue_eq_ok_iff harray).mpr
        ⟨value, t, hlength, Or.inr ⟨fun size hvalue => hint ⟨size, hvalue⟩, rfl, rfl⟩⟩, ?_⟩
      intro r hr
      exact absurd hr (by simp)

end Replies

section Claim

variable {σ : Type} (replies : Replies σ) (ext : Externals) (context fuel ref : ℕ) {s : σ}

/-- The conversion of an array completes with the decoded length and the decoded elements, if
    and only if the length decodes, is no negative `Int` and none that the indices cannot count
    to, and the elements below it decode. -/
theorem decodesArray_iff (harray : replies.jsIsArray ref s = true) :
    replies.DecodesArray (replies.toJSConvertible ext context fuel) ref s ↔
      replies.Measurable (replies.toJSConvertible ext context fuel) ref s :=
  Replies.decodesArray_iff_measurable harray

/-- A number of the engine decodes whatever the replies are. -/
theorem replies_word (word : Int32) :
    replies.toJSConvertible ext context (fuel + 1) (jsNewInt32 word) s =
      .ok (some (.int word.toInt64), s) := by
  have hprimitive : primitiveFromJSValue ext.toCoercions (jsNewInt32 word) =
      .ok (some (.int word.toInt64)) := by
    rw [primitiveFromJSValue_number _ rfl, numberFromJSValue_word]
  have hundefined : ∀ word', jsNewInt32 word ≠ .undefinedTag word' := fun _ => nofun
  have hexception : jsNewInt32 word ≠ .exception := nofun
  rw [Replies.toJSConvertible_succ replies ext context fuel hundefined hexception]
  unfold Replies.orNext
  rw [Replies.run_bind_ok (a := some (.int word.toInt64)) (t := s)]
  · rfl
  · exact congrArg (Except.map (·, s)) hprimitive

/-- A proxy of an array whose handler answers with one number for the length, and with
    `undefined` for everything else. -/
def lengthProxy (length : Int32) : Replies Unit where
  jsIsArray _ _ := true
  jsIsFunction _ _ := false
  jsIsError _ _ := false
  isInstanceOfDate _ := return false
  jsToFloat64 _ := return none
  jsHasProperty _ _ := return false
  jsGetProperty _ atom := return if atom = Heap.atomLength then jsNewInt32 length else jsUndefined
  jsGetOwnPropertyNames _ := return none
  jsGetException := return jsUndefined
  exceptionHandler _ := return ()

/-- Any length that is not negative is counted to. -/
theorem decodesArray_iff_two :
    (lengthProxy 2).jsIsArray 0 () = true ∧
      ((lengthProxy 2).DecodesArray ((lengthProxy 2).toJSConvertible Externals.simple 0 1) 0 () ↔
        (lengthProxy 2).Measurable ((lengthProxy 2).toJSConvertible Externals.simple 0 1) 0 ()) :=
  ⟨rfl, decodesArray_iff (lengthProxy 2) Externals.simple 0 1 0 rfl⟩

/-- A handler that answers with a negative length makes the conversion trap. -/
theorem exists_not_decodesArray :
    ∃ replies : Replies Unit, replies.jsIsArray 0 () = true ∧ ∀ fuel,
      ¬ replies.DecodesArray (replies.toJSConvertible Externals.simple 0 fuel) 0 () := by
  refine ⟨lengthProxy (-1), rfl, fun fuel hdecodes => ?_⟩
  rcases (Replies.decodesArray_iff_measurable rfl).mp hdecodes with ⟨value, t, hlength, hsize⟩
  cases fuel with
  | zero => exact absurd hlength nofun
  | succ fuel =>
      have hread : (lengthProxy (-1)).readLength
          ((lengthProxy (-1)).toJSConvertible Externals.simple 0 (fuel + 1)) 0 () =
          .ok (some (.int (-1 : Int32).toInt64), ()) := replies_word _ _ _ _ _
      rw [hread] at hlength
      have hvalue := (Prod.mk.inj (Except.ok.inj hlength)).1
      have hrange := (hsize _ hvalue.symm).1
      rw [Int32.toInt_toInt64] at hrange
      exact absurd hrange (by decide)

end Claim

end Substrata
