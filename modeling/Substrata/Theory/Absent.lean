import Substrata.Core.Convert

/-!
# Absent values

What becomes of `nil` and `NSNull` on the way to the engine.

JS has `undefined` and `null` for them, and Swift hands over values with the
right tags. Wherever Swift looks at a value again it looks at the tag. The
engine does not: its conversions have one case for the small tags and return
the word beside the tag, which is zero in the values the engine makes, and the
number of the tag in the two values that Swift makes. So a script that tests a
returned `nil` finds it true, and one that adds a returned `NSNull` adds two.

Every absent value that is handed over is one of those two values, on every
route and at every depth. `Route.Hands` lists what is handed over: the value
itself, and each part of it as the loops over elements and entries reach it.
Nothing handed over behaves as it should unless nothing absent is handed over.

## Main definitions

* `SameConversions`: Two values that the engine converts alike.
* `Standing`: An absent value converts like the engine's own.
* `JSConvertible.Hands`: The parts of a value, and the JS values they become.
* `JSConvertible.MentionsNull`: `NSNull`, or a container that has it somewhere.
* `Route.Hands`: Everything that is handed over on a route.
* `Route.HandsAbsent`: Something absent is handed over.

## Theorems

* `not_sameConversions_null`, `not_sameConversions_undefined`: Neither of Swift's
  two values converts like the engine's own.
* `hands_nsNull`: `NSNull` is handed over as `JSValue.null`.
* `MentionsNull.hands`: An `NSNull` inside a value is handed over.
* `standing_iff_not_handsAbsent`: When everything handed over converts as it
  should.
-/

namespace Substrata

/-- The engine's `ToBoolean`, `ToNumber` and `ToInt32` do not tell two values
    apart. -/
def SameConversions (c : Coercions) (v w : JSValue) : Prop :=
  jsToBoolFree v = jsToBoolFree w ∧ jsToNumberFree c v = jsToNumberFree c w ∧
    jsToInt32Free c v = jsToInt32Free c w

/-- A JS value converts as the Swift value it stands for should: `nil` like
    `undefined`, and `NSNull` like `null`. -/
def Standing (c : Coercions) (value : Option JSConvertible) (y : JSValue) : Prop :=
  match value with
  | none => SameConversions c y jsUndefined
  | some .nsNull => SameConversions c y jsNull
  | some _ => True

/-- The parts of a value with the JS values handed over for them, whatever the
    heap is when the encoder reaches them. -/
inductive JSConvertible.Hands : JSConvertible → JSConvertible → JSValue → Prop
  | element {elements : List JSConvertible} {x : JSConvertible} {h h' : Heap}
      {v : Option JSValue} :
      x ∈ elements → x.toJSValue h = .ok (v, h') →
      JSConvertible.Hands (.array elements) x (v.getD JSValue.undefined)
  | entry {entries : List (String × JSConvertible)} {key : String} {x : JSConvertible}
      {h h' : Heap} {v : JSValue} :
      (key, x) ∈ entries → x.toJSValue h = .ok (some v, h') →
      JSConvertible.Hands (.dictionary entries) x v
  | inElement {elements : List JSConvertible} {x w : JSConvertible} {y : JSValue} :
      x ∈ elements → x.Hands w y → JSConvertible.Hands (.array elements) w y
  | inEntry {entries : List (String × JSConvertible)} {key : String} {x w : JSConvertible}
      {y : JSValue} :
      (key, x) ∈ entries → x.Hands w y → JSConvertible.Hands (.dictionary entries) w y

/-- `NSNull`, or a container that has it somewhere. -/
inductive JSConvertible.MentionsNull : JSConvertible → Prop
  | here : JSConvertible.MentionsNull .nsNull
  | element {elements : List JSConvertible} {x : JSConvertible} :
      x ∈ elements → x.MentionsNull → JSConvertible.MentionsNull (.array elements)
  | entry {entries : List (String × JSConvertible)} {key : String} {x : JSConvertible} :
      (key, x) ∈ entries → x.MentionsNull → JSConvertible.MentionsNull (.dictionary entries)

/-- The Swift value of a route: a setter returns nothing. -/
def Route.value (route : Route) (v : Option JSConvertible) : Option JSConvertible :=
  match route with
  | .setterResult => none
  | _ => v

/-- The arguments of `JSFunction.call` are not optional. -/
def Route.Takes (route : Route) (v : Option JSConvertible) : Prop :=
  route = .callArgument → v ≠ none

/-- Everything that is handed over on a route: the value, and its parts. -/
inductive Route.Hands (route : Route) (v : Option JSConvertible) :
    Option JSConvertible → JSValue → Prop
  | whole {h h' : Heap} {y : JSValue} :
      route.Takes v → route.hand v h = .ok (y, h') → Route.Hands route v (route.value v) y
  | part {x w : JSConvertible} {y : JSValue} :
      route.value v = some x → x.Hands w y → Route.Hands route v (some w) y

/-- Something absent is handed over. -/
def Route.HandsAbsent (route : Route) (v : Option JSConvertible) : Prop :=
  match route.value v with
  | none => route.Takes v
  | some x => x.MentionsNull

variable (c : Coercions)

/-- Neither `JSValue.null` nor `JSValue.undefined` is false. -/
theorem not_sameConversions_null {w : JSValue} (hw : jsToBoolFree w = 0) :
    ¬ SameConversions c JSValue.null w := by
  rintro ⟨hbool, _⟩
  rw [hw] at hbool
  exact absurd hbool (by decide)

theorem not_sameConversions_undefined {w : JSValue} (hw : jsToBoolFree w = 0) :
    ¬ SameConversions c JSValue.undefined w := by
  rintro ⟨hbool, _⟩
  rw [hw] at hbool
  exact absurd hbool (by decide)

theorem toJSValue_nsNull (h : Heap) :
    JSConvertible.nsNull.toJSValue h = .ok (some JSValue.null, h) := by
  simp only [JSConvertible.toJSValue]

/-- `NSNull` is handed over as `JSValue.null`. -/
theorem hands_nsNull {x : JSConvertible} {y : JSValue} (h : x.Hands .nsNull y) :
    y = JSValue.null := by
  generalize hw : JSConvertible.nsNull = w at h
  induction h with
  | element hmem hvalue =>
      rw [← hw, toJSValue_nsNull] at hvalue
      simp only [Except.ok.injEq, Prod.mk.injEq] at hvalue
      rw [← hvalue.1, Option.getD_some]
  | entry hmem hvalue =>
      rw [← hw, toJSValue_nsNull] at hvalue
      simp only [Except.ok.injEq, Prod.mk.injEq, Option.some.injEq] at hvalue
      exact hvalue.1.symm
  | inElement _ _ ih => exact ih hw
  | inEntry _ _ ih => exact ih hw

/-- An `NSNull` inside a value is handed over. -/
theorem MentionsNull.hands {x : JSConvertible} (hx : x.MentionsNull) (h : Heap) :
    x = .nsNull ∨ x.Hands .nsNull JSValue.null := by
  induction hx with
  | here => exact Or.inl rfl
  | element hmem _ ih =>
      rcases ih with heq | hin
      · rw [heq] at hmem
        exact Or.inr (.element hmem (toJSValue_nsNull h))
      · exact Or.inr (.inElement hmem hin)
  | entry hmem _ ih =>
      rcases ih with heq | hin
      · rw [heq] at hmem
        exact Or.inr (.entry hmem (toJSValue_nsNull h))
      · exact Or.inr (.inEntry hmem hin)

/-- An `NSNull` that is handed over is inside the value. -/
theorem JSConvertible.Hands.mentionsNull {x w : JSConvertible} {y : JSValue} (h : x.Hands w y)
    (hw : w = .nsNull) : x.MentionsNull := by
  induction h with
  | element hmem _ => exact .element hmem (hw ▸ .here)
  | entry hmem _ => exact .entry hmem (hw ▸ .here)
  | inElement hmem _ ih => exact .element hmem (ih hw)
  | inEntry hmem _ ih => exact .entry hmem (ih hw)

/-- What is handed over for an absent value is one of Swift's own two values. -/
theorem hand_absent {route : Route} {v : Option JSConvertible}
    (hv : route.value v = none ∨ route.value v = some .nsNull) (h : Heap) :
    route.hand v h = .ok (JSValue.null, h) ∨ route.hand v h = .ok (JSValue.undefined, h) := by
  cases route with
  | setterResult => exact Or.inr rfl
  | _ =>
      simp only [Route.value] at hv
      rcases hv with rfl | rfl
      · simp only [Route.hand, encodeOptional, Route.fallback, Option.getD_none, true_or, or_true]
      · simp only [Route.hand, encodeOptional, toJSValue_nsNull, Option.getD_some, true_or]

theorem standing_of_ne {w : JSConvertible} (h : w ≠ .nsNull) (y : JSValue) :
    Standing c (some w) y := by
  cases w with
  | nsNull => exact absurd rfl h
  | _ => exact trivial

theorem not_standing_absent {w : Option JSConvertible} (hw : w = none ∨ w = some .nsNull)
    {y : JSValue} (hy : y = JSValue.null ∨ y = JSValue.undefined) : ¬ Standing c w y := by
  rcases hw with rfl | rfl
  · rcases hy with rfl | rfl
    · exact not_sameConversions_null c rfl
    · exact not_sameConversions_undefined c rfl
  · rcases hy with rfl | rfl
    · exact not_sameConversions_null c rfl
    · exact not_sameConversions_undefined c rfl

/-- Everything handed over converts as it should exactly when nothing absent is
    handed over. -/
theorem standing_iff_not_handsAbsent (route : Route) (v : Option JSConvertible) :
    (∀ w y, route.Hands v w y → Standing c w y) ↔ ¬ route.HandsAbsent v := by
  have hheap : Nonempty Heap := ⟨⟨[], 0, 0, 0, 0, 0⟩⟩
  rcases hheap with ⟨h⟩
  constructor
  · intro hall habsent
    -- An absent value at the top, or an `NSNull` further inside.
    have hcases : (route.Takes v ∧ (route.value v = none ∨ route.value v = some .nsNull)) ∨
        ∃ x, route.value v = some x ∧ x.Hands .nsNull JSValue.null := by
      unfold Route.HandsAbsent at habsent
      cases hvalue : route.value v with
      | none =>
          rw [hvalue] at habsent
          exact Or.inl ⟨habsent, Or.inl rfl⟩
      | some x =>
          rw [hvalue] at habsent
          rcases MentionsNull.hands habsent h with heq | hin
          · refine Or.inl ⟨?_, Or.inr (heq ▸ rfl)⟩
            rintro hroute rfl
            rw [hroute] at hvalue
            exact absurd hvalue (by simp only [Route.value, reduceCtorEq, not_false_eq_true])
          · exact Or.inr ⟨x, rfl, hin⟩
    rcases hcases with ⟨htakes, hw⟩ | ⟨x, hx, hin⟩
    · rcases hand_absent hw h with hhand | hhand
      · exact not_standing_absent c hw (Or.inl rfl) (hall _ _ (.whole htakes hhand))
      · exact not_standing_absent c hw (Or.inr rfl) (hall _ _ (.whole htakes hhand))
    · exact not_standing_absent c (Or.inr rfl) (Or.inl rfl) (hall _ _ (.part hx hin))
  · intro habsent w y hhands
    unfold Route.HandsAbsent at habsent
    cases hhands with
    | whole htakes hhand =>
        cases hvalue : route.value v with
        | none =>
            rw [hvalue] at habsent
            exact absurd htakes habsent
        | some x =>
            rw [hvalue] at habsent
            refine standing_of_ne c ?_ y
            rintro rfl
            exact habsent JSConvertible.MentionsNull.here
    | part hx hin =>
        rw [hx] at habsent
        exact standing_of_ne c (fun heq => habsent (hin.mentionsNull heq)) y

/-- A function that returns `NSNull` hands scripts a value that is true and counts
    as two. -/
theorem exists_not_standing :
    ∃ (c : Coercions) (y : JSValue), Route.functionResult.Hands (some .nsNull) (some .nsNull) y ∧
      jsToBoolFree y = 2 ∧ jsToNumberFree c y = .int 2 ∧ jsToInt32Free c y = some 2 ∧
      ¬ Standing c (some .nsNull) y := by
  refine ⟨⟨fun _ => .nan, fun _ => .exception⟩, JSValue.null, ?_, rfl, rfl, rfl, ?_⟩
  · have hhand : Route.functionResult.hand (some .nsNull) ⟨[], 0, 0, 0, 0, 0⟩ =
        .ok (JSValue.null, ⟨[], 0, 0, 0, 0, 0⟩) := by
      simp only [Route.hand, encodeOptional, toJSValue_nsNull, Option.getD_some]
    refine Route.Hands.whole ?_ hhand
    intro hroute
    exact absurd hroute (by decide)
  · exact not_sameConversions_null _ rfl

end Substrata
