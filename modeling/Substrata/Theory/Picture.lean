import Substrata.Theory.Objects

/-!
# What encoding leaves on the heap

The picture of a plain value: what `toJSValue` builds for it.

Strings and keys cross as C strings. An array becomes an array object with its
elements in order, as far as indices reach, and a dictionary becomes a plain
object with one property for each key, in order. There are two exceptions,
because a key is written by ordinary assignment: keys that differ only behind a
NUL fall together, and `__proto__` sets the prototype. `Image` says of a
dictionary only what is left then: no property is named `__proto__`.

The objects of a picture are new ones, and no two nodes share one. So a write to
an object that is being filled does not disturb what is already in it, which is
`Image.frame`, and the two loops keep an invariant over the part that is done.

## Main definitions

* `Plain`: The values that should come back.
* `Survives`: Those that do.
* `Image`: A JS value is the picture of a plain value.
* `Encodes`: Encoding gives a picture, or stops on a value that cannot survive.

## Theorems

* `Image.frame`: A picture stays one where its objects stay.
* `setElements_spec`: The loop over an array.
* `setEntries_spec`: The loop over a dictionary.
* `encodes_of_plain`: Plain values encode.
-/

namespace Substrata

open Binary (binary64)

/-! ## Plain values -/

/-- Strings, booleans, `NSNull`, integers of 53 bits and doubles that are no
    integers, in arrays and dictionaries. A dictionary has each key once, as
    Swift compares keys. -/
inductive Plain (canonical : String → String) : JSConvertible → Prop
  | string (s : String) : Plain canonical (.string s)
  | bool (b : Bool) : Plain canonical (.bool b)
  | nsNull : Plain canonical .nsNull
  | int (n : Int64) (hn : n.toInt.natAbs ≤ 2 ^ 53) : Plain canonical (.int n)
  | double (d : Double) (hfinite : Binary.isFinite d = true)
      (hfraction : ¬ (2 ^ binary64.unit : ℤ) ∣ d.units) : Plain canonical (.double d)
  | array (elements : List JSConvertible) (helements : ∀ x ∈ elements, Plain canonical x) :
      Plain canonical (.array elements)
  | dictionary (entries : List (String × JSConvertible))
      (hkeys : (entries.map fun e => canonical e.1).Nodup)
      (hvalues : ∀ e ∈ entries, Plain canonical e.2) : Plain canonical (.dictionary entries)

/-- No string and no key contains a NUL, no key is `__proto__` or `constructor`,
    and the length of every array is an `int`. -/
inductive Survives : JSConvertible → Prop
  | string (s : String) (hs : '\x00' ∉ s.toList) : Survives (.string s)
  | bool (b : Bool) : Survives (.bool b)
  | nsNull : Survives .nsNull
  | int (n : Int64) : Survives (.int n)
  | double (d : Double) : Survives (.double d)
  | array (elements : List JSConvertible) (hlength : elements.length < 2 ^ 31)
      (helements : ∀ x ∈ elements, Survives x) : Survives (.array elements)
  | dictionary (entries : List (String × JSConvertible))
      (hkeys : ∀ e ∈ entries, '\x00' ∉ e.1.toList ∧ e.1 ≠ "__proto__" ∧ e.1 ≠ "constructor")
      (hvalues : ∀ e ∈ entries, Survives e.2) : Survives (.dictionary entries)

/-- The keys reach the engine as they are. -/
def NulFree (entries : List (String × JSConvertible)) : Prop :=
  ∀ e ∈ entries, '\x00' ∉ e.1.toList

/-- The keys become properties of these names. -/
def Named (entries : List (String × JSConvertible)) : Prop :=
  NulFree entries ∧ "__proto__" ∉ entries.map Prod.fst

/-- Atoms tell keys without NUL apart. -/
theorem jsNewAtom_inj {s t : String} (hs : '\x00' ∉ s.toList) (ht : '\x00' ∉ t.toList)
    (h : jsNewAtom s = jsNewAtom t) : s = t := by
  have heq := jsNewAtom_injective h
  rw [(cString_eq_self_iff s).mpr hs, (cString_eq_self_iff t).mpr ht] at heq
  exact heq

theorem jsNewAtom_ne_atomProto {s : String} (hs : '\x00' ∉ s.toList) (hne : s ≠ "__proto__") :
    jsNewAtom s ≠ atomProto :=
  fun h => hne (jsNewAtom_inj hs (by decide +kernel) h)

/-! ## Pictures -/

/-- The array object with some elements. -/
def arrayObject (arrayProto : ℕ) (values : List JSValue) : JSObject :=
  { classID := jsClassArray
    proto := some arrayProto
    properties :=
      [(Heap.atomLength, .value (jsNewInt32 (Int32.ofNat values.length)) false true)]
    u := .array values }

/-- The property that an assignment makes. -/
def slot (e : String × JSConvertible) (v : JSValue) : Atom × Property :=
  (jsNewAtom e.1, .value v true true)

theorem slot_eq (e : String × JSConvertible) (v : JSValue) :
    slot e v = (jsNewAtom e.1, .value v true true) := by
  unfold slot
  rfl

theorem slot_fst (e : String × JSConvertible) (v : JSValue) : (slot e v).1 = jsNewAtom e.1 := by
  rw [slot_eq]

/-- The plain object with a property for each key. -/
def dictionaryObject (objectProto : ℕ) (entries : List (String × JSConvertible))
    (values : List JSValue) : JSObject :=
  { classID := jsClassObject
    proto := some objectProto
    properties := List.zipWith slot entries values }

/-- A JS value is the picture of a plain value, in objects numbered from `b`
    on. -/
inductive Image (b : ℕ) (h : Heap) : JSConvertible → JSValue → Prop
  | string (s : String) : Image b h (.string s) (.string (JSString.ofSwift s))
  | bool (x : Bool) : Image b h (.bool x) (jsNewBool x)
  | nsNull : Image b h .nsNull JSValue.null
  | int (n : Int64) : Image b h (.int n) (jsNewInt64 n)
  | double (d : Double) : Image b h (.double d) (jsNewFloat64 d)
  | array (elements : List JSConvertible) (ref : ℕ) (values : List JSValue) (hlow : b ≤ ref)
      (hobject : h.objects[ref]? = some (arrayObject h.arrayProto values))
      (hlength : values.length = min elements.length (2 ^ 31))
      (helements : elements.length ≤ 2 ^ 31 →
        ∀ (i : ℕ) x v, elements[i]? = some x → values[i]? = some v → Image b h x v) :
      Image b h (.array elements) (.object ref)
  | dictionary (entries : List (String × JSConvertible)) (ref : ℕ) (o : JSObject)
      (values : List JSValue) (hlow : b ≤ ref) (hobject : h.objects[ref]? = some o)
      (hclass : o.classID = jsClassObject) (hu : o.u = .pointer none)
      (hnames : NulFree entries →
        ∀ q ∈ o.properties, q.1 ≠ atomProto ∧ ∃ s, q.1 = jsNewAtom s)
      (hnamed : Named entries →
        o = dictionaryObject h.objectProto entries values ∧ values.length = entries.length)
      (hvalues : Named entries →
        ∀ (i : ℕ) e v, entries[i]? = some e → values[i]? = some v → Image b h e.2 v) :
      Image b h (.dictionary entries) (.object ref)

/-- A picture stays one where its objects stay. -/
theorem Image.frame {b b' : ℕ} {h h' : Heap} {t : JSConvertible} {v : JSValue}
    {keep : ℕ → Prop} (himage : Image b h t v) (hframe : Heap.Frame keep h h')
    (hkeep : ∀ i, b ≤ i → i < h.objects.length → keep i) (hb : b' ≤ b) : Image b' h' t v := by
  have hsame {ref : ℕ} {o : JSObject} (hlow : b ≤ ref) (ho : h.objects[ref]? = some o) :
      h'.objects[ref]? = some o := by
    rw [hframe.objects ref (hkeep ref hlow (Heap.lt_of_getElem? ho)), ho]
  induction himage with
  | string s => exact Image.string s
  | bool x => exact Image.bool x
  | nsNull => exact Image.nsNull
  | int n => exact Image.int n
  | double d => exact Image.double d
  | array elements ref values hlow hobject hlength helements ih =>
      refine Image.array elements ref values (le_trans hb hlow) ?_ hlength ih
      rw [hframe.arrayProto]
      exact hsame hlow hobject
  | dictionary entries ref o values hlow hobject hclass hu hnames hnamed hvalues ih =>
      refine Image.dictionary entries ref o values (le_trans hb hlow) (hsame hlow hobject) hclass
        hu hnames ?_ ih
      rw [hframe.objectProto]
      exact hnamed

/-- Encoding gives a picture and leaves the old objects alone, or it stops on a
    value that cannot survive. -/
def Encodes (t : JSConvertible) (h : Heap) : Prop :=
  match t.toJSValue h with
  | .error _ => ¬ Survives t
  | .ok (v, h') => Heap.Frame (· < h.objects.length) h h' ∧
      ∃ w, v = some w ∧ Image h.objects.length h' t w

/-- Two lists stay related place by place when both grow. -/
theorem forall_getElem?_append {α β : Type} {R : α → β → Prop} {xs : List α} {ys : List β}
    (h : ∀ (i : ℕ) x y, xs[i]? = some x → ys[i]? = some y → R x y) (hlength : xs.length = ys.length)
    {x : α} {y : β} (hxy : R x y) :
    ∀ (i : ℕ) a b, (xs ++ [x])[i]? = some a → (ys ++ [y])[i]? = some b → R a b := by
  intro i a b ha hb
  by_cases hi : i < xs.length
  · rw [List.getElem?_append_left hi] at ha
    rw [List.getElem?_append_left (hlength ▸ hi)] at hb
    exact h i a b ha hb
  · rw [List.getElem?_append_right (by omega), List.getElem?_singleton] at ha hb
    split_ifs at ha hb
    · rw [← Option.some.inj ha, ← Option.some.inj hb]
      exact hxy

/-! ## Arrays -/

theorem Heap.newArray_eq (h : Heap) : h.newArray = h.allocate (arrayObject h.arrayProto []) := rfl

theorem appendElement_arrayObject (p : ℕ) (values : List JSValue) (v : JSValue) :
    Heap.appendElement v (arrayObject p values) = arrayObject p (values ++ [v]) := by
  simp only [Heap.appendElement, arrayObject, JSObject.put, List.lookup_cons, beq_self_eq_true,
    Option.isSome_some, if_true, List.map_cons, List.map_nil, List.length_append,
    List.length_singleton]

/-- Writing the next element. -/
theorem Heap.setPropertyUint32_next {h : Heap} {ref n : ℕ} {values : List JSValue} (v : JSValue)
    (ho : h.objects[ref]? = some (arrayObject h.arrayProto values))
    (hlength : values.length = min n (2 ^ 31)) :
    (h.setPropertyUint32 ref n v).objects[ref]? =
      some (arrayObject h.arrayProto (if n < 2 ^ 31 then values ++ [v] else values)) := by
  unfold setPropertyUint32
  rw [getElem?_update, ho, Option.map_some]
  simp only [Option.some.injEq]
  rw [show (arrayObject h.arrayProto values).u = .array values from rfl]
  simp only
  rw [if_neg (by omega)]
  by_cases hn : n < 2 ^ 31
  · rw [if_pos ⟨by omega, by omega, rfl⟩, if_pos hn, appendElement_arrayObject]
  · rw [if_neg (fun hc => hn (by omega)), if_neg hn]

/-- What the loop over an array has done: the object holds the pictures of the
    elements so far. -/
structure ElementsDone (h : Heap) (ref : ℕ) (done : List JSConvertible) (values : List JSValue) :
    Prop where
  object : h.objects[ref]? = some (arrayObject h.arrayProto values)
  length : values.length = min done.length (2 ^ 31)
  images : done.length ≤ 2 ^ 31 →
    ∀ (i : ℕ) x v, done[i]? = some x → values[i]? = some v → Image (ref + 1) h x v

/-- One more element. -/
theorem ElementsDone.next {h h' : Heap} {ref : ℕ} {done : List JSConvertible}
    {values : List JSValue} {x : JSConvertible} {v : JSValue}
    (hdone : ElementsDone h ref done values) (hframe : Heap.Frame (· < h.objects.length) h h')
    (himage : Image h.objects.length h' x v) :
    ElementsDone (h'.setPropertyUint32 ref done.length v) ref (done ++ [x])
      (if done.length < 2 ^ 31 then values ++ [v] else values) := by
  have hlt := Heap.lt_of_getElem? hdone.object
  have hobject : h'.objects[ref]? = some (arrayObject h'.arrayProto values) := by
    rw [hframe.objects ref hlt, hframe.arrayProto]
    exact hdone.object
  have hwrite : Heap.Frame (· ≠ ref) h' (h'.setPropertyUint32 ref done.length v) :=
    Heap.frame_update _ _ _
  refine ⟨?_, ?_, fun hlength => ?_⟩
  · rw [hwrite.arrayProto]
    exact Heap.setPropertyUint32_next v hobject hdone.length
  · have hold := hdone.length
    rw [List.length_append, List.length_singleton]
    split_ifs
    · rw [List.length_append, List.length_singleton]
      omega
    · omega
  · rw [List.length_append, List.length_singleton] at hlength
    have hold := hdone.length
    rw [if_pos (by omega)]
    refine forall_getElem?_append (fun i y w hy hw => ?_) (by omega) ?_
    · have himage := hdone.images (by omega) i y w hy hw
      refine (himage.frame hframe (fun _ _ hi => hi) le_rfl).frame hwrite ?_ le_rfl
      intro i hi _ heq
      omega
    · refine himage.frame hwrite ?_ (by omega)
      intro i hi _ heq
      omega

/-- The loop over an array keeps the picture of what is done, or stops where the
    array cannot survive. -/
theorem setElements_spec {h₀ : Heap} (hintact : h₀.Intact) (rest : List JSConvertible)
    (hencodes : ∀ x ∈ rest, ∀ h : Heap, h.Intact → Encodes x h) (done : List JSConvertible)
    (values : List JSValue) (h : Heap) (hframe : Heap.Frame (· < h₀.objects.length) h₀ h)
    (hdone : ElementsDone h h₀.objects.length done values) :
    match setElements rest done.length h₀.objects.length h with
    | .error _ => ¬ (done ++ rest).length < 2 ^ 31 ∨ ∃ x ∈ rest, ¬ Survives x
    | .ok h' => Heap.Frame (· < h₀.objects.length) h₀ h' ∧
        ∃ values', ElementsDone h' h₀.objects.length (done ++ rest) values' := by
  induction rest generalizing done values h with
  | nil =>
      simp only [setElements, List.append_nil]
      exact ⟨hframe, values, hdone⟩
  | cons x rest ih =>
      have hx := hencodes x (List.mem_cons_self ..) h (hintact.frame le_rfl hframe)
      unfold Encodes at hx
      rw [setElements]
      cases hout : x.toJSValue h with
      | error stop =>
          rw [hout] at hx
          exact Or.inr ⟨x, List.mem_cons_self .., hx⟩
      | ok out =>
          rcases out with ⟨v, h'⟩
          rw [hout] at hx
          rcases hx with ⟨hencode, w, rfl, himage⟩
          have hlt := Heap.lt_of_getElem? hdone.object
          by_cases hi : done.length < 2 ^ 32
          · have hstep := hdone.next hencode himage
            have hframe' : Heap.Frame (· < h₀.objects.length) h₀
                (h'.setPropertyUint32 h₀.objects.length done.length w) := by
              refine hframe.trans ((hencode.mono fun i hi => lt_trans hi hlt).trans ?_)
              exact (Heap.frame_update _ _ _).mono fun i hi heq => by omega
            have hrest := ih (fun y hy => hencodes y (List.mem_cons_of_mem _ hy)) (done ++ [x])
              _ _ hframe' hstep
            simp only [if_pos hi, Option.getD_some]
            rw [List.length_append, List.length_singleton, List.append_assoc,
              List.singleton_append] at hrest
            revert hrest
            cases setElements rest (done.length + 1) h₀.objects.length
                (h'.setPropertyUint32 h₀.objects.length done.length w) with
            | error stop =>
                rintro (hlong | ⟨y, hy, hdies⟩)
                · exact Or.inl hlong
                · exact Or.inr ⟨y, List.mem_cons_of_mem _ hy, hdies⟩
            | ok h'' => exact id
          · simp only [if_neg hi]
            refine Or.inl fun hlength => hi ?_
            rw [List.length_append] at hlength
            omega

/-! ## Dictionaries -/

theorem Heap.newObject_eq (h : Heap) :
    h.newObject = h.allocate (dictionaryObject h.objectProto [] []) := by
  unfold newObject dictionaryObject
  rw [List.zipWith_nil_left]

/-- The properties of a dictionary object are named by its keys. -/
theorem mem_zipWith_slot {entries : List (String × JSConvertible)} {values : List JSValue}
    {q : Atom × Property} (hq : q ∈ List.zipWith slot entries values) :
    ∃ e ∈ entries, q.1 = jsNewAtom e.1 := by
  induction entries generalizing values with
  | nil => exact absurd hq (by simp only [List.zipWith_nil_left, List.not_mem_nil, not_false_eq_true])
  | cons e entries ih =>
      cases values with
      | nil => exact absurd hq (by simp only [List.zipWith_nil_right, List.not_mem_nil, not_false_eq_true])
      | cons v values =>
          rw [List.zipWith_cons_cons, List.mem_cons] at hq
          rcases hq with rfl | hq
          · exact ⟨e, List.mem_cons_self .., slot_fst e v⟩
          · rcases ih hq with ⟨e', he', heq⟩
            exact ⟨e', List.mem_cons_of_mem _ he', heq⟩

/-- A name that no key has is no property. -/
theorem lookup_slots_eq_none {entries : List (String × JSConvertible)} {values : List JSValue}
    {atom : Atom} (hnone : ∀ e ∈ entries, jsNewAtom e.1 ≠ atom) :
    (List.zipWith slot entries values).lookup atom = none := by
  rw [List.lookup_eq_none_iff]
  intro q hq
  rcases mem_zipWith_slot hq with ⟨e, he, heq⟩
  rw [heq]
  exact bne_iff_ne.mpr (Ne.symm (hnone e he))

theorem NulFree.of_append {done rest : List (String × JSConvertible)}
    (h : NulFree (done ++ rest)) : NulFree done :=
  fun e he => h e (List.mem_append_left _ he)

theorem Named.of_append {done rest : List (String × JSConvertible)}
    (h : Named (done ++ rest)) : Named done := by
  refine ⟨h.1.of_append, fun hc => h.2 ?_⟩
  rw [List.map_append]
  exact List.mem_append_left _ hc

/-- What the loop over a dictionary has done. -/
structure EntriesDone (h : Heap) (ref : ℕ) (done : List (String × JSConvertible)) (o : JSObject)
    (values : List JSValue) : Prop where
  object : h.objects[ref]? = some o
  classID : o.classID = jsClassObject
  u : o.u = .pointer none
  names : NulFree done → ∀ q ∈ o.properties, q.1 ≠ atomProto ∧ ∃ s, q.1 = jsNewAtom s
  named : Named done →
    o = dictionaryObject h.objectProto done values ∧ values.length = done.length
  images : Named done →
    ∀ (i : ℕ) e v, done[i]? = some e → values[i]? = some v → Image (ref + 1) h e.2 v

/-- With keys that became names, the object is still a plain one. -/
theorem EntriesDone.plainObject {h : Heap} {ref : ℕ} {done : List (String × JSConvertible)}
    {o : JSObject} {values : List JSValue} (hdone : EntriesDone h ref done o values)
    (hnamed : Named done) (hne : ref ≠ h.objectProto) : h.PlainObject ref o where
  object := hdone.object
  ne := hne
  proto := by
    rw [(hdone.named hnamed).1]
    rfl
  u := hdone.u
  extensible := by
    rw [(hdone.named hnamed).1]
    rfl

/-- What is done stays done while the next value is made. -/
theorem EntriesDone.frame {h h' : Heap} {ref : ℕ} {done : List (String × JSConvertible)}
    {o : JSObject} {values : List JSValue} (hdone : EntriesDone h ref done o values)
    (hframe : Heap.Frame (· < h.objects.length) h h') : EntriesDone h' ref done o values where
  object := by
    rw [hframe.objects ref (Heap.lt_of_getElem? hdone.object)]
    exact hdone.object
  classID := hdone.classID
  u := hdone.u
  names := hdone.names
  named hnamed := by
    rw [hframe.objectProto]
    exact hdone.named hnamed
  images hnamed i e v he hv :=
    (hdone.images hnamed i e v he hv).frame hframe (fun _ _ hi => hi) le_rfl

/-- A new key among names that differ from it. -/
theorem lookup_new_key {done : List (String × JSConvertible)} {values : List JSValue}
    {key : String} (hfree : NulFree done) (hkey : '\x00' ∉ key.toList)
    (hnew : key ∉ done.map Prod.fst) :
    (List.zipWith slot done values).lookup (jsNewAtom key) = none := by
  refine lookup_slots_eq_none fun e he heq => hnew ?_
  rw [← jsNewAtom_inj (hfree e he) hkey heq]
  exact List.mem_map_of_mem he

/-- A key that becomes a name is written as a new property. -/
theorem EntriesDone.assign {h : Heap} {ref : ℕ} {done : List (String × JSConvertible)}
    {o : JSObject} {values : List JSValue} {key : String} {x : JSConvertible}
    (hintact : h.Intact) (hne : ref ≠ h.objectProto) (hdone : EntriesDone h ref done o values)
    (hnew : key ∉ done.map Prod.fst) (hnamed : Named (done ++ [(key, x)])) (v : JSValue) :
    o.properties.lookup (jsNewAtom key) = none ∧
      h.setProperty ref (jsNewAtom key) v =
        .ok (h.update ref fun o => o.put (jsNewAtom key) (.value v true true)) := by
  have hlast : (key, x) ∈ done ++ [(key, x)] := List.mem_append_right _ (List.mem_singleton_self _)
  have hkey : key ≠ "__proto__" := by
    intro hkey
    have hmem := List.mem_map_of_mem (f := Prod.fst) hlast
    rw [hkey] at hmem
    exact hnamed.2 (hkey ▸ hmem)
  have hnul : '\x00' ∉ key.toList := hnamed.1 _ hlast
  have hnone : o.properties.lookup (jsNewAtom key) = none := by
    rw [(hdone.named hnamed.of_append).1]
    exact lookup_new_key hnamed.of_append.1 hnul hnew
  exact ⟨hnone, Heap.setProperty_fresh hintact (hdone.plainObject hnamed.of_append hne) hnone
    (jsNewAtom_ne_atomProto hnul hkey) v⟩

/-- One more key. -/
theorem EntriesDone.next {h h' : Heap} {ref : ℕ} {done : List (String × JSConvertible)}
    {o : JSObject} {values : List JSValue} {key : String} {x : JSConvertible} {v : JSValue}
    (hintact : h.Intact) (hne : ref ≠ h.objectProto) (hdone : EntriesDone h ref done o values)
    (hnew : key ∉ done.map Prod.fst) (himage : Image (ref + 1) h x v)
    (hset : h.setProperty ref (jsNewAtom key) v = .ok h') :
    Heap.Frame (· ≠ ref) h h' ∧
      ∃ o', EntriesDone h' ref (done ++ [(key, x)]) o' (values ++ [v]) := by
  rcases Heap.setProperty_spec hdone.object hset with ⟨hframe, o', ho', hassigned⟩
  have hlast : (key, x) ∈ done ++ [(key, x)] := List.mem_append_right _ (List.mem_singleton_self _)
  refine ⟨hframe, o', ho', hassigned.classID.trans hdone.classID, hassigned.u.trans hdone.u,
    fun hfree q hq => ?_, fun hnamed => ?_, fun hnamed => ?_⟩
  · by_cases hkey : key = "__proto__"
    · -- The setter is called, and the names are the old ones.
      have hnamed : Named done := ⟨hfree.of_append, hkey ▸ hnew⟩
      have hplain := hdone.plainObject hnamed hne
      have hnone : o.properties.lookup atomProto = none := by
        rw [(hdone.named hnamed).1]
        exact lookup_new_key hnamed.1 (by decide +kernel) hnamed.2
      rw [hkey] at hset
      have hproto := Heap.setProperty_proto hintact hplain hnone v
      rcases Heap.setProto_spec hdone.object v atomProto with ⟨_, o'', ho'', _, hproperties⟩
      rw [show jsNewAtom "__proto__" = atomProto from rfl, hproto, Except.ok.injEq] at hset
      rw [hset, ho', Option.some.injEq] at ho''
      rw [ho'', hproperties] at hq
      exact hdone.names hfree.of_append q hq
    · rcases hassigned.names q hq with heq | ⟨q', hq', heq⟩
      · rw [heq]
        exact ⟨jsNewAtom_ne_atomProto (hfree _ hlast) hkey, key, rfl⟩
      · rw [← heq]
        exact hdone.names hfree.of_append q' hq'
  · have hdict := hdone.named hnamed.of_append
    rcases hdone.assign hintact hne hnew hnamed v with ⟨hnone, hok⟩
    rw [hok, Except.ok.injEq] at hset
    rw [← hset, Heap.getElem?_update, hdone.object, Option.map_some, Option.some.injEq,
      Heap.put_of_lookup_none hnone] at ho'
    refine ⟨?_, ?_⟩
    · rw [← ho', hframe.objectProto, hdict.1]
      unfold dictionaryObject
      rw [List.zipWith_append hdict.2.symm]
      rfl
    · rw [List.length_append, List.length_append, hdict.2]
      rfl
  · have hdict := hdone.named hnamed.of_append
    have hkeep (i : ℕ) (hi : ref + 1 ≤ i) (_ : i < h.objects.length) : i ≠ ref := by omega
    refine forall_getElem?_append (fun i e w he hw => ?_) hdict.2.symm ?_
    · exact (hdone.images hnamed.of_append i e w he hw).frame hframe hkeep le_rfl
    · exact himage.frame hframe hkeep le_rfl

/-- The loop over a dictionary keeps the picture of what is done, or stops where
    the dictionary cannot survive. -/
theorem setEntries_spec {h₀ : Heap} (hintact : h₀.Intact)
    (rest : List (String × JSConvertible))
    (hencodes : ∀ e ∈ rest, ∀ h : Heap, h.Intact → Encodes e.2 h)
    (done : List (String × JSConvertible)) (hnodup : ((done ++ rest).map Prod.fst).Nodup)
    (o : JSObject) (values : List JSValue) (h : Heap)
    (hframe : Heap.Frame (· < h₀.objects.length) h₀ h)
    (hdone : EntriesDone h h₀.objects.length done o values) :
    match setEntries rest h₀.objects.length h with
    | .error _ => ¬ Named (done ++ rest) ∨ ∃ e ∈ rest, ¬ Survives e.2
    | .ok h' => Heap.Frame (· < h₀.objects.length) h₀ h' ∧
        ∃ o' values', EntriesDone h' h₀.objects.length (done ++ rest) o' values' := by
  induction rest generalizing done o values h with
  | nil =>
      simp only [setEntries, List.append_nil]
      exact ⟨hframe, o, values, hdone⟩
  | cons e rest ih =>
      rcases e with ⟨key, x⟩
      have hx := hencodes (key, x) (List.mem_cons_self ..) h (hintact.frame le_rfl hframe)
      unfold Encodes at hx
      rw [setEntries]
      simp only at hx ⊢
      cases hout : x.toJSValue h with
      | error stop =>
          rw [hout] at hx
          exact Or.inr ⟨(key, x), List.mem_cons_self .., hx⟩
      | ok out =>
          rcases out with ⟨v, h'⟩
          rw [hout] at hx
          rcases hx with ⟨hencode, w, rfl, himage⟩
          have hlt := Heap.lt_of_getElem? hdone.object
          have hframe' : Heap.Frame (· < h₀.objects.length) h₀ h' :=
            hframe.trans (hencode.mono fun i hi => lt_trans hi hlt)
          have hintact' := hintact.frame le_rfl hframe'
          have hne : h₀.objects.length ≠ h'.objectProto := by
            rcases hintact.object with ⟨q, hq, _⟩
            have hlow := Heap.lt_of_getElem? hq
            rw [hframe'.objectProto]
            omega
          have hnew : key ∉ done.map Prod.fst := by
            rw [List.map_append, List.map_cons, List.nodup_append] at hnodup
            exact fun hc => hnodup.2.2 key hc key (List.mem_cons_self ..) rfl
          have himage' : Image (h₀.objects.length + 1) h' x w :=
            himage.frame (Heap.Frame.refl (fun _ => True) h') (fun _ _ _ => trivial) hlt
          have hdone' := hdone.frame hencode
          have hsplit : done ++ (key, x) :: rest = done ++ [(key, x)] ++ rest := by
            rw [List.append_assoc, List.singleton_append]
          rw [hsplit] at hnodup ⊢
          simp only
          cases hset : h'.setProperty h₀.objects.length (jsNewAtom key) w with
          | error stop =>
              refine Or.inl fun hnamed => ?_
              rcases hdone'.assign hintact' hne hnew hnamed.of_append w with ⟨_, hok⟩
              rw [hok] at hset
              exact absurd hset (by simp only [reduceCtorEq, not_false_eq_true])
          | ok h'' =>
              rcases hdone'.next hintact' hne hnew himage' hset with ⟨hwrite, o', hstep⟩
              have hframe'' : Heap.Frame (· < h₀.objects.length) h₀ h'' :=
                hframe'.trans (hwrite.mono fun i hi heq => by omega)
              have hrest := ih (fun e he => hencodes e (List.mem_cons_of_mem _ he)) _ hnodup o' _
                h'' hframe'' hstep
              revert hrest
              simp only
              cases setEntries rest h₀.objects.length h'' with
              | error stop =>
                  rintro (hbad | ⟨e, he, hdies⟩)
                  · exact Or.inl hbad
                  · exact Or.inr ⟨e, List.mem_cons_of_mem _ he, hdies⟩
              | ok _ => exact id

/-! ## Values -/

/-- Keys that differ for Swift differ. -/
theorem nodup_keys_of_canonical {canonical : String → String}
    {entries : List (String × JSConvertible)}
    (hkeys : (entries.map fun e => canonical e.1).Nodup) : (entries.map Prod.fst).Nodup := by
  have hmap : entries.map (fun e => canonical e.1) = (entries.map Prod.fst).map canonical := by
    rw [List.map_map]
    rfl
  rw [hmap] at hkeys
  exact hkeys.of_map

/-- Plain values encode. -/
theorem encodes_of_plain {canonical : String → String} {t : JSConvertible}
    (hplain : Plain canonical t) (h : Heap) (hintact : h.Intact) : Encodes t h := by
  induction hplain generalizing h with
  | string s => exact ⟨Heap.Frame.refl _ _, _, rfl, Image.string s⟩
  | bool b => exact ⟨Heap.Frame.refl _ _, _, rfl, Image.bool b⟩
  | nsNull => exact ⟨Heap.Frame.refl _ _, _, rfl, Image.nsNull⟩
  | int n hn => exact ⟨Heap.Frame.refl _ _, _, rfl, Image.int n⟩
  | double d hfinite hfraction => exact ⟨Heap.Frame.refl _ _, _, rfl, Image.double d⟩
  | array elements helements ih =>
      have hnew := Heap.frame_allocate h (arrayObject h.arrayProto [])
      have hdone : ElementsDone h.newArray.1 h.objects.length [] [] :=
        ⟨Heap.getElem?_allocate h _, rfl, fun _ i x v hx => by
          rw [List.getElem?_nil] at hx
          exact absurd hx (by simp only [reduceCtorEq, not_false_eq_true])⟩
      have hloop := setElements_spec hintact elements (fun x hx h' h₀ => ih x hx h' h₀) [] [] _
        hnew hdone
      unfold Encodes
      rw [JSConvertible.toJSValue, show h.newArray.2 = h.objects.length from rfl]
      rw [List.nil_append, List.length_nil, ← Heap.newArray_eq] at hloop
      revert hloop
      cases setElements elements 0 h.objects.length h.newArray.1 with
      | error stop =>
          rintro hbad hsurvives
          cases hsurvives with
          | array _ hlength hall =>
              rcases hbad with hlong | ⟨x, hx, hdies⟩
              · exact hlong hlength
              · exact hdies (hall x hx)
      | ok h' =>
          rintro ⟨hframe, values, hdone'⟩
          refine ⟨hframe, _, rfl, ?_⟩
          refine Image.array elements _ values le_rfl hdone'.object hdone'.length ?_
          intro hlength i x v hx hv
          exact (hdone'.images hlength i x v hx hv).frame (Heap.Frame.refl (fun _ => True) h')
            (fun _ _ _ => trivial) (Nat.le_succ _)
  | dictionary entries hkeys hvalues ih =>
      have hnew := Heap.frame_allocate h (dictionaryObject h.objectProto [] [])
      have hdone : EntriesDone h.newObject.1 h.objects.length []
          (dictionaryObject h.objectProto [] []) [] := by
        rw [Heap.newObject_eq]
        exact ⟨Heap.getElem?_allocate h _, rfl, rfl, fun _ q hq => absurd hq List.not_mem_nil,
          fun _ => ⟨rfl, rfl⟩, fun _ i e v he => by
            rw [List.getElem?_nil] at he
            exact absurd he (by simp only [reduceCtorEq, not_false_eq_true])⟩
      have hloop := setEntries_spec hintact entries (fun e he h' h₀ => ih e he h' h₀) []
        (nodup_keys_of_canonical hkeys) _ [] _ hnew hdone
      unfold Encodes
      rw [JSConvertible.toJSValue, show h.newObject.2 = h.objects.length from rfl]
      rw [List.nil_append, ← Heap.newObject_eq] at hloop
      revert hloop
      cases setEntries entries h.objects.length h.newObject.1 with
      | error stop =>
          rintro hbad hsurvives
          cases hsurvives with
          | dictionary _ hclean hall =>
              rcases hbad with hunnamed | ⟨e, he, hdies⟩
              · refine hunnamed ⟨fun e he => (hclean e he).1, fun hc => ?_⟩
                rcases List.mem_map.mp hc with ⟨e, he, heq⟩
                exact (hclean e he).2.1 heq
              · exact hdies (hall e he)
      | ok h' =>
          rintro ⟨hframe, o, values, hdone'⟩
          refine ⟨hframe, _, rfl, ?_⟩
          refine Image.dictionary entries _ o values le_rfl hdone'.object hdone'.classID hdone'.u
            hdone'.names hdone'.named ?_
          intro hnamed i e v he hv
          exact (hdone'.images hnamed i e v he hv).frame (Heap.Frame.refl (fun _ => True) h')
            (fun _ _ _ => trivial) (Nat.le_succ _)

end Substrata
