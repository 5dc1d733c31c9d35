import Substrata.Theory.Decode

/-!
# The round trip of plain values

Which plain values come back when they are encoded and decoded again.

Most of what encoding loses, it loses at once: the text behind a NUL, the key
`__proto__`, the elements past the range of an `int`. The key `constructor` is
different. The property is there, but decoding looks through it for the name of
a class, finds no function, and takes the object for an instance of a class
named `unknown`.

One induction shows that the values that survive come back, and another that
whatever comes back survives. Both go over the plain value, with its picture on
the heap at hand.

## Main definitions

* `Same`: Equal values, up to the order of dictionaries.
* `RoundTrips`: Encoding and decoding give the same value.

## Theorems

* `decode_of_survives`: A value that survives decodes from its picture.
* `survives_of_decode`: A value that decodes from its picture survives.
* `roundTrips_iff_survives`: Which plain values come back.
-/

namespace Substrata

open Binary (binary64)

/-- The same value: equal leaves, arrays element by element, and dictionaries
    with the same keys. -/
inductive Same : JSConvertible → JSConvertible → Prop
  | string (s : String) : Same (.string s) (.string s)
  | bool (b : Bool) : Same (.bool b) (.bool b)
  | nsNull : Same .nsNull .nsNull
  | int (n : Int64) : Same (.int n) (.int n)
  | double (d : Double) : Same (.double d) (.double d)
  | array (xs ys : List JSConvertible) (hlength : xs.length = ys.length)
      (helements : ∀ (i : ℕ) x y, xs[i]? = some x → ys[i]? = some y → Same x y) :
      Same (.array xs) (.array ys)
  | dictionary (es fs : List (String × JSConvertible)) (hlength : es.length = fs.length)
      (hentry : ∀ e ∈ es, e.1 ∈ fs.map Prod.fst)
      (hvalues : ∀ e ∈ es, ∀ y, (e.1, y) ∈ fs → Same e.2 y) :
      Same (.dictionary es) (.dictionary fs)

/-- A plain value is the same as itself. -/
theorem Plain.same {canonical : String → String} {t : JSConvertible} (hplain : Plain canonical t) :
    Same t t := by
  induction hplain with
  | string s => exact Same.string s
  | bool b => exact Same.bool b
  | nsNull => exact Same.nsNull
  | int n _ => exact Same.int n
  | double d _ _ => exact Same.double d
  | array xs _ ih =>
      refine Same.array xs xs rfl fun i x y hx hy => ?_
      rw [hx, Option.some.injEq] at hy
      exact hy ▸ ih x (List.mem_of_getElem? hx)
  | dictionary es hkeys _ ih =>
      refine Same.dictionary es es rfl (fun e he => List.mem_map_of_mem he) fun e he y hy => ?_
      have heq := List.inj_on_of_nodup_map (nodup_keys_of_canonical hkeys) he hy rfl
      exact congrArg Prod.snd heq ▸ ih e he

/-- Encoding and decoding in the same context completes with the same value. -/
def RoundTrips (ext : Externals) (h : Heap) (t : JSConvertible) : Prop :=
  ∃ v h', t.toJSValue h = .ok (some v, h') ∧
    ∃ r, (∃ bound, ∀ fuel, bound ≤ fuel → toJSConvertible ext h' fuel v = .ok (some r)) ∧ Same t r

variable {ext : Externals} {h : Heap} {b : ℕ}

/-! ## What survives comes back -/

theorem sizeOf_lt_of_mem_elements {xs : List JSConvertible} {x : JSConvertible} (hx : x ∈ xs) :
    sizeOf x < sizeOf (JSConvertible.array xs) := by
  have hlt := List.sizeOf_lt_of_mem hx
  simp only [JSConvertible.array.sizeOf_spec]
  omega

theorem sizeOf_lt_of_mem_entries {es : List (String × JSConvertible)} {e : String × JSConvertible}
    (he : e ∈ es) : sizeOf e.2 < sizeOf (JSConvertible.dictionary es) := by
  have hlt := List.sizeOf_lt_of_mem he
  rcases e with ⟨key, x⟩
  simp only [Prod.mk.sizeOf_spec] at hlt
  simp only [JSConvertible.dictionary.sizeOf_spec]
  omega

theorem sizeOf_array_pos (xs : List JSConvertible) : 1 ≤ sizeOf (JSConvertible.array xs) := by
  simp only [JSConvertible.array.sizeOf_spec]
  omega

/-- A value that survives decodes from its picture. The depth needed is at most
    its size. -/
theorem decode_of_survives {t : JSConvertible} (hbelow : h.Below b)
    (hplain : Plain ext.canonical t) (hsurvives : Survives t) {v : JSValue}
    (himage : Image b h t v) :
    ∀ fuel, sizeOf t < fuel → toJSConvertible ext h fuel v = .ok (some t) := by
  induction hplain generalizing v with
  | string s =>
      intro fuel hfuel
      obtain ⟨n, rfl⟩ : ∃ n, fuel = n + 1 := ⟨fuel - 1, by omega⟩
      cases hsurvives with
      | string _ hs =>
          cases himage with
          | string _ => rw [decode_string, (cString_eq_self_iff s).mpr hs]
  | bool x =>
      intro fuel hfuel
      obtain ⟨n, rfl⟩ : ∃ n, fuel = n + 1 := ⟨fuel - 1, by omega⟩
      cases himage with
      | bool _ => exact decode_bool n x
  | nsNull =>
      intro fuel hfuel
      obtain ⟨n, rfl⟩ : ∃ n, fuel = n + 1 := ⟨fuel - 1, by omega⟩
      cases himage with
      | nsNull => exact decode_nsNull n
  | int n hn =>
      intro fuel hfuel
      obtain ⟨m, rfl⟩ : ∃ m, fuel = m + 1 := ⟨fuel - 1, by omega⟩
      cases himage with
      | int _ => exact decode_int m hn
  | double d _ hfraction =>
      intro fuel hfuel
      obtain ⟨n, rfl⟩ : ∃ n, fuel = n + 1 := ⟨fuel - 1, by omega⟩
      cases himage with
      | double _ => exact decode_double n hfraction
  | array xs _ ih =>
      intro fuel hfuel
      have hpos := sizeOf_array_pos xs
      obtain ⟨n, rfl⟩ : ∃ n, fuel = n + 2 := ⟨fuel - 2, by omega⟩
      cases hsurvives with
      | array _ hlt hall =>
          cases himage with
          | array _ ref values hlow hobject hlength helements =>
              have hsize : values.length = xs.length := by omega
              rw [decode_array hbelow hlow hobject (by omega)]
              -- Each index gives its element.
              have hloop : (List.range values.length).mapM
                  (elementFromJSValue (toJSConvertible ext h (n + 1)) h ref) = .ok xs := by
                rw [Fallible.mapM_range_eq_ok_iff]
                refine ⟨hsize.symm, fun i x hx => ?_⟩
                have hi : i < xs.length := (List.getElem?_eq_some_iff.mp hx).1
                have hv := List.getElem?_eq_getElem (l := values) (i := i) (by omega)
                have hmem := List.mem_of_getElem? hx
                have hsmall := sizeOf_lt_of_mem_elements hmem
                have hdecode := ih x hmem (hall x hmem) (helements (by omega) i x _ hx hv) (n + 1)
                  (by omega)
                unfold elementFromJSValue
                rw [if_pos (by omega), Heap.getProperty_element hobject (by omega) hv]
                simp only [hdecode, Option.getD_some]
              rw [hloop]
  | dictionary es hkeys _ ih =>
      intro fuel hfuel
      obtain ⟨n, rfl⟩ : ∃ n, fuel = n + 1 := ⟨fuel - 1, by omega⟩
      have hnodup := nodup_keys_of_canonical hkeys
      cases hsurvives with
      | dictionary _ hclean hall =>
          cases himage with
          | dictionary _ ref o values hlow hobject hclass hu hnames hnamed hvalues =>
              have hfree : NulFree es := fun e he => (hclean e he).1
              have hname : Named es := by
                refine ⟨hfree, fun hc => ?_⟩
                rcases List.mem_map.mp hc with ⟨e, he, heq⟩
                exact (hclean e he).2.1 heq
              rcases hnamed hname with ⟨rfl, hlength⟩
              have hconstructor : ∀ e ∈ es, jsNewAtom e.1 ≠ atomConstructor := fun e he heq =>
                (hclean e he).2.2 (jsNewAtom_inj (hfree e he) (by decide +kernel) heq)
              rw [decode_dictionary hbelow hlow hobject
                (getClassName_dictionary hbelow hlow hobject hconstructor)]
              unfold dictionaryFromJSValue
              simp only
              rw [ownPropertyNames_dictionary hobject hlength,
                foldlM_entries ?_ hfree [] hkeys]
              · rfl
              · intro e he
                rcases List.getElem?_of_mem he with ⟨i, hi⟩
                have hlt : i < es.length := (List.getElem?_eq_some_iff.mp hi).1
                have hv := List.getElem?_eq_getElem (l := values) (i := i) (by omega)
                have hsmall := sizeOf_lt_of_mem_entries he
                exact ⟨_, getProperty_slot hobject hfree hnodup hi hv,
                  ih e he (hall e he) (hvalues hname i e _ hi hv) n (by omega)⟩

/-! ## What comes back survives -/

/-- The picture of a plain value is no function. -/
theorem Image.isFunction {t : JSConvertible} {v : JSValue} (himage : Image b h t v) :
    h.isFunction v = false := by
  cases himage with
  | array _ ref values hlow hobject hlength helements =>
      refine (Heap.hasClass_object hobject _).trans (decide_eq_false ?_)
      rw [show (arrayObject h.arrayProto values).classID = jsClassArray from rfl]
      decide
  | dictionary _ ref o values hlow hobject hclass hu hnames hnamed hvalues =>
      refine (Heap.hasClass_object hobject _).trans (decide_eq_false ?_)
      rw [hclass]
      decide
  | int n =>
      unfold jsNewInt64
      split_ifs <;> rfl
  | _ => rfl

/-- The keys that come back are those of C strings. -/
theorem EntryFrom.nulFree {ref : ℕ} {decode : JSValue → Outcome (Option JSConvertible)}
    {e : String × JSConvertible} (hfrom : EntryFrom ext h ref decode e) : '\x00' ∉ e.1.toList := by
  rcases hfrom with ⟨⟨atom, _, hkey⟩, _⟩
  exact JSString.nulFree_of_toSwift hkey

theorem toSwift_jsNewAtom (s : String) :
    (jsNewAtom s).toJSString.toSwift = some (cString s).1 := by
  unfold jsNewAtom
  rw [Atom.toJSString_ofString, JSString.toSwift_ofSwift]

/-- No property of a picture that is named `__proto__` comes back. -/
theorem proto_notMem_of_entries {ref : ℕ} {o : JSObject} (ho : h.objects[ref]? = some o)
    (hu : o.u = .pointer none)
    (hnames : ∀ q ∈ o.properties, q.1 ≠ atomProto ∧ ∃ s, q.1 = jsNewAtom s)
    {decode : JSValue → Outcome (Option JSConvertible)} {fs : List (String × JSConvertible)}
    (hall : ∀ e ∈ fs, EntryFrom ext h ref decode e) : "__proto__" ∉ fs.map Prod.fst := by
  intro hc
  rcases List.mem_map.mp hc with ⟨e, he, hkey⟩
  rcases hall e he with ⟨⟨atom, hatom, hname⟩, _⟩
  unfold Heap.ownPropertyNames at hatom
  rw [ho] at hatom
  simp only [hu, List.nil_append] at hatom
  rcases List.mem_map.mp hatom with ⟨q, hq, rfl⟩
  rcases hnames q (List.mem_filter.mp hq).1 with ⟨hne, s, hs⟩
  rw [hs, toSwift_jsNewAtom, hkey, Option.some.injEq] at hname
  refine hne ?_
  rw [hs, atomProto, ← hname]
  unfold jsNewAtom
  rw [JSString.ofSwift_cString]

/-- The value of an entry that comes back is read under the entry's key. -/
theorem EntryFrom.getProperty {ref : ℕ} {es : List (String × JSConvertible)}
    {values : List JSValue} {decode : JSValue → Outcome (Option JSConvertible)}
    {e : String × JSConvertible} {y : JSConvertible}
    (ho : h.objects[ref]? = some (dictionaryObject h.objectProto es values))
    (hlength : values.length = es.length) (hfree : NulFree es)
    (hkeys : (es.map fun e => ext.canonical e.1).Nodup) (he : e ∈ es)
    (hfrom : EntryFrom ext h ref decode (e.1, y)) :
    ∃ v, h.getProperty ref (jsNewAtom e.1) = .ok v ∧ decode v = .ok (some y) := by
  rcases hfrom with ⟨_, atom, hatom, key, hname, hsame, v, hget, hv⟩
  rw [ownPropertyNames_dictionary ho hlength] at hatom
  rcases List.mem_map.mp hatom with ⟨e', he', rfl⟩
  rw [toSwift_jsNewAtom, (cString_eq_self_iff e'.1).mpr (hfree e' he'), Option.some.injEq] at hname
  rw [← hname] at hsame hget
  have heq := List.inj_on_of_nodup_map hkeys he he' hsame
  rw [← heq] at hget
  exact ⟨v, hget, hv⟩

/-- A value that decodes from its picture survives. -/
theorem survives_of_decode {t : JSConvertible} (hbelow : h.Below b)
    (hplain : Plain ext.canonical t) {v : JSValue} (himage : Image b h t v) {fuel : ℕ}
    {r : JSConvertible} (hdecode : toJSConvertible ext h fuel v = .ok (some r))
    (hsame : Same t r) : Survives t := by
  induction hplain generalizing v fuel r with
  | string s =>
      cases himage with
      | string _ =>
          cases fuel with
          | zero =>
              rw [toJSConvertible_zero] at hdecode
              simp only [reduceCtorEq] at hdecode
          | succ fuel =>
              rw [decode_string, Except.ok.injEq, Option.some.injEq] at hdecode
              rw [← hdecode] at hsame
              refine Survives.string s ((cString_eq_self_iff s).mp ?_)
              generalize (cString s).1 = s' at hsame ⊢
              cases hsame with
              | string _ => rfl
  | bool x => exact Survives.bool x
  | nsNull => exact Survives.nsNull
  | int n _ => exact Survives.int n
  | double d _ _ => exact Survives.double d
  | array xs _ ih =>
      cases himage with
      | array _ ref values hlow hobject hlength helements =>
          rcases elements_of_decode hbelow hlow hobject (by omega) hdecode with
            ⟨hlt, fuel', elements, rfl, hsize, hall⟩
          cases hsame with
          | array _ _ hlength' hpairs =>
              refine Survives.array xs (by omega) fun x hx => ?_
              rcases List.getElem?_of_mem hx with ⟨i, hi⟩
              have hlti : i < xs.length := (List.getElem?_eq_some_iff.mp hi).1
              have hv := List.getElem?_eq_getElem (l := values) (i := i) (by omega)
              have hy := List.getElem?_eq_getElem (l := elements) (i := i) (by omega)
              have hpair := hpairs i x _ hi hy
              rcases hall i _ _ hv hy with ⟨z, hz, heq⟩
              rw [heq] at hpair
              cases z with
              | some z => exact ih x hx (helements (by omega) i x _ hi hv) hz hpair
              | none =>
                  rw [Option.getD_none] at hpair
                  cases hpair with
                  | nsNull => exact Survives.nsNull
  | dictionary es hkeys _ ih =>
      have hnodup := nodup_keys_of_canonical hkeys
      cases himage with
      | dictionary _ ref o values hlow hobject hclass hu hnames hnamed hvalues =>
          cases hsame with
          | dictionary _ fs hlength' hentry hpairs =>
              rcases entries_of_decode hdecode with ⟨hclassName, fuel', hall⟩
              have hfree : NulFree es := by
                intro e he
                rcases List.mem_map.mp (hentry e he) with ⟨e', he', heq⟩
                rw [← heq]
                exact (hall e' he').nulFree
              have hname : Named es := by
                refine ⟨hfree, fun hc => ?_⟩
                rcases List.mem_map.mp hc with ⟨e, he, heq⟩
                refine proto_notMem_of_entries hobject hu (hnames hfree) hall ?_
                rw [← heq]
                exact hentry e he
              rcases hnamed hname with ⟨rfl, hlength⟩
              have hconstructor : ∀ e ∈ es, e.1 ≠ "constructor" := by
                intro e he heq
                rcases List.getElem?_of_mem he with ⟨i, hi⟩
                have hlti : i < es.length := (List.getElem?_eq_some_iff.mp hi).1
                have hv := List.getElem?_eq_getElem (l := values) (i := i) (by omega)
                have hunknown := getClassName_constructor hobject hfree hnodup hi hv heq
                  (hvalues hname i e _ hi hv).isFunction
                unfold classFromJSValue at hclassName
                simp only [hunknown] at hclassName
                rw [if_pos (by decide)] at hclassName
                simp only [Except.ok.injEq, reduceCtorEq] at hclassName
              refine Survives.dictionary es (fun e he => ⟨hfree e he, fun heq => ?_,
                hconstructor e he⟩) fun e he => ?_
              · exact hname.2 (heq ▸ List.mem_map_of_mem he)
              · rcases List.mem_map.mp (hentry e he) with ⟨⟨key, y⟩, hy, rfl⟩
                rcases List.getElem?_of_mem he with ⟨i, hi⟩
                have hlti : i < es.length := (List.getElem?_eq_some_iff.mp hi).1
                have hv := List.getElem?_eq_getElem (l := values) (i := i) (by omega)
                have hslot := getProperty_slot hobject hfree hnodup hi hv
                rcases (hall _ hy).getProperty hobject hlength hfree hkeys he with ⟨v, hget, hdec⟩
                rw [hslot, Except.ok.injEq] at hget
                rw [← hget] at hdec
                exact ih e he (hvalues hname i e _ hi hv) hdec (hpairs e he y hy)

/-! ## The round trip -/

theorem Heap.Frame.below {h h' : Heap} (hintact : h.Intact)
    (hframe : Heap.Frame (· < h.objects.length) h h') : h'.Below h.objects.length := by
  rcases hintact.object with ⟨o, ho, _⟩
  rcases hintact.array with ⟨a, ha, _⟩
  refine ⟨hintact.frame le_rfl hframe, ?_, ?_⟩
  · rw [hframe.objectProto]
    exact Heap.lt_of_getElem? ho
  · rw [hframe.arrayProto]
    exact Heap.lt_of_getElem? ha

theorem survives_of_roundTrips {t : JSConvertible} (hintact : h.Intact)
    (hplain : Plain ext.canonical t) (htrip : RoundTrips ext h t) : Survives t := by
  have hencodes := encodes_of_plain hplain h hintact
  unfold Encodes at hencodes
  rcases htrip with ⟨v, h', hencode, r, ⟨bound, hdecode⟩, hsame⟩
  rw [hencode] at hencodes
  rcases hencodes with ⟨hframe, w, hw, himage⟩
  rw [← Option.some.inj hw] at himage
  exact survives_of_decode (hframe.below hintact) hplain himage (hdecode bound le_rfl) hsame

theorem roundTrips_of_survives {t : JSConvertible} (hintact : h.Intact)
    (hplain : Plain ext.canonical t) (hsurvives : Survives t) : RoundTrips ext h t := by
  have hencodes := encodes_of_plain hplain h hintact
  unfold Encodes at hencodes
  cases hout : t.toJSValue h with
  | error stop =>
      rw [hout] at hencodes
      exact absurd hsurvives hencodes
  | ok out =>
      rcases out with ⟨v, h'⟩
      rw [hout] at hencodes
      rcases hencodes with ⟨hframe, w, rfl, himage⟩
      exact ⟨w, h', hout, t, ⟨sizeOf t + 1, fun fuel hfuel =>
        decode_of_survives (hframe.below hintact) hplain hsurvives himage fuel (by omega)⟩,
        hplain.same⟩

/-- A plain value comes back exactly when no string and no key in it contains a
    NUL, no key in it is `__proto__` or `constructor`, and no array in it is
    longer than an `int` counts. -/
theorem roundTrips_iff_survives {t : JSConvertible} (hintact : h.Intact)
    (hplain : Plain ext.canonical t) : RoundTrips ext h t ↔ Survives t :=
  ⟨survives_of_roundTrips hintact hplain, roundTrips_of_survives hintact hplain⟩

/-! ## Examples -/

/-- An engine that knows no other characters, for values without any. -/
def Externals.simple : Externals :=
  { atof := fun _ => .nan, toPrimitive := fun _ => .exception, jsDescription := fun _ => "",
    canonical := id }

/-- A dictionary of one key comes back unless the key is a special one. -/
theorem plain_entry (key : String) : Plain id (.dictionary [(key, .bool true)]) := by
  refine Plain.dictionary _ (List.nodup_singleton _) fun e he => ?_
  rw [List.mem_singleton] at he
  rw [he]
  exact Plain.bool true

/-- A key that is nothing special. -/
theorem roundTrips_iff_survives_entry :
    RoundTrips Externals.simple Heap.builtins (.dictionary [("key", .bool true)]) ↔
      Survives (.dictionary [("key", .bool true)]) :=
  roundTrips_iff_survives Heap.builtins_intact (plain_entry "key")

/-- A dictionary with a key `constructor` comes back as an instance of a class. -/
theorem exists_not_roundTrips :
    ∃ (ext : Externals) (h : Heap) (t : JSConvertible),
      h.Intact ∧ Plain ext.canonical t ∧ ¬ RoundTrips ext h t := by
  refine ⟨Externals.simple, Heap.builtins, .dictionary [("constructor", .bool true)],
    Heap.builtins_intact, plain_entry "constructor", fun htrip => ?_⟩
  have hsurvives := survives_of_roundTrips Heap.builtins_intact (plain_entry "constructor") htrip
  cases hsurvives with
  | dictionary _ hclean _ => exact (hclean _ (List.mem_singleton_self _)).2.2 rfl

end Substrata
