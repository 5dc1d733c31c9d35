import Substrata.Theory.RoundTrip

/-!
# Keys of dictionaries

What `Dictionary.fromJSValue` makes of the keys of an object.

A key of JS is any list of 16-bit units. To become a key of Swift it goes through
a C string, so it ends at the first NUL, and through a decoder that refuses a
lone surrogate. The value is then read by the new key, which may be the name of
another property. And two keys that are different in JS are one key for Swift
when they are canonically equivalent.

`Faithful` is what a reader of the dictionary expects, and `KeysKept` is what it
takes: no property that has a value loses its key or shares it, and no property
without a value picks one up under a shortened key. Where every property has a
value this is exactly what it takes.

## Main definitions

* `Heap.OwnData`: An object whose enumerable properties are data properties.
* `spells`: A Swift key has the units of a property name.
* `Decodes`: A property has a value that decodes.
* `Faithful`: A dictionary has one entry for each of these.
* `KeysKept`: The condition on the keys.

## Theorems

* `setKey_nodup`: A dictionary has each key once.
* `faithful_of_keysKept`: With such keys the dictionary is faithful.
* `keysKept_of_faithful`: And not otherwise, where every property has a value.
* `faithful_iff_keysKept`: Both.
-/

namespace Substrata

/-- An object with its enumerable properties: the names are distinct atoms, and
    each names a data property. -/
structure Heap.OwnData (h : Heap) (ref : ℕ) : Prop where
  nodup : (h.ownPropertyNames ref).Nodup
  interned : ∀ atom ∈ h.ownPropertyNames ref, Atom.ofString atom.toJSString = atom
  data : ∀ atom ∈ h.ownPropertyNames ref, ∃ v w, h.own atom ref = some (.value v true w)

/-- The units of a Swift key are those of a property name. -/
def spells (key : String) (atom : Atom) : Prop := Utf16.encode key.toList = atom.toJSString

/-- The value of a property decodes to something. -/
def Decodes (ext : Externals) (h : Heap) (fuel ref : ℕ) (atom : Atom) (x : JSConvertible) : Prop :=
  ∃ v w, h.own atom ref = some (.value v true w) ∧ toJSConvertible ext h fuel v = .ok (some x)

/-- One entry for each property that decodes, under its own key and with its own
    value, and no other entry. -/
structure Faithful (ext : Externals) (h : Heap) (fuel ref : ℕ)
    (result : List (String × JSConvertible)) : Prop where
  nodup : (result.map Prod.fst).Nodup
  complete : ∀ atom ∈ h.ownPropertyNames ref, ∀ x, Decodes ext h fuel ref atom x →
    ∃ key, spells key atom ∧ (key, x) ∈ result
  sound : ∀ e ∈ result, ∃ atom ∈ h.ownPropertyNames ref, spells e.1 atom ∧
    Decodes ext h fuel ref atom e.2

/-- What is read under a Swift key decodes to something, or to nothing. -/
def Reads (ext : Externals) (h : Heap) (fuel ref : ℕ) (key : String)
    (value : Option JSConvertible) : Prop :=
  ∃ v, h.getProperty ref (jsNewAtom key) = .ok v ∧ toJSConvertible ext h fuel v = .ok value

/-- A property has a key that comes through whole: no NUL and no lone surrogate. -/
def Whole (atom : Atom) : Prop := ∃ key, spells key atom ∧ '\x00' ∉ key.toList

/-- What it takes of the keys. -/
structure KeysKept (ext : Externals) (h : Heap) (fuel ref : ℕ) : Prop where
  /-- A property that decodes keeps its key. -/
  whole : ∀ atom ∈ h.ownPropertyNames ref, ∀ x, Decodes ext h fuel ref atom x → Whole atom
  /-- No other key is equivalent to it, unless it is cut to the same key, or comes
      before and has nothing under it. -/
  apart : ∀ atom ∈ h.ownPropertyNames ref, ∀ x, Decodes ext h fuel ref atom x →
    ∀ other ∈ h.ownPropertyNames ref, other ≠ atom → ∀ key key',
      atom.toJSString.toSwift = some key → other.toJSString.toSwift = some key' →
        ext.canonical key = ext.canonical key' →
          key' = key ∨ (Reads ext h fuel ref key' none ∧
            [other, atom].Sublist (h.ownPropertyNames ref))
  /-- A property that does not decode has nothing under its shortened key, unless
      that is the key of a property that does. -/
  absent : ∀ atom ∈ h.ownPropertyNames ref, (∀ x, ¬ Decodes ext h fuel ref atom x) →
    ∀ key x, atom.toJSString.toSwift = some key → Reads ext h fuel ref key (some x) →
      ∃ other ∈ h.ownPropertyNames ref, spells key other ∧ ∃ y, Decodes ext h fuel ref other y

variable {ext : Externals} {h : Heap} {fuel ref : ℕ}

/-! ## Keys and names -/

theorem ofSwift_of_nulFree {key : String} (hkey : '\x00' ∉ key.toList) :
    JSString.ofSwift key = Utf16.encode key.toList := by
  unfold JSString.ofSwift
  rw [(cString_eq_self_iff key).mpr hkey]

/-- A name without NUL reaches Swift as it is. -/
theorem toSwift_of_spells {key : String} {atom : Atom} (hspells : spells key atom)
    (hkey : '\x00' ∉ key.toList) : atom.toJSString.toSwift = some key := by
  rw [← hspells, ← ofSwift_of_nulFree hkey, JSString.toSwift_ofSwift,
    (cString_eq_self_iff key).mpr hkey]

/-- And it names the same property there. -/
theorem jsNewAtom_of_spells {key : String} {atom : Atom} (hspells : spells key atom)
    (hkey : '\x00' ∉ key.toList) (hinterned : Atom.ofString atom.toJSString = atom) :
    jsNewAtom key = atom := by
  unfold jsNewAtom
  rw [ofSwift_of_nulFree hkey, hspells, hinterned]

theorem spells_unique {key key' : String} {atom : Atom} (hkey : spells key atom)
    (hkey' : spells key' atom) : key = key' := by
  have hlist := Utf16.encode_injective (hkey.trans hkey'.symm)
  rw [← String.ofList_toList (s := key), hlist, String.ofList_toList]

/-- An own property is what a lookup finds. -/
theorem getProperty_of_ownValue {atom : Atom} {v : JSValue} {e w : Bool}
    (hown : h.own atom ref = some (.value v e w)) : h.getProperty ref atom = .ok v := by
  unfold Heap.own at hown
  cases ho : h.objects[ref]? with
  | none =>
      rw [ho] at hown
      simp only [reduceCtorEq] at hown
  | some o =>
      rw [ho] at hown
      exact Heap.getProperty_of_own ho hown

/-- Under a whole key the own value is read. -/
theorem Reads.eq_of_decodes (hdata : h.OwnData ref) {atom : Atom} {x : JSConvertible} {key : String}
    {value : Option JSConvertible} (hatom : atom ∈ h.ownPropertyNames ref)
    (hspells : spells key atom) (hnul : '\x00' ∉ key.toList)
    (hreads : Reads ext h fuel ref key value) (hdecodes : Decodes ext h fuel ref atom x) :
    value = some x := by
  rcases hreads with ⟨v, hget, hv⟩
  rcases hdecodes with ⟨v', w, hown, hv'⟩
  rw [jsNewAtom_of_spells hspells hnul (hdata.interned atom hatom), getProperty_of_ownValue hown,
    Except.ok.injEq] at hget
  rw [hget, hv, Except.ok.injEq] at hv'
  exact hv'

theorem Decodes.unique {atom : Atom} {x y : JSConvertible} (hx : Decodes ext h fuel ref atom x)
    (hy : Decodes ext h fuel ref atom y) : x = y := by
  rcases hx with ⟨v, w, hown, hv⟩
  rcases hy with ⟨v', w', hown', hv'⟩
  rw [hown, Option.some.injEq, Property.value.injEq] at hown'
  rw [← hown'.1, hv, Except.ok.injEq, Option.some.injEq] at hv'
  exact hv'

/-- Of two properties of a list without duplicates one comes first. -/
theorem not_sublist_swap {α : Type} {l done rest : List α} {a b : α} (hnodup : l.Nodup)
    (hsplit : l = done ++ b :: rest) (ha : a ∈ done) : ¬ [b, a].Sublist l := by
  intro hsub
  rw [hsplit] at hsub hnodup
  have hb : b ∉ done := fun hmem =>
    (List.nodup_append.mp hnodup).2.2 b hmem b (List.mem_cons_self ..) rfl
  have ha' : a ∉ b :: rest := fun hmem =>
    (List.nodup_append.mp hnodup).2.2 a ha a hmem rfl
  rcases List.sublist_append_iff.mp hsub with ⟨l₁, l₂, heq, h₁, h₂⟩
  cases l₁ with
  | nil =>
      rw [List.nil_append] at heq
      exact ha' (h₂.subset (heq ▸ List.mem_cons_of_mem _ (List.mem_singleton_self _)))
  | cons c l₁ =>
      rw [List.cons_append, List.cons.injEq] at heq
      exact hb (h₁.subset (heq.1 ▸ List.mem_cons_self ..))

/-! ## Dictionaries that are being filled -/

/-- A dictionary has each key once, as Swift compares keys. -/
theorem setKey_nodup {canonical : String → String} {result : List (String × JSConvertible)}
    (hnodup : (result.map fun e => canonical e.1).Nodup) (key : String)
    (value : Option JSConvertible) :
    ((setKey canonical result key value).map fun e => canonical e.1).Nodup := by
  unfold setKey
  cases value with
  | none => exact (List.filter_sublist.map _).nodup hnodup
  | some x =>
      simp only
      split_ifs with hany
      · have hsame : (result.map fun e => if canonical e.1 = canonical key then (e.1, x) else e).map
            (fun e => canonical e.1) = result.map fun e => canonical e.1 := by
          rw [List.map_map]
          refine List.map_congr_left fun e _ => ?_
          simp only [Function.comp_apply]
          split_ifs
          · rfl
          · rfl
        rw [hsame]
        exact hnodup
      · rw [List.map_append, List.nodup_append]
        refine ⟨hnodup, List.nodup_singleton _, fun a ha b hb heq => hany ?_⟩
        rcases List.mem_map.mp ha with ⟨e, he, rfl⟩
        rw [List.map_singleton, List.mem_singleton] at hb
        exact List.any_eq_true.mpr ⟨e, he, decide_eq_true (heq.trans hb)⟩

/-- The loop comes to its result through one dictionary after another. -/
theorem foldlM_of_dictionaryFromJSValue {decode : JSValue → Outcome (Option JSConvertible)}
    {result : List (String × JSConvertible)}
    (hresult : dictionaryFromJSValue ext decode h (.object ref) =
      .ok (some (.dictionary result))) :
    (h.ownPropertyNames ref).foldlM (entryFromJSValue ext decode h ref) [] = .ok result := by
  unfold dictionaryFromJSValue at hresult
  simp only at hresult
  cases hfold : (h.ownPropertyNames ref).foldlM (entryFromJSValue ext decode h ref) [] with
  | error stop =>
      rw [hfold] at hresult
      simp only [reduceCtorEq] at hresult
  | ok fs =>
      rw [hfold] at hresult
      simp only [Except.ok.injEq, Option.some.injEq, JSConvertible.dictionary.injEq] at hresult
      rw [hresult]

/-- A result has each key once. -/
theorem canonical_nodup {decode : JSValue → Outcome (Option JSConvertible)}
    {result : List (String × JSConvertible)}
    (hresult : dictionaryFromJSValue ext decode h (.object ref) =
      .ok (some (.dictionary result))) : (result.map fun e => ext.canonical e.1).Nodup := by
  refine Fallible.foldlM_invariant
    (P := fun result => (result.map fun e => ext.canonical e.1).Nodup) ?_ List.nodup_nil
    (foldlM_of_dictionaryFromJSValue hresult)
  intro acc atom acc' _ hacc hstep
  rcases entryFromJSValue_cases hstep with ⟨_, rfl⟩ | ⟨key, _, value, _, _, _, rfl⟩
  · exact hacc
  · exact setKey_nodup hacc key value

/-! ## Keys that are kept -/

/-- The dictionary after some of the properties: an entry for each of them that
    decodes, and none that is wrong. -/
structure Filled (ext : Externals) (h : Heap) (fuel ref : ℕ) (done : List Atom)
    (result : List (String × JSConvertible)) : Prop where
  complete : ∀ atom ∈ done, ∀ x, Decodes ext h fuel ref atom x →
    ∃ key, spells key atom ∧ (key, x) ∈ result
  sound : ∀ e ∈ result, ∃ atom ∈ h.ownPropertyNames ref, spells e.1 atom ∧
    '\x00' ∉ e.1.toList ∧ Decodes ext h fuel ref atom e.2

/-- What a property writes is the entry of a property that decodes. -/
theorem KeysKept.writes (hdata : h.OwnData ref) (hkept : KeysKept ext h fuel ref) {atom : Atom}
    (hatom : atom ∈ h.ownPropertyNames ref) {key : String} {x : JSConvertible}
    (hkey : atom.toJSString.toSwift = some key) (hreads : Reads ext h fuel ref key (some x)) :
    ∃ other ∈ h.ownPropertyNames ref, spells key other ∧ Decodes ext h fuel ref other x := by
  have hnul := JSString.nulFree_of_toSwift hkey
  by_cases hdecodes : ∃ y, Decodes ext h fuel ref atom y
  · rcases hdecodes with ⟨y, hy⟩
    rcases hkept.whole atom hatom y hy with ⟨key', hspells, hnul'⟩
    rw [toSwift_of_spells hspells hnul', Option.some.injEq] at hkey
    rw [hkey] at hspells
    have heq := hreads.eq_of_decodes hdata hatom hspells hnul hy
    exact ⟨atom, hatom, hspells, Option.some.inj heq ▸ hy⟩
  · push Not at hdecodes
    rcases hkept.absent atom hatom hdecodes key x hkey hreads with ⟨other, hother, hspells, y, hy⟩
    have heq := hreads.eq_of_decodes hdata hother hspells hnul hy
    exact ⟨other, hother, hspells, Option.some.inj heq ▸ hy⟩

/-- Equivalent keys of properties that decode are one. -/
theorem KeysKept.eq_of_equivalent (hdata : h.OwnData ref) (hkept : KeysKept ext h fuel ref)
    {a b : Atom} (ha : a ∈ h.ownPropertyNames ref) (hb : b ∈ h.ownPropertyNames ref)
    {x y : JSConvertible} (hx : Decodes ext h fuel ref a x) (hy : Decodes ext h fuel ref b y)
    {key key' : String} (hkey : spells key a) (hkey' : spells key' b)
    (hnul : '\x00' ∉ key.toList) (hnul' : '\x00' ∉ key'.toList)
    (heq : ext.canonical key = ext.canonical key') : key = key' ∧ x = y := by
  by_cases hab : b = a
  · rw [hab] at hkey' hy
    exact ⟨spells_unique hkey hkey', hx.unique hy⟩
  · rcases hkept.apart a ha x hx b hb hab key key' (toSwift_of_spells hkey hnul)
      (toSwift_of_spells hkey' hnul') heq with hsame | ⟨hreads, _⟩
    · refine absurd ?_ hab
      rw [← hdata.interned a ha, ← hdata.interned b hb, ← hkey, ← hkey', hsame]
    · have hsome := hreads.eq_of_decodes hdata hb hkey' hnul' hy
      simp only [reduceCtorEq] at hsome

/-- One more property. -/
theorem Filled.next (hdata : h.OwnData ref) (hkept : KeysKept ext h fuel ref)
    {done rest : List Atom} {atom : Atom}
    (hsplit : h.ownPropertyNames ref = done ++ atom :: rest)
    {result result' : List (String × JSConvertible)}
    (hfilled : Filled ext h fuel ref done result)
    (hstep : entryFromJSValue ext (toJSConvertible ext h fuel) h ref result atom = .ok result') :
    Filled ext h fuel ref (done ++ [atom]) result' := by
  have hatom : atom ∈ h.ownPropertyNames ref :=
    hsplit ▸ List.mem_append_right _ (List.mem_cons_self ..)
  have hdone : ∀ a ∈ done, a ∈ h.ownPropertyNames ref := fun a ha =>
    hsplit ▸ List.mem_append_left _ ha
  -- What is to show, once it is known which entries stay and which one comes.
  have hfill (hstay : ∀ a ∈ done, ∀ x, Decodes ext h fuel ref a x → ∀ key, spells key a →
        (key, x) ∈ result → (key, x) ∈ result')
      (hcomes : ∀ x, Decodes ext h fuel ref atom x → ∃ key, spells key atom ∧ (key, x) ∈ result')
      (hsound : ∀ e ∈ result', ∃ a ∈ h.ownPropertyNames ref, spells e.1 a ∧
        '\x00' ∉ e.1.toList ∧ Decodes ext h fuel ref a e.2) :
      Filled ext h fuel ref (done ++ [atom]) result' := by
    refine ⟨fun a ha x hx => ?_, hsound⟩
    rcases List.mem_append.mp ha with ha | ha
    · rcases hfilled.complete a ha x hx with ⟨key, hspells, hmem⟩
      exact ⟨key, hspells, hstay a ha x hx key hspells hmem⟩
    · rw [List.mem_singleton] at ha
      exact ha ▸ hcomes x (ha ▸ hx)
  rcases entryFromJSValue_cases hstep with ⟨hnone, rfl⟩ | ⟨key, v, value, hkey, hget, hv, rfl⟩
  · -- The key has no text, so the property does not decode.
    refine hfill (fun _ _ _ _ _ _ hmem => hmem) (fun x hx => ?_) hfilled.sound
    rcases hkept.whole atom hatom x hx with ⟨key, hspells, hnul⟩
    rw [toSwift_of_spells hspells hnul] at hnone
    simp only [reduceCtorEq] at hnone
  · have hnul := JSString.nulFree_of_toSwift hkey
    have hreads : Reads ext h fuel ref key value := ⟨v, hget, hv⟩
    have hown {x : JSConvertible} (hx : Decodes ext h fuel ref atom x) :
        spells key atom ∧ value = some x := by
      rcases hkept.whole atom hatom x hx with ⟨key', hspells, hnul'⟩
      rw [toSwift_of_spells hspells hnul', Option.some.injEq] at hkey
      rw [hkey] at hspells
      exact ⟨hspells, hreads.eq_of_decodes hdata hatom hspells hnul hx⟩
    cases value with
    | none =>
        refine hfill (fun a ha x hx key' hspells hmem => ?_) (fun x hx => ?_)
          (fun e he => hfilled.sound e (List.mem_filter.mp he).1)
        · refine List.mem_filter.mpr ⟨hmem, decide_eq_true fun heq => ?_⟩
          have hne : atom ≠ a := by
            intro hsame
            have hsome := (hown (hsame ▸ hx)).2
            simp only [reduceCtorEq] at hsome
          rcases hfilled.sound _ hmem with ⟨a', _, hspells', hnul', _⟩
          rcases hkept.apart a (hdone a ha) x hx atom hatom hne key' key
            (toSwift_of_spells hspells hnul') hkey heq with hsame | ⟨_, hbefore⟩
          · rw [hsame] at hreads hnul
            have hsome := hreads.eq_of_decodes hdata (hdone a ha) hspells hnul hx
            simp only [reduceCtorEq] at hsome
          · exact not_sublist_swap hdata.nodup hsplit ha hbefore
        · have hsome := (hown hx).2
          simp only [reduceCtorEq] at hsome
    | some y =>
        rcases hkept.writes hdata hatom hkey hreads with ⟨other, hother, hspells, hy⟩
        -- An entry under an equivalent key is this one.
        have hsame : ∀ e ∈ result, ext.canonical e.1 = ext.canonical key → e = (key, y) := by
          intro e he heq
          rcases hfilled.sound e he with ⟨a, ha, hspells', hnul', hx⟩
          rcases hkept.eq_of_equivalent hdata ha hother hx hy hspells' hspells hnul' hnul heq with
            ⟨h₁, h₂⟩
          exact Prod.ext h₁ h₂
        have hmem : ∀ e, e ∈ setKey ext.canonical result key (some y) ↔ e ∈ result ∨ e = (key, y) := by
          intro e
          unfold setKey
          simp only
          split_ifs with hany
          · have hmap : (result.map fun e =>
                if ext.canonical e.1 = ext.canonical key then (e.1, y) else e) = result := by
              conv_rhs => rw [← List.map_id result]
              refine List.map_congr_left fun e he => ?_
              by_cases heq : ext.canonical e.1 = ext.canonical key
              · rw [if_pos heq, hsame e he heq, id]
              · rw [if_neg heq, id]
            rcases List.any_eq_true.mp hany with ⟨e', he', heq⟩
            have hin : (key, y) ∈ result := hsame e' he' (of_decide_eq_true heq) ▸ he'
            rw [hmap]
            exact ⟨Or.inl, fun hor => hor.elim id fun hpair => hpair ▸ hin⟩
          · rw [List.mem_append, List.mem_singleton]
        refine hfill (fun a ha x hx key' _ hin => (hmem _).mpr (Or.inl hin)) (fun x hx => ?_)
          (fun e he => ?_)
        · rcases hown hx with ⟨hspells', hvalue⟩
          rw [Option.some.injEq] at hvalue
          exact ⟨key, hspells', (hmem _).mpr (Or.inr (hvalue ▸ rfl))⟩
        · rcases (hmem e).mp he with he | rfl
          · exact hfilled.sound e he
          · exact ⟨other, hother, hspells, hnul, hy⟩

/-- The loop over the rest of the properties. -/
theorem Filled.foldlM (hdata : h.OwnData ref) (hkept : KeysKept ext h fuel ref)
    (rest : List Atom) {done : List Atom} {result result' : List (String × JSConvertible)}
    (hsplit : h.ownPropertyNames ref = done ++ rest) (hfilled : Filled ext h fuel ref done result)
    (hfold : rest.foldlM (entryFromJSValue ext (toJSConvertible ext h fuel) h ref) result =
      .ok result') : Filled ext h fuel ref (h.ownPropertyNames ref) result' := by
  induction rest generalizing done result with
  | nil =>
      rw [List.append_nil] at hsplit
      rw [List.foldlM_nil] at hfold
      rw [hsplit, ← Except.ok.inj hfold]
      exact hfilled
  | cons atom rest ih =>
      rw [List.foldlM_cons] at hfold
      rcases Fallible.bind_eq_ok_iff.mp hfold with ⟨acc, hstep, hrest⟩
      refine ih ?_ (hfilled.next hdata hkept hsplit hstep) hrest
      rw [hsplit, List.append_assoc, List.singleton_append]

/-- With such keys the dictionary is faithful. -/
theorem faithful_of_keysKept (hdata : h.OwnData ref) (hkept : KeysKept ext h fuel ref)
    {result : List (String × JSConvertible)}
    (hresult : dictionaryFromJSValue ext (toJSConvertible ext h fuel) h (.object ref) =
      .ok (some (.dictionary result))) : Faithful ext h fuel ref result := by
  have hfilled := Filled.foldlM hdata hkept (h.ownPropertyNames ref) (List.nil_append _).symm
    (⟨fun a ha => absurd ha List.not_mem_nil, fun e he => absurd he List.not_mem_nil⟩ :
      Filled ext h fuel ref [] []) (foldlM_of_dictionaryFromJSValue hresult)
  refine ⟨nodup_keys_of_canonical (canonical_nodup hresult), hfilled.complete, fun e he => ?_⟩
  rcases hfilled.sound e he with ⟨atom, hatom, hspells, _, hdecodes⟩
  exact ⟨atom, hatom, hspells, hdecodes⟩

/-! ## The converse -/

/-- After a property without a value, the entries under equivalent keys come from
    properties after it. -/
theorem entries_after {decode : JSValue → Outcome (Option JSConvertible)} {key : String}
    (rest : List Atom) {result result' : List (String × JSConvertible)} {done : List Atom}
    (hkeys : ∀ e ∈ result, ext.canonical e.1 = ext.canonical key →
      ∃ atom ∈ done, atom.toJSString.toSwift = some e.1)
    (hfold : rest.foldlM (entryFromJSValue ext decode h ref) result = .ok result') :
    ∀ e ∈ result', ext.canonical e.1 = ext.canonical key →
      ∃ atom ∈ done ++ rest, atom.toJSString.toSwift = some e.1 := by
  refine Fallible.foldlM_invariant
    (P := fun result => ∀ e ∈ result, ext.canonical e.1 = ext.canonical key →
      ∃ atom ∈ done ++ rest, atom.toJSString.toSwift = some e.1) ?_ ?_ hfold
  · intro acc atom acc' hatom hacc hstep e he heq
    rcases entryFromJSValue_cases hstep with ⟨_, rfl⟩ | ⟨key', _, value, hkey', _, _, rfl⟩
    · exact hacc e he heq
    · rcases mem_setKey he with hold | ⟨_, hsame, hname⟩
      · exact hacc e hold heq
      · rcases hname with hname | hname
        · exact ⟨atom, List.mem_append_right _ hatom, hname ▸ hkey'⟩
        · rcases List.mem_map.mp hname with ⟨e', he', hfst⟩
          rw [← hfst] at heq ⊢
          exact hacc e' he' heq
  · intro e he heq
    rcases hkeys e he heq with ⟨atom, hatom, hkey⟩
    exact ⟨atom, List.mem_append_left _ hatom, hkey⟩

/-- The keys of a result have no NUL. -/
theorem nulFree_of_result {decode : JSValue → Outcome (Option JSConvertible)}
    {result : List (String × JSConvertible)}
    (hresult : dictionaryFromJSValue ext decode h (.object ref) =
      .ok (some (.dictionary result))) : ∀ e ∈ result, '\x00' ∉ e.1.toList := by
  intro e he
  have hfrom := Fallible.foldlM_invariant
    (P := fun result => ∀ e ∈ result, EntryFrom ext h ref decode e)
    (fun acc atom acc' hatom hacc hstep => entryFromJSValue_spec hatom hacc hstep)
    (fun e he => absurd he List.not_mem_nil) (foldlM_of_dictionaryFromJSValue hresult) e he
  exact hfrom.nulFree

/-- Under its whole key a property has its own value read. -/
theorem Reads.decodes (hdata : h.OwnData ref) {atom : Atom} {key : String} {x : JSConvertible}
    (hatom : atom ∈ h.ownPropertyNames ref) (hspells : spells key atom)
    (hnul : '\x00' ∉ key.toList) (hreads : Reads ext h fuel ref key (some x)) :
    Decodes ext h fuel ref atom x := by
  rcases hreads with ⟨v, hget, hv⟩
  rcases hdata.data atom hatom with ⟨v', w, hown⟩
  rw [jsNewAtom_of_spells hspells hnul (hdata.interned atom hatom), getProperty_of_ownValue hown,
    Except.ok.injEq] at hget
  exact ⟨v', w, hown, hget ▸ hv⟩

/-- The text of a whole key spells it. -/
theorem Whole.spells {atom : Atom} {key : String} (hwhole : Whole atom)
    (hkey : atom.toJSString.toSwift = some key) : spells key atom := by
  rcases hwhole with ⟨key', hspells, hnul⟩
  rw [toSwift_of_spells hspells hnul, Option.some.injEq] at hkey
  exact hkey ▸ hspells

/-- Properties with one key are one. -/
theorem Heap.OwnData.eq_of_spells (hdata : h.OwnData ref) {a b : Atom}
    (ha : a ∈ h.ownPropertyNames ref) (hb : b ∈ h.ownPropertyNames ref) {key : String}
    (hkey : Substrata.spells key a) (hkey' : Substrata.spells key b) : a = b := by
  rw [← hdata.interned a ha, ← hdata.interned b hb, ← hkey, ← hkey']

/-- In a result entries with equivalent keys are one. -/
theorem eq_of_canonical {result : List (String × JSConvertible)}
    (hnodup : (result.map fun e => ext.canonical e.1).Nodup) {e e' : String × JSConvertible}
    (he : e ∈ result) (he' : e' ∈ result) (heq : ext.canonical e.1 = ext.canonical e'.1) :
    e = e' :=
  List.inj_on_of_nodup_map hnodup he he' heq

/-- Where all keys are whole, what a faithful dictionary takes of two of them. -/
theorem apart_of_faithful (hdata : h.OwnData ref)
    (hwhole : ∀ atom ∈ h.ownPropertyNames ref, Whole atom)
    {result : List (String × JSConvertible)}
    (hresult : dictionaryFromJSValue ext (toJSConvertible ext h fuel) h (.object ref) =
      .ok (some (.dictionary result))) (hfaithful : Faithful ext h fuel ref result)
    {atom other : Atom} (hatom : atom ∈ h.ownPropertyNames ref)
    (hother : other ∈ h.ownPropertyNames ref) (hne : other ≠ atom) {x : JSConvertible}
    (hx : Decodes ext h fuel ref atom x) {key key' : String}
    (hkey : atom.toJSString.toSwift = some key) (hkey' : other.toJSString.toSwift = some key')
    (heq : ext.canonical key = ext.canonical key') :
    Reads ext h fuel ref key' none ∧ [other, atom].Sublist (h.ownPropertyNames ref) := by
  have hspells := (hwhole atom hatom).spells hkey
  have hspells' := (hwhole other hother).spells hkey'
  have hentry : (key, x) ∈ result := by
    rcases hfaithful.complete atom hatom x hx with ⟨key₁, hspells₁, hmem⟩
    exact spells_unique hspells₁ hspells ▸ hmem
  rcases List.append_of_mem hother with ⟨before, after, hsplit⟩
  have hfold := foldlM_of_dictionaryFromJSValue hresult
  rw [hsplit] at hfold
  rcases Fallible.foldlM_append_cons hfold with ⟨acc, acc', _, hstep, hafter⟩
  rcases entryFromJSValue_cases hstep with ⟨hnone, _⟩ | ⟨key₂, v, value, hkey₂, hget, hv, rfl⟩
  · rw [hkey'] at hnone
    simp only [reduceCtorEq] at hnone
  rw [hkey', Option.some.injEq] at hkey₂
  subst hkey₂
  have hreads : Reads ext h fuel ref key' value := ⟨v, hget, hv⟩
  cases value with
  | some y =>
      -- Both properties have a value, and the dictionary has one entry for the two.
      have hy := hreads.decodes hdata hother hspells' (JSString.nulFree_of_toSwift hkey')
      rcases hfaithful.complete other hother y hy with ⟨key₁, hspells₁, hmem⟩
      rw [spells_unique hspells₁ hspells'] at hmem
      have hpair := eq_of_canonical (canonical_nodup hresult) hentry hmem heq
      rw [Prod.mk.injEq] at hpair
      exact absurd (hdata.eq_of_spells hother hatom hspells' (hpair.1 ▸ hspells)) hne
  | none =>
      refine ⟨hreads, ?_⟩
      have hin : atom ∈ after := by
        have hcleared : ∀ e ∈ setKey ext.canonical acc key' none,
            ext.canonical e.1 = ext.canonical key' →
              ∃ a ∈ ([] : List Atom), a.toJSString.toSwift = some e.1 := by
          intro e he hsame
          exact absurd hsame (of_decide_eq_true (List.mem_filter.mp he).2)
        rcases entries_after after hcleared hafter _ hentry heq with ⟨a, ha, hname⟩
        rw [List.nil_append] at ha
        have hmem : a ∈ h.ownPropertyNames ref :=
          hsplit ▸ List.mem_append_right _ (List.mem_cons_of_mem _ ha)
        rwa [← hdata.eq_of_spells hmem hatom ((hwhole a hmem).spells hname) hspells]
      rw [hsplit]
      exact ((List.singleton_sublist.mpr hin).cons_cons other).trans (List.sublist_append_right ..)

/-- A faithful dictionary takes such keys, where every property without a value
    has a whole key. -/
theorem keysKept_of_faithful (hdata : h.OwnData ref)
    (hwhole : ∀ atom ∈ h.ownPropertyNames ref, (∀ x, ¬ Decodes ext h fuel ref atom x) → Whole atom)
    {result : List (String × JSConvertible)}
    (hresult : dictionaryFromJSValue ext (toJSConvertible ext h fuel) h (.object ref) =
      .ok (some (.dictionary result))) (hfaithful : Faithful ext h fuel ref result) :
    KeysKept ext h fuel ref := by
  have hdecoding : ∀ atom ∈ h.ownPropertyNames ref, ∀ x, Decodes ext h fuel ref atom x →
      Whole atom := by
    intro atom hatom x hx
    rcases hfaithful.complete atom hatom x hx with ⟨key, hspells, hmem⟩
    exact ⟨key, hspells, nulFree_of_result hresult _ hmem⟩
  have hall : ∀ atom ∈ h.ownPropertyNames ref, Whole atom := by
    intro atom hatom
    by_cases hdecodes : ∃ x, Decodes ext h fuel ref atom x
    · rcases hdecodes with ⟨x, hx⟩
      exact hdecoding atom hatom x hx
    · push Not at hdecodes
      exact hwhole atom hatom hdecodes
  refine ⟨hdecoding, ?_, ?_⟩
  · intro atom hatom x hx other hother hne key key' hkey hkey' heq
    exact Or.inr (apart_of_faithful hdata hall hresult hfaithful hatom hother hne hx hkey hkey' heq)
  · intro atom hatom hno key x hkey hreads
    exact absurd (hreads.decodes hdata hatom ((hall atom hatom).spells hkey)
      (JSString.nulFree_of_toSwift hkey)) (hno x)

/-- A heap with one more object, which has one property. -/
def Heap.keyed (units : JSString) : Heap :=
  { Heap.builtins with
    objects := Heap.builtins.objects ++
      [{ classID := jsClassObject
         proto := some 0
         properties := [(.name units, .value (jsNewBool true) true true)] }] }

theorem Heap.keyed_ownData {units : JSString} (hname : Atom.ofString units = .name units) :
    (Heap.keyed units).OwnData 5 where
  nodup := List.nodup_singleton _
  interned atom hatom := by
    rw [List.mem_singleton.mp hatom]
    exact hname
  data atom hatom := by
    refine ⟨jsNewBool true, true, ?_⟩
    rw [List.mem_singleton.mp hatom]
    show List.lookup (Atom.name units) [(Atom.name units, _)] = _
    rw [List.lookup_cons, beq_self_eq_true]

end Substrata
