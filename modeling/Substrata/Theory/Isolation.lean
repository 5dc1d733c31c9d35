import Substrata.Theory.Picture

/-!
# What encoding makes of references

A `JSClass` or a `JSFunction` belongs to a context, and in another one it has no value. Only
the two leaf encoders ask which context it is: an array writes `undefined` where an element
has no value, and a dictionary leaves the key out. `Isolated` says what a tree of values
becomes that way, down to every object that is made for it, so no reference of another
context is in there.

The objects are filled by ordinary assignment, and scripts can get in its way: a read-only
property of `Object.prototype` makes an assignment to a key of that name fail, and a setter
runs a script. `Carried` excludes that for the keys of a tree, and for the fields of the
errors in it.

## Main definitions

* `Carried`: Trees that can be written into a heap.
* `Isolated`: What a tree becomes.
* `OwnLeaf`: The leaves of a tree that belong to a context.
* `Heap.Contains`: The references in a value.

## Theorems

* `setErrorStrings_spec`: The fields of an error.
* `setElements_isolated`, `setEntries_isolated`: The two loops.
* `Isolated.contains`: There is no other reference in what a tree becomes.
* `isolated_of_carried`: A tree becomes what it should.
* `exists_not_isolated`: A key that `Object.prototype` refuses.
-/

namespace Substrata

/-! ## Trees and what they become -/

/-- The fields of an error that are set. -/
def errorProperties (fields : List (String × Option String)) : List (Atom × Property) :=
  fields.filterMap fun field =>
    field.2.map fun s => (jsNewAtom field.1, .value (.string (JSString.ofSwift s)) true true)

/-- The fields of an error in the order in which they are set. -/
def errorEntries (name message cause stack : Option String) : List (String × Option String) :=
  [("message", message), ("name", name), ("cause", cause), ("stack", stack)]

/-- An error with some fields. -/
def errorObject (errorProto : ℕ) (fields : List (String × Option String)) : JSObject :=
  { classID := jsClassError, proto := some errorProto, properties := errorProperties fields }

/-- The properties of a dictionary of which some values have no JS value. -/
def keptSlots (entries : List (String × JSConvertible)) (values : List (Option JSValue)) :
    List (Atom × Property) :=
  (entries.zip values).filterMap fun p => p.2.map (slot p.1)

/-- The plain object with a property for each key that has a value. -/
def keptObject (objectProto : ℕ) (entries : List (String × JSConvertible))
    (values : List (Option JSValue)) : JSObject :=
  { classID := jsClassObject, proto := some objectProto, properties := keptSlots entries values }

/-- Trees that can be written into a heap: keys are C strings, nothing inherited stands in
    the way of a key or of the field of an error, and the indices of elements are of type
    `int`. A dictionary has each key once, and a wrapper is one of an object that there is. -/
inductive Carried (h : Heap) : JSConvertible → Prop
  | string (s : String) : Carried h (.string s)
  | bool (b : Bool) : Carried h (.bool b)
  | nsNull : Carried h .nsNull
  | int (n : Int64) : Carried h (.int n)
  | double (d : Double) : Carried h (.double d)
  | date (ms : Double) : Carried h (.date ms)
  | array (elements : List JSConvertible) (hlength : elements.length ≤ 2 ^ 31)
      (helements : ∀ x ∈ elements, Carried h x) : Carried h (.array elements)
  | dictionary (entries : List (String × JSConvertible))
      (hnodup : (entries.map Prod.fst).Nodup) (hnul : NulFree entries)
      (hopen : ∀ e ∈ entries, h.Open (jsNewAtom e.1) (some h.objectProto))
      (hvalues : ∀ e ∈ entries, Carried h e.2) : Carried h (.dictionary entries)
  | jsFunction (value context : ℕ) (name : String)
      (hlive : context = h.context → value < h.objects.length) :
      Carried h (.jsFunction value context name)
  | jsClass (value context : ℕ) (className : String)
      (hlive : context = h.context → value < h.objects.length) :
      Carried h (.jsClass value context className)
  | jsError (name message cause stack : Option String)
      (hopen : ∀ field ∈ errorEntries name message cause stack,
        h.Open (jsNewAtom field.1) (some h.errorProto)) :
      Carried h (.jsError name message cause stack)

/-- What a tree becomes, in objects numbered from `b` on: `none` for a leaf of another
    context, `undefined` in an array where there is nothing, and no key in a dictionary. -/
inductive Isolated (b : ℕ) (h : Heap) : JSConvertible → Option JSValue → Prop
  | string (s : String) : Isolated b h (.string s) (some (.string (JSString.ofSwift s)))
  | bool (x : Bool) : Isolated b h (.bool x) (some (jsNewBool x))
  | nsNull : Isolated b h .nsNull (some JSValue.null)
  | int (n : Int64) : Isolated b h (.int n) (some (jsNewInt64 n))
  | double (d : Double) : Isolated b h (.double d) (some (jsNewFloat64 d))
  | date (ms : Double) (ref : ℕ) (hlow : b ≤ ref)
      (hobject : h.objects[ref]? =
        some { classID := jsClassDate, proto := some h.dateProto,
               u := .objectData (jsNewFloat64 ms) }) :
      Isolated b h (.date ms) (some (.object ref))
  | array (elements : List JSConvertible) (ref : ℕ) (values : List (Option JSValue))
      (hlow : b ≤ ref)
      (hobject : h.objects[ref]? =
        some (arrayObject h.arrayProto (values.map (·.getD JSValue.undefined))))
      (hlength : values.length = elements.length)
      (helements : ∀ (i : ℕ) x v, elements[i]? = some x → values[i]? = some v →
        Isolated b h x v) :
      Isolated b h (.array elements) (some (.object ref))
  | dictionary (entries : List (String × JSConvertible)) (ref : ℕ)
      (values : List (Option JSValue)) (hlow : b ≤ ref)
      (hobject : h.objects[ref]? = some (keptObject h.objectProto entries values))
      (hlength : values.length = entries.length)
      (hvalues : ∀ (i : ℕ) e v, entries[i]? = some e → values[i]? = some v →
        Isolated b h e.2 v) :
      Isolated b h (.dictionary entries) (some (.object ref))
  | ownFunction (value : ℕ) (name : String) :
      Isolated b h (.jsFunction value h.context name) (some (.object value))
  | foreignFunction (value context : ℕ) (name : String) (hforeign : context ≠ h.context) :
      Isolated b h (.jsFunction value context name) none
  | ownClass (value : ℕ) (className : String) :
      Isolated b h (.jsClass value h.context className) (some (.object value))
  | foreignClass (value context : ℕ) (className : String) (hforeign : context ≠ h.context) :
      Isolated b h (.jsClass value context className) none
  | jsError (name message cause stack : Option String) (ref : ℕ) (hlow : b ≤ ref)
      (hobject : h.objects[ref]? =
        some (errorObject h.errorProto (errorEntries name message cause stack))) :
      Isolated b h (.jsError name message cause stack) (some (.object ref))

/-- A leaf that belongs to a context. -/
inductive OwnLeaf (context ref : ℕ) : JSConvertible → Prop
  | jsFunction (name : String) : OwnLeaf context ref (.jsFunction ref context name)
  | jsClass (className : String) : OwnLeaf context ref (.jsClass ref context className)
  | element {elements : List JSConvertible} {x : JSConvertible} (hx : x ∈ elements)
      (hleaf : OwnLeaf context ref x) : OwnLeaf context ref (.array elements)
  | entry {entries : List (String × JSConvertible)} {e : String × JSConvertible}
      (he : e ∈ entries) (hleaf : OwnLeaf context ref e.2) :
      OwnLeaf context ref (.dictionary entries)

/-- The references in a value, as far as they are reached through objects numbered from `b`
    on. -/
inductive Heap.Contains (h : Heap) (b : ℕ) : JSValue → ℕ → Prop
  | here (ref : ℕ) : Contains h b (.object ref) ref
  | element {r ref : ℕ} {o : JSObject} {values : List JSValue} {v : JSValue} (hlow : b ≤ r)
      (ho : h.objects[r]? = some o) (hu : o.u = .array values) (hv : v ∈ values)
      (hcontains : Contains h b v ref) : Contains h b (.object r) ref
  | property {r ref : ℕ} {o : JSObject} {atom : Atom} {v : JSValue} {e w : Bool} (hlow : b ≤ r)
      (ho : h.objects[r]? = some o) (hv : (atom, Property.value v e w) ∈ o.properties)
      (hcontains : Contains h b v ref) : Contains h b (.object r) ref

/-- What a tree became stays where its objects stay. -/
theorem Isolated.frame {b b' : ℕ} {h h' : Heap} {t : JSConvertible} {v : Option JSValue}
    {keep : ℕ → Prop} (hisolated : Isolated b h t v) (hframe : Heap.Frame keep h h')
    (hkeep : ∀ i, b ≤ i → i < h.objects.length → keep i) (hb : b' ≤ b) :
    Isolated b' h' t v := by
  have hsame {ref : ℕ} {o : JSObject} (hlow : b ≤ ref) (ho : h.objects[ref]? = some o) :
      h'.objects[ref]? = some o := by
    rw [hframe.objects ref (hkeep ref hlow (Heap.lt_of_getElem? ho)), ho]
  induction hisolated with
  | string s => exact Isolated.string s
  | bool x => exact Isolated.bool x
  | nsNull => exact Isolated.nsNull
  | int n => exact Isolated.int n
  | double d => exact Isolated.double d
  | date ms ref hlow hobject =>
      refine Isolated.date ms ref (le_trans hb hlow) ?_
      rw [hframe.dateProto]
      exact hsame hlow hobject
  | array elements ref values hlow hobject hlength helements ih =>
      refine Isolated.array elements ref values (le_trans hb hlow) ?_ hlength ih
      rw [hframe.arrayProto]
      exact hsame hlow hobject
  | dictionary entries ref values hlow hobject hlength hvalues ih =>
      refine Isolated.dictionary entries ref values (le_trans hb hlow) ?_ hlength ih
      rw [hframe.objectProto]
      exact hsame hlow hobject
  | ownFunction value name =>
      rw [← hframe.context]
      exact Isolated.ownFunction value name
  | foreignFunction value context name hforeign =>
      exact Isolated.foreignFunction value context name (hframe.context ▸ hforeign)
  | ownClass value className =>
      rw [← hframe.context]
      exact Isolated.ownClass value className
  | foreignClass value context className hforeign =>
      exact Isolated.foreignClass value context className (hframe.context ▸ hforeign)
  | jsError name message cause stack ref hlow hobject =>
      refine Isolated.jsError name message cause stack ref (le_trans hb hlow) ?_
      rw [hframe.errorProto]
      exact hsame hlow hobject

/-! ## Errors -/

/-- The fields of an error are set one after the other, each as a new property. -/
theorem setErrorStrings_spec {h₀ : Heap} {ref : ℕ} (href : h₀.objects.length ≤ ref)
    {p : Option ℕ} (fields : List (String × Option String))
    (hnodup : (fields.map fun field => jsNewAtom field.1).Nodup)
    (hopen : ∀ field ∈ fields, h₀.Open (jsNewAtom field.1) p) (h : Heap)
    (hframe : Heap.Frame (· < h₀.objects.length) h₀ h) (o : JSObject)
    (ho : h.objects[ref]? = some o) (hu : o.u = .pointer none) (hextensible : o.extensible = true)
    (hproto : o.proto = p)
    (hnew : ∀ field ∈ fields, o.properties.lookup (jsNewAtom field.1) = none) :
    ∃ h', fields.foldlM (setErrorString ref) h = .ok h' ∧
      Heap.Frame (· < h₀.objects.length) h₀ h' ∧
      h'.objects[ref]? = some { o with properties := o.properties ++ errorProperties fields } := by
  induction fields generalizing h o with
  | nil =>
      refine ⟨h, rfl, hframe, ?_⟩
      rw [show errorProperties [] = [] from rfl, List.append_nil, ho]
  | cons field rest ih =>
      rcases field with ⟨key, text⟩
      rw [List.map_cons, List.nodup_cons] at hnodup
      have hrest := ih hnodup.2 fun f hf => hopen f (List.mem_cons_of_mem _ hf)
      have hnewRest (f : String × Option String) (hf : f ∈ rest) :
          o.properties.lookup (jsNewAtom f.1) = none := hnew f (List.mem_cons_of_mem _ hf)
      cases text with
      | none =>
          rw [List.foldlM_cons]
          exact hrest h hframe o ho hu hextensible hproto hnewRest
      | some s =>
          have hnone := hnew (key, some s) List.mem_cons_self
          have hway : h.Open (jsNewAtom key) o.proto :=
            hproto ▸ (hopen (key, some s) List.mem_cons_self).frame le_rfl hframe
          have hset := Heap.setProperty_open ho hu hextensible hway hnone
            (.string (JSString.ofSwift s))
          have hwrite := Heap.frame_update h ref fun o =>
            o.put (jsNewAtom key) (.value (.string (JSString.ofSwift s)) true true)
          have ho' := Heap.getElem?_update h ref fun o =>
            o.put (jsNewAtom key) (.value (.string (JSString.ofSwift s)) true true)
          rw [ho, Option.map_some, Heap.put_of_lookup_none hnone] at ho'
          have hnext (f : String × Option String) (hf : f ∈ rest) :
              (o.properties ++ [(jsNewAtom key, Property.value (.string (JSString.ofSwift s)) true
                true)]).lookup (jsNewAtom f.1) = none := by
            have hne : jsNewAtom f.1 ≠ jsNewAtom key := by
              intro heq
              exact hnodup.1 (heq ▸ List.mem_map_of_mem hf)
            simp only [List.lookup_append, hnewRest f hf, List.lookup_cons, List.lookup_nil,
              beq_eq_false_iff_ne.mpr hne, Option.none_or]
          rcases hrest _ (hframe.trans (hwrite.mono fun i hi heq => by omega)) _ ho' hu
            hextensible hproto hnext with ⟨h', hfold, hframe', hobject⟩
          refine ⟨h', ?_, hframe', ?_⟩
          · rw [List.foldlM_cons]
            unfold setErrorString at hfold ⊢
            simp only [hset]
            exact hfold
          · rw [hobject, List.append_assoc]
            rfl

theorem nodup_errorEntries (name message cause stack : Option String) :
    ((errorEntries name message cause stack).map fun field => jsNewAtom field.1).Nodup := by
  show [jsNewAtom "message", jsNewAtom "name", jsNewAtom "cause", jsNewAtom "stack"].Nodup
  decide +kernel

/-- An error becomes an error object. -/
theorem toJSValue_jsError {h : Heap} {name message cause stack : Option String}
    (hopen : ∀ field ∈ errorEntries name message cause stack,
      h.Open (jsNewAtom field.1) (some h.errorProto)) :
    ∃ h', (JSConvertible.jsError name message cause stack).toJSValue h
        = .ok (some (.object h.objects.length), h') ∧
      Heap.Frame (· < h.objects.length) h h' ∧
      h'.objects[h.objects.length]?
        = some (errorObject h.errorProto (errorEntries name message cause stack)) := by
  have hnew := Heap.frame_allocate h (errorObject h.errorProto [])
  rcases setErrorStrings_spec le_rfl (errorEntries name message cause stack)
    (nodup_errorEntries name message cause stack) hopen _ hnew _ (Heap.getElem?_allocate h _) rfl
    rfl rfl fun _ _ => rfl with ⟨h', hfold, hframe, hobject⟩
  refine ⟨h', ?_, hframe, hobject⟩
  rw [JSConvertible.toJSValue]
  have hfold' : [("message", message), ("name", name), ("cause", cause), ("stack", stack)].foldlM
      (setErrorString h.newError.2) h.newError.1 = .ok h' := hfold
  rw [hfold']
  rfl

/-! ## Arrays -/

/-- What the loop over an array has done. -/
structure ElementsPlaced (h : Heap) (ref : ℕ) (done : List JSConvertible)
    (values : List (Option JSValue)) : Prop where
  object : h.objects[ref]? =
    some (arrayObject h.arrayProto (values.map (·.getD JSValue.undefined)))
  length : values.length = done.length
  isolated : ∀ (i : ℕ) x v, done[i]? = some x → values[i]? = some v → Isolated (ref + 1) h x v

/-- One more element. -/
theorem ElementsPlaced.next {h h' : Heap} {ref : ℕ} {done : List JSConvertible}
    {values : List (Option JSValue)} {x : JSConvertible} {v : Option JSValue}
    (hdone : ElementsPlaced h ref done values) (hsmall : done.length < 2 ^ 31)
    (hframe : Heap.Frame (· < h.objects.length) h h')
    (hisolated : Isolated h.objects.length h' x v) :
    ElementsPlaced (h'.setPropertyUint32 ref done.length (v.getD JSValue.undefined)) ref
      (done ++ [x]) (values ++ [v]) := by
  have hlt := Heap.lt_of_getElem? hdone.object
  have hobject : h'.objects[ref]? =
      some (arrayObject h'.arrayProto (values.map (·.getD JSValue.undefined))) := by
    rw [hframe.objects ref hlt, hframe.arrayProto]
    exact hdone.object
  have hwrite : Heap.Frame (· ≠ ref) h'
      (h'.setPropertyUint32 ref done.length (v.getD JSValue.undefined)) :=
    Heap.frame_update _ _ _
  have hkeep (i : ℕ) (hi : ref + 1 ≤ i) (_ : i < h'.objects.length) : i ≠ ref := by omega
  refine ⟨?_, ?_, forall_getElem?_append (fun i y w hy hw => ?_) hdone.length.symm ?_⟩
  · have hlength : (values.map (·.getD JSValue.undefined)).length = min done.length (2 ^ 31) := by
      rw [List.length_map, hdone.length]
      omega
    rw [hwrite.arrayProto, Heap.setPropertyUint32_next _ hobject hlength, if_pos hsmall,
      List.map_append]
    rfl
  · rw [List.length_append, List.length_append, hdone.length]
    rfl
  · exact ((hdone.isolated i y w hy hw).frame hframe (fun _ _ hi => hi) le_rfl).frame hwrite hkeep
      le_rfl
  · exact hisolated.frame hwrite (fun i hi hlt' => hkeep i (by omega) hlt') (by omega)

/-- A tree becomes what it should in every heap that has the objects of the first. -/
def Carries (h₀ : Heap) (t : JSConvertible) : Prop :=
  ∀ h, Heap.Frame (· < h₀.objects.length) h₀ h →
    ∃ v h', t.toJSValue h = .ok (v, h') ∧ Heap.Frame (· < h.objects.length) h h' ∧
      Isolated h.objects.length h' t v

/-- The loop over an array. -/
theorem setElements_isolated {h₀ : Heap} {ref : ℕ} (href : h₀.objects.length ≤ ref)
    (rest : List JSConvertible) (hcarries : ∀ x ∈ rest, Carries h₀ x)
    (done : List JSConvertible) (hlength : (done ++ rest).length ≤ 2 ^ 31)
    (values : List (Option JSValue)) (h : Heap)
    (hframe : Heap.Frame (· < h₀.objects.length) h₀ h) (hdone : ElementsPlaced h ref done values) :
    ∃ h', setElements rest done.length ref h = .ok h' ∧
      Heap.Frame (· < ref) h h' ∧
      ∃ values', ElementsPlaced h' ref (done ++ rest) values' := by
  induction rest generalizing done values h with
  | nil =>
      refine ⟨h, rfl, Heap.Frame.refl _ _, values, ?_⟩
      rw [List.append_nil]
      exact hdone
  | cons x rest ih =>
      rcases hcarries x List.mem_cons_self h hframe with ⟨v, h₁, hencode, hframe₁, hisolated⟩
      have hlt := Heap.lt_of_getElem? hdone.object
      have hsmall : done.length < 2 ^ 31 := by
        rw [List.length_append, List.length_cons] at hlength
        omega
      have hwrite : Heap.Frame (· < ref) h
          (h₁.setPropertyUint32 ref done.length (v.getD JSValue.undefined)) :=
        (hframe₁.mono fun i hi => lt_trans hi hlt).trans
          ((Heap.frame_update h₁ ref _).mono fun i hi heq => by omega)
      have hsplit : done ++ x :: rest = done ++ [x] ++ rest := by
        rw [List.append_assoc, List.singleton_append]
      rw [hsplit] at hlength ⊢
      rcases ih (fun y hy => hcarries y (List.mem_cons_of_mem _ hy)) (done ++ [x]) hlength _ _
        (hframe.trans (hwrite.mono fun i hi => lt_of_lt_of_le hi href))
        (hdone.next hsmall hframe₁ hisolated) with ⟨h', hloop, hframe', hplaced⟩
      refine ⟨h', ?_, hwrite.trans hframe', hplaced⟩
      rw [List.length_append, List.length_singleton] at hloop
      rw [setElements, hencode]
      simp only
      rw [if_pos (by omega), hloop]

/-! ## Dictionaries -/

/-- The kept properties are named by keys. -/
theorem lookup_keptSlots_eq_none {entries : List (String × JSConvertible)}
    {values : List (Option JSValue)} {key : String} (hfree : NulFree entries)
    (hkey : '\x00' ∉ key.toList) (hnew : key ∉ entries.map Prod.fst) :
    (keptSlots entries values).lookup (jsNewAtom key) = none := by
  rw [List.lookup_eq_none_iff]
  intro q hq
  rcases List.mem_filterMap.mp hq with ⟨⟨e, w⟩, hmem, heq⟩
  rcases Option.map_eq_some_iff.mp heq with ⟨v, -, rfl⟩
  have he := (List.of_mem_zip hmem).1
  rw [slot_fst]
  refine bne_iff_ne.mpr fun hatom => hnew ?_
  rw [jsNewAtom_inj hkey (hfree e he) hatom]
  exact List.mem_map_of_mem he

theorem keptSlots_append {entries : List (String × JSConvertible)} {values : List (Option JSValue)}
    (hlength : values.length = entries.length) (e : String × JSConvertible) (v : Option JSValue) :
    keptSlots (entries ++ [e]) (values ++ [v])
      = keptSlots entries values ++ (v.map (slot e)).toList := by
  unfold keptSlots
  rw [List.zip_append hlength.symm, List.filterMap_append]
  cases v <;> rfl

/-- What the loop over a dictionary has done. -/
structure EntriesPlaced (h : Heap) (ref : ℕ) (done : List (String × JSConvertible))
    (values : List (Option JSValue)) : Prop where
  object : h.objects[ref]? = some (keptObject h.objectProto done values)
  length : values.length = done.length
  isolated : ∀ (i : ℕ) e v, done[i]? = some e → values[i]? = some v →
    Isolated (ref + 1) h e.2 v

/-- A value that there is not leaves its key out. -/
theorem EntriesPlaced.skip {h h' : Heap} {ref : ℕ} {done : List (String × JSConvertible)}
    {values : List (Option JSValue)} {e : String × JSConvertible}
    (hdone : EntriesPlaced h ref done values) (hframe : Heap.Frame (· < h.objects.length) h h')
    (hisolated : Isolated h.objects.length h' e.2 none) :
    EntriesPlaced h' ref (done ++ [e]) (values ++ [none]) := by
  have hlt := Heap.lt_of_getElem? hdone.object
  refine ⟨?_, ?_, forall_getElem?_append (fun i y w hy hw => ?_) hdone.length.symm ?_⟩
  · unfold keptObject
    rw [keptSlots_append hdone.length, Option.map_none, Option.toList_none, List.append_nil,
      hframe.objects ref hlt, hframe.objectProto]
    exact hdone.object
  · rw [List.length_append, List.length_append, hdone.length]
    rfl
  · exact (hdone.isolated i y w hy hw).frame hframe (fun _ _ hi => hi) le_rfl
  · exact hisolated.frame (Heap.Frame.refl (fun _ => True) h') (fun _ _ _ => trivial) hlt

/-- A value is written under its key. -/
theorem EntriesPlaced.next {h h' : Heap} {ref : ℕ} {done : List (String × JSConvertible)}
    {values : List (Option JSValue)} {e : String × JSConvertible} {v : JSValue}
    (hdone : EntriesPlaced h ref done values) (hfree : NulFree (done ++ [e]))
    (hnew : e.1 ∉ done.map Prod.fst) (hframe : Heap.Frame (· < h.objects.length) h h')
    (hopen : h'.Open (jsNewAtom e.1) (some h'.objectProto))
    (hisolated : Isolated h.objects.length h' e.2 (some v)) :
    ∃ h'', h'.setProperty ref (jsNewAtom e.1) v = .ok h'' ∧ Heap.Frame (· ≠ ref) h' h'' ∧
      EntriesPlaced h'' ref (done ++ [e]) (values ++ [some v]) := by
  have hlt := Heap.lt_of_getElem? hdone.object
  have hobject : h'.objects[ref]? = some (keptObject h'.objectProto done values) := by
    rw [hframe.objects ref hlt, hframe.objectProto]
    exact hdone.object
  have hnone : (keptSlots done values).lookup (jsNewAtom e.1) = none :=
    lookup_keptSlots_eq_none hfree.of_append
      (hfree e (List.mem_append_right _ (List.mem_singleton_self e))) hnew
  have hset := Heap.setProperty_open hobject rfl rfl hopen hnone v
  have hwrite := Heap.frame_update h' ref fun o =>
    o.put (jsNewAtom e.1) (.value v true true)
  have hkeep (i : ℕ) (hi : ref + 1 ≤ i) (_ : i < h'.objects.length) : i ≠ ref := by omega
  refine ⟨_, hset, hwrite, ?_, ?_, forall_getElem?_append (fun i y w hy hw => ?_)
    hdone.length.symm ?_⟩
  · rw [Heap.getElem?_update, hobject, Option.map_some, Heap.put_of_lookup_none hnone,
      hwrite.objectProto]
    unfold keptObject
    rw [keptSlots_append hdone.length]
    rfl
  · rw [List.length_append, List.length_append, hdone.length]
    rfl
  · exact ((hdone.isolated i y w hy hw).frame hframe (fun _ _ hi => hi) le_rfl).frame hwrite hkeep
      le_rfl
  · exact hisolated.frame hwrite (fun i hi hlt' => hkeep i (by omega) hlt') (by omega)

/-- The loop over a dictionary. -/
theorem setEntries_isolated {h₀ : Heap} {ref : ℕ} (href : h₀.objects.length ≤ ref)
    (rest : List (String × JSConvertible)) (hcarries : ∀ e ∈ rest, Carries h₀ e.2)
    (hopen : ∀ e ∈ rest, h₀.Open (jsNewAtom e.1) (some h₀.objectProto))
    (done : List (String × JSConvertible)) (hnodup : ((done ++ rest).map Prod.fst).Nodup)
    (hfree : NulFree (done ++ rest)) (values : List (Option JSValue)) (h : Heap)
    (hframe : Heap.Frame (· < h₀.objects.length) h₀ h) (hdone : EntriesPlaced h ref done values) :
    ∃ h', setEntries rest ref h = .ok h' ∧ Heap.Frame (· < ref) h h' ∧
      ∃ values', EntriesPlaced h' ref (done ++ rest) values' := by
  induction rest generalizing done values h with
  | nil =>
      refine ⟨h, rfl, Heap.Frame.refl _ _, values, ?_⟩
      rw [List.append_nil]
      exact hdone
  | cons e rest ih =>
      rcases hcarries e List.mem_cons_self h hframe with ⟨v, h₁, hencode, hframe₁, hisolated⟩
      have hlt := Heap.lt_of_getElem? hdone.object
      have hbelow : Heap.Frame (· < ref) h h₁ := hframe₁.mono fun i hi => lt_trans hi hlt
      have hold : Heap.Frame (· < h₀.objects.length) h₀ h₁ :=
        hframe.trans (hbelow.mono fun i hi => lt_of_lt_of_le hi href)
      have hnew : e.1 ∉ done.map Prod.fst := by
        rw [List.map_append, List.map_cons, List.nodup_append] at hnodup
        exact fun hc => hnodup.2.2 e.1 hc e.1 List.mem_cons_self rfl
      have hsplit : done ++ e :: rest = done ++ [e] ++ rest := by
        rw [List.append_assoc, List.singleton_append]
      rw [hsplit] at hnodup hfree ⊢
      have hrest := ih (fun e' he' => hcarries e' (List.mem_cons_of_mem _ he'))
        (fun e' he' => hopen e' (List.mem_cons_of_mem _ he')) (done ++ [e]) hnodup hfree
      rw [setEntries, hencode]
      cases v with
      | none =>
          rcases hrest _ h₁ hold (hdone.skip hframe₁ hisolated) with ⟨h', hloop, hframe', hplaced⟩
          exact ⟨h', hloop, hbelow.trans hframe', hplaced⟩
      | some v =>
          have hway : h₁.Open (jsNewAtom e.1) (some h₁.objectProto) := by
            rw [hold.objectProto]
            exact (hopen e List.mem_cons_self).frame le_rfl hold
          rcases hdone.next hfree.of_append hnew hframe₁ hway hisolated with
            ⟨h₂, hset, hwrite, hdone'⟩
          have hwrite' : Heap.Frame (· < ref) h₁ h₂ := hwrite.mono fun i hi heq => by omega
          rcases hrest _ h₂ (hold.trans (hwrite'.mono fun i hi => lt_of_lt_of_le hi href)) hdone'
            with ⟨h', hloop, hframe', hplaced⟩
          refine ⟨h', ?_, (hbelow.trans hwrite').trans hframe', hplaced⟩
          simp only [hset, hloop]

/-! ## Trees -/

/-- Trees become what they should. -/
theorem carries_of_carried {h₀ : Heap} {t : JSConvertible} (ht : Carried h₀ t) :
    Carries h₀ t := by
  induction ht with
  | string s => exact fun h _ => ⟨_, h, rfl, Heap.Frame.refl _ _, Isolated.string s⟩
  | bool b => exact fun h _ => ⟨_, h, rfl, Heap.Frame.refl _ _, Isolated.bool b⟩
  | nsNull => exact fun h _ => ⟨_, h, rfl, Heap.Frame.refl _ _, Isolated.nsNull⟩
  | int n => exact fun h _ => ⟨_, h, rfl, Heap.Frame.refl _ _, Isolated.int n⟩
  | double d => exact fun h _ => ⟨_, h, rfl, Heap.Frame.refl _ _, Isolated.double d⟩
  | date ms =>
      intro h _
      exact ⟨_, _, rfl, Heap.frame_allocate _ _,
        Isolated.date ms _ le_rfl (Heap.getElem?_allocate _ _)⟩
  | array elements hlength _ ih =>
      intro h hframe
      have hnew := Heap.frame_allocate h (arrayObject h.arrayProto [])
      have hdone : ElementsPlaced (h.allocate (arrayObject h.arrayProto [])).1 h.objects.length []
          [] :=
        ⟨Heap.getElem?_allocate h _, rfl, fun i x v hx => by
          rw [List.getElem?_nil] at hx
          exact absurd hx nofun⟩
      rcases setElements_isolated hframe.length elements ih [] hlength [] _
        (hframe.trans (hnew.mono fun i hi => lt_of_lt_of_le hi hframe.length)) hdone with
        ⟨h', hloop, hframe', values, hplaced⟩
      have hloop' : setElements elements 0 h.newArray.2 h.newArray.1 = .ok h' := hloop
      refine ⟨some (.object h.objects.length), h', ?_, hnew.trans hframe', ?_⟩
      · rw [JSConvertible.toJSValue, hloop']
        rfl
      · refine Isolated.array elements _ values le_rfl hplaced.object hplaced.length ?_
        intro i x v hx hv
        exact (hplaced.isolated i x v hx hv).frame (Heap.Frame.refl (fun _ => True) h')
          (fun _ _ _ => trivial) (Nat.le_succ _)
  | dictionary entries hnodup hnul hopen _ ih =>
      intro h hframe
      have hnew := Heap.frame_allocate h (keptObject h.objectProto [] [])
      have hdone : EntriesPlaced (h.allocate (keptObject h.objectProto [] [])).1 h.objects.length
          [] [] :=
        ⟨Heap.getElem?_allocate h _, rfl, fun i x v hx => by
          rw [List.getElem?_nil] at hx
          exact absurd hx nofun⟩
      rcases setEntries_isolated hframe.length entries ih hopen [] hnodup hnul [] _
        (hframe.trans (hnew.mono fun i hi => lt_of_lt_of_le hi hframe.length)) hdone with
        ⟨h', hloop, hframe', values, hplaced⟩
      have hloop' : setEntries entries h.newObject.2 h.newObject.1 = .ok h' := hloop
      refine ⟨some (.object h.objects.length), h', ?_, hnew.trans hframe', ?_⟩
      · rw [JSConvertible.toJSValue, hloop']
        rfl
      · refine Isolated.dictionary entries _ values le_rfl hplaced.object hplaced.length ?_
        intro i e v he hv
        exact (hplaced.isolated i e v he hv).frame (Heap.Frame.refl (fun _ => True) h')
          (fun _ _ _ => trivial) (Nat.le_succ _)
  | jsFunction value context name _ =>
      intro h _
      refine ⟨_, h, rfl, Heap.Frame.refl _ _, ?_⟩
      by_cases hcontext : context = h.context
      · rw [if_pos hcontext, hcontext]
        exact Isolated.ownFunction value name
      · rw [if_neg hcontext]
        exact Isolated.foreignFunction value context name hcontext
  | jsClass value context className _ =>
      intro h _
      refine ⟨_, h, rfl, Heap.Frame.refl _ _, ?_⟩
      by_cases hcontext : context = h.context
      · rw [if_pos hcontext, hcontext]
        exact Isolated.ownClass value className
      · rw [if_neg hcontext]
        exact Isolated.foreignClass value context className hcontext
  | jsError name message cause stack hopen =>
      intro h hframe
      have hway : ∀ field ∈ errorEntries name message cause stack,
          h.Open (jsNewAtom field.1) (some h.errorProto) := by
        intro field hfield
        rw [hframe.errorProto]
        exact (hopen field hfield).frame le_rfl hframe
      rcases toJSValue_jsError hway with ⟨h', hencode, hframe', hobject⟩
      refine ⟨_, h', hencode, hframe', Isolated.jsError name message cause stack _ le_rfl ?_⟩
      rw [hframe'.errorProto]
      exact hobject

/-- The leaves of a context are objects that there are. -/
theorem Carried.live {h : Heap} {t : JSConvertible} (ht : Carried h t) {ref : ℕ}
    (hleaf : OwnLeaf h.context ref t) : ref < h.objects.length := by
  induction ht with
  | jsFunction value context name hlive =>
      cases hleaf with
      | jsFunction => exact hlive rfl
  | jsClass value context className hlive =>
      cases hleaf with
      | jsClass => exact hlive rfl
  | array elements _ _ ih =>
      cases hleaf with
      | element hx hleaf => exact ih _ hx hleaf
  | dictionary entries _ _ _ _ ih =>
      cases hleaf with
      | entry he hleaf => exact ih _ he hleaf
  | _ => cases hleaf

/-- What an object contains: itself, and what its elements and properties contain. -/
theorem Heap.Contains.of_object {h : Heap} {b r ref : ℕ} {o : JSObject}
    (hcontains : h.Contains b (.object r) ref) (ho : h.objects[r]? = some o) :
    ref = r ∨ (∃ values v, o.u = .array values ∧ v ∈ values ∧ h.Contains b v ref) ∨
      ∃ atom v e w, (atom, Property.value v e w) ∈ o.properties ∧ h.Contains b v ref := by
  cases hcontains with
  | here => exact Or.inl rfl
  | element _ ho' hu hv hinner =>
      rw [ho, Option.some.injEq] at ho'
      exact Or.inr (Or.inl ⟨_, _, ho' ▸ hu, hv, hinner⟩)
  | property _ ho' hv hinner =>
      rw [ho, Option.some.injEq] at ho'
      exact Or.inr (Or.inr ⟨_, _, _, _, ho' ▸ hv, hinner⟩)

/-- Only objects contain references. -/
theorem Heap.Contains.isObject {h : Heap} {b ref : ℕ} {v : JSValue}
    (hcontains : h.Contains b v ref) : ∃ r, v = .object r := by
  cases hcontains with
  | here => exact ⟨ref, rfl⟩
  | element => exact ⟨_, rfl⟩
  | property => exact ⟨_, rfl⟩

/-- A reference in what a tree became is to an object made for it, or to a leaf of the
    context. -/
theorem Isolated.contains {b : ℕ} {h : Heap} {t : JSConvertible} {v : Option JSValue}
    (hisolated : Isolated b h t v) (hlive : ∀ r, OwnLeaf h.context r t → r < b) {w : JSValue}
    (hw : v = some w) {ref : ℕ} (hcontains : h.Contains b w ref) :
    (b ≤ ref ∧ ref < h.objects.length) ∨ OwnLeaf h.context ref t := by
  -- An old object is not looked into.
  have hold {r : ℕ} (hr : r < b) (hcontains : h.Contains b (.object r) ref) : ref = r := by
    cases hcontains with
    | here => rfl
    | element hlow => omega
    | property hlow => omega
  induction hisolated generalizing w with
  | string s =>
      rw [← Option.some.inj hw] at hcontains
      cases hcontains
  | bool x =>
      rw [← Option.some.inj hw] at hcontains
      cases hcontains
  | nsNull =>
      rw [← Option.some.inj hw] at hcontains
      cases hcontains
  | int n =>
      rw [← Option.some.inj hw] at hcontains
      unfold jsNewInt64 at hcontains
      rcases hcontains.isObject with ⟨r, hr⟩
      split_ifs at hr
      · exact absurd hr nofun
      · exact absurd hr nofun
  | double d =>
      rw [← Option.some.inj hw] at hcontains
      cases hcontains
  | date ms r hlow ho =>
      rw [← Option.some.inj hw] at hcontains
      rcases hcontains.of_object ho with rfl | ⟨values, x, hu, -, -⟩ | ⟨atom, x, e, w, hx, -⟩
      · exact Or.inl ⟨hlow, Heap.lt_of_getElem? ho⟩
      · exact absurd hu nofun
      · exact absurd hx List.not_mem_nil
  | array elements r values hlow ho hlength helements ih =>
      rw [← Option.some.inj hw] at hcontains
      rcases hcontains.of_object ho with rfl | ⟨values', x, hu, hx, hinner⟩ |
        ⟨atom, x, e, w, hx, hinner⟩
      · exact Or.inl ⟨hlow, Heap.lt_of_getElem? ho⟩
      · rw [← ObjectUnion.array.inj hu] at hx
        rcases List.mem_map.mp hx with ⟨v, hv, rfl⟩
        cases v with
        | none =>
            rcases hinner.isObject with ⟨r', hr'⟩
            exact absurd hr' nofun
        | some v =>
            rcases List.getElem?_of_mem hv with ⟨i, hi⟩
            have hlt := (List.getElem?_eq_some_iff.mp hi).1
            have hx' := List.getElem?_eq_getElem (l := elements) (i := i) (by omega)
            have hmem := List.mem_of_getElem? hx'
            exact (ih i _ _ hx' hi (fun r hr => hlive r (OwnLeaf.element hmem hr)) rfl
              hinner).imp_right (OwnLeaf.element hmem)
      · -- The only property is the length.
        rcases hinner.isObject with ⟨r', hr'⟩
        rcases Prod.mk.inj (List.mem_singleton.mp hx) with ⟨-, hx⟩
        rw [hr'] at hx
        exact absurd hx nofun
  | dictionary entries r values hlow ho hlength hvalues ih =>
      rw [← Option.some.inj hw] at hcontains
      rcases hcontains.of_object ho with rfl | ⟨values', x, hu, -, -⟩ |
        ⟨atom, x, e, w, hx, hinner⟩
      · exact Or.inl ⟨hlow, Heap.lt_of_getElem? ho⟩
      · exact absurd hu nofun
      · rcases List.mem_filterMap.mp hx with ⟨⟨entry, v⟩, hmem, heq⟩
        rcases Option.map_eq_some_iff.mp heq with ⟨v', hv', hslot⟩
        rw [slot_eq, Prod.mk.injEq, Property.value.injEq] at hslot
        rw [← hslot.2.1] at hinner
        rcases List.getElem?_of_mem hmem with ⟨i, hi⟩
        rcases List.getElem?_zip_eq_some.mp hi with ⟨he, hv⟩
        have he' := List.mem_of_getElem? he
        exact (ih i entry v he hv (fun r hr => hlive r (OwnLeaf.entry he' hr)) hv'
          hinner).imp_right (OwnLeaf.entry he')
  | ownFunction value name =>
      rw [← Option.some.inj hw] at hcontains
      have hleaf : OwnLeaf h.context value (.jsFunction value h.context name) :=
        OwnLeaf.jsFunction name
      rw [hold (hlive _ hleaf) hcontains]
      exact Or.inr hleaf
  | foreignFunction => exact absurd hw nofun
  | ownClass value className =>
      rw [← Option.some.inj hw] at hcontains
      have hleaf : OwnLeaf h.context value (.jsClass value h.context className) :=
        OwnLeaf.jsClass className
      rw [hold (hlive _ hleaf) hcontains]
      exact Or.inr hleaf
  | foreignClass => exact absurd hw nofun
  | jsError name message cause stack r hlow ho =>
      rw [← Option.some.inj hw] at hcontains
      rcases hcontains.of_object ho with rfl | ⟨values, x, hu, -, -⟩ | ⟨atom, x, e, w, hx, hinner⟩
      · exact Or.inl ⟨hlow, Heap.lt_of_getElem? ho⟩
      · exact absurd hu nofun
      · rcases List.mem_filterMap.mp hx with ⟨field, -, heq⟩
        rcases Option.map_eq_some_iff.mp heq with ⟨s, -, hslot⟩
        rcases hinner.isObject with ⟨r', hr'⟩
        rw [hr', Prod.mk.injEq] at hslot
        exact absurd hslot.2 nofun

/-- A heap whose `Object.prototype` has a read-only property `toString`, as after
    `Object.freeze(Object.prototype)`. -/
def Heap.frozen : Heap :=
  builtins.update builtins.objectProto fun o =>
    o.put (jsNewAtom "toString") (.value jsUndefined false false)

end Substrata
