import Substrata.Theory.Congruence
import Substrata.Theory.Isolation

/-!
# Heaps without loose ends

A heap in which every prototype chain ends and every reference is to an object that there
is. The engine keeps its heap like that, and so does encoding a value: what is new refers to
what is new or to what there was, and where a dictionary changes a prototype with a key
`__proto__`, the engine refuses to close a chain.

In such a heap a value decodes to the same whatever is made later.

## Main definitions

* `Heap.Sealed`: The property.
* `JSConvertible.Live`: Values whose wrappers wrap objects that there are.
* `JSConvertible.IsData`: Values without wrappers.

## Theorems

* `Sealed.allocate`, `Sealed.update`, `Sealed.setProto`, `Sealed.setProperty`,
  `Sealed.setPropertyUint32`: What keeps it.
* `sealed_toJSValue`: Encoding keeps it.
* `Sealed.toJSConvertible_frame`: Decoding in a later heap.
-/

namespace Substrata

theorem JSValue.Within.mono {v : JSValue} {p q : ℕ → Prop} (hv : v.Within p)
    (hsub : ∀ i, p i → q i) : v.Within q := by
  cases v with
  | object ref => exact hsub ref hv
  | _ => trivial

namespace Heap

/-- Only objects have properties. -/
theorem lt_of_own {h : Heap} {ref : ℕ} {atom : Atom} {p : Property}
    (hown : h.own atom ref = some p) : ref < h.objects.length := by
  unfold own at hown
  cases ho : h.objects[ref]? with
  | none =>
      rw [ho] at hown
      exact absurd hown nofun
  | some o => exact lt_of_getElem? ho

/-- Every prototype chain ends, every reference is to an object that there is, and the built-in
    prototypes are among them. -/
structure Sealed (h : Heap) : Prop where
  chain : ∀ ref < h.objects.length, ∃ l, h.Chain (some ref) l
  value : ∀ ref atom v e w, h.own atom ref = some (.value v e w) → v.Within (· < h.objects.length)
  objectProto : h.objectProto < h.objects.length
  arrayProto : h.arrayProto < h.objects.length
  errorProto : h.errorProto < h.objects.length
  dateProto : h.dateProto < h.objects.length

variable {h h' : Heap}

theorem Sealed.closed (hsealed : h.Sealed) : h.Closed (· < h.objects.length) where
  chain ref href := by
    rcases hsealed.chain ref href with ⟨l, hl⟩
    exact ⟨l, hl, fun _ hr => hl.mem_lt hr⟩
  property ref _ := hsealed.value ref

theorem Closed.isSealed (hclosed : h.Closed (· < h.objects.length))
    (hobject : h.objectProto < h.objects.length) (harray : h.arrayProto < h.objects.length)
    (herror : h.errorProto < h.objects.length) (hdate : h.dateProto < h.objects.length) :
    h.Sealed where
  chain ref href := (hclosed.chain ref href).imp fun _ hl => hl.1
  value ref atom v e w hown := hclosed.property ref (lt_of_own hown) atom v e w hown
  objectProto := hobject
  arrayProto := harray
  errorProto := herror
  dateProto := hdate

/-- The chain from what may be a prototype. -/
theorem Sealed.chain_of_proto (hsealed : h.Sealed) {p : Option ℕ}
    (hp : ∀ q, p = some q → q < h.objects.length) : ∃ l, h.Chain p l := by
  cases p with
  | none => exact ⟨[], Chain.nil⟩
  | some q => exact hsealed.chain q (hp q rfl)

/-- A heap in which nothing old changes has its built-in prototypes. -/
theorem Sealed.of_frame {keep : ℕ → Prop} (hsealed : h.Sealed) (hframe : Frame keep h h')
    (hchain : ∀ ref < h'.objects.length, ∃ l, h'.Chain (some ref) l)
    (hvalue : ∀ ref atom v e w, h'.own atom ref = some (.value v e w) →
      v.Within (· < h'.objects.length)) : h'.Sealed where
  chain := hchain
  value := hvalue
  objectProto := hframe.objectProto ▸ lt_of_lt_of_le hsealed.objectProto hframe.length
  arrayProto := hframe.arrayProto ▸ lt_of_lt_of_le hsealed.arrayProto hframe.length
  errorProto := hframe.errorProto ▸ lt_of_lt_of_le hsealed.errorProto hframe.length
  dateProto := hframe.dateProto ▸ lt_of_lt_of_le hsealed.dateProto hframe.length

/-- A new object that refers to old ones. -/
theorem Sealed.allocate (hsealed : h.Sealed) {o : JSObject}
    (hproto : ∀ p, o.proto = some p → p < h.objects.length)
    (hvalue : ∀ atom v e w, o.own atom = some (.value v e w) → v.Within (· < h.objects.length)) :
    (h.allocate o).1.Sealed := by
  have hframe := frame_allocate h o
  have hlength : (h.allocate o).1.objects.length = h.objects.length + 1 := by
    unfold Heap.allocate
    rw [List.length_append, List.length_singleton]
  refine hsealed.of_frame hframe (fun ref href => ?_) (fun ref atom v e w hown => ?_)
  · by_cases hold : ref < h.objects.length
    · rcases hsealed.chain ref hold with ⟨l, hl⟩
      exact ⟨l, hl.frame hframe fun _ hr => hl.mem_lt hr⟩
    · have hlast : ref = h.objects.length := by omega
      rcases hsealed.chain_of_proto hproto with ⟨l, hl⟩
      exact ⟨ref :: l, hlast ▸ Chain.cons (getElem?_allocate h o)
        (hl.frame hframe fun _ hr => hl.mem_lt hr)⟩
  · have hwithin : v.Within (· < h.objects.length) := by
      by_cases hold : ref < h.objects.length
      · rw [hframe.agrees.own hold] at hown
        exact hsealed.value ref atom v e w hown
      · have href := lt_of_own hown
        have hlast : ref = h.objects.length := by omega
        rw [hlast, own_eq (getElem?_allocate h o)] at hown
        exact hvalue atom v e w hown
    exact hwithin.mono fun i hi => by omega

/-- An object that changes, but not its prototype. -/
theorem Sealed.update (hsealed : h.Sealed) {ref : ℕ} {f : JSObject → JSObject}
    (hproto : ∀ o, (f o).proto = o.proto)
    (hvalue : ∀ o, h.objects[ref]? = some o → ∀ atom v e w,
      (f o).own atom = some (.value v e w) → v.Within (· < h.objects.length)) :
    (h.update ref f).Sealed := by
  have hlength : (h.update ref f).objects.length = h.objects.length := by
    unfold Heap.update
    rw [List.length_modify]
  refine hsealed.of_frame (frame_update h ref f) (fun r hr => ?_) (fun r atom v e w hown => ?_)
  · rcases hsealed.chain r (hlength ▸ hr) with ⟨l, hl⟩
    exact ⟨l, hl.update ref hproto⟩
  · rw [hlength]
    by_cases heq : r = ref
    · subst heq
      cases ho : h.objects[r]? with
      | none =>
          have hlt := hlength ▸ lt_of_own hown
          rw [List.getElem?_eq_none_iff] at ho
          omega
      | some o =>
          have ho' : (h.update r f).objects[r]? = some (f o) := by
            rw [getElem?_update, ho, Option.map_some]
          rw [own_eq ho'] at hown
          exact hvalue o ho atom v e w hown
    · rw [(frame_update h ref f).agrees.own heq] at hown
      exact hsealed.value r atom v e w hown

/-- What an object has after a property was written. -/
theorem own_put_cases {o : JSObject} {atom atom' : Atom} {p q : Property}
    (hown : (o.put atom p).own atom' = some q) : q = p ∨ o.own atom' = some q := by
  have hlookup (hq : (o.put atom p).properties.lookup atom' = some q) :
      q = p ∨ o.properties.lookup atom' = some q := by
    rw [lookup_put] at hq
    split_ifs at hq with heq
    · exact Or.inl (Option.some.inj hq).symm
    · exact Or.inr hq
  have hunion : (o.put atom p).u = o.u := rfl
  unfold JSObject.own at hown ⊢
  rw [hunion] at hown
  cases hu : o.u with
  | array values =>
      rw [hu] at hown
      cases atom' with
      | index n =>
          dsimp only at hown ⊢
          cases helement : values[n]? with
          | none =>
              rw [helement] at hown
              exact hlookup hown
          | some v =>
              rw [helement] at hown
              exact Or.inr hown
      | name s => exact hlookup hown
  | _ =>
      rw [hu] at hown
      exact hlookup hown

/-- A property is written. -/
theorem Sealed.put (hsealed : h.Sealed) (ref : ℕ) (atom : Atom) {v : JSValue}
    (hv : v.Within (· < h.objects.length)) (e w : Bool) :
    (h.update ref fun o => o.put atom (.value v e w)).Sealed := by
  refine hsealed.update (fun o => rfl) fun o ho atom' v' e' w' hown => ?_
  rcases own_put_cases hown with heq | hold
  · rw [(Property.value.inj heq).1]
    exact hv
  · exact hsealed.value ref atom' v' e' w' ((own_eq ho atom').trans hold)

/-- A chain after a prototype changed: it goes on along the new one. -/
theorem Chain.exists_setProto {ref : ℕ} {o : JSObject} {p' : Option ℕ} {base : List ℕ}
    (ho : h.objects[ref]? = some o) (hbase : h.Chain p' base) (hnot : ref ∉ base)
    {p : Option ℕ} {l : List ℕ} (hchain : h.Chain p l) :
    ∃ l', (h.update ref fun o => { o with proto := p' }).Chain p l' := by
  have hother {r : ℕ} (hr : r ≠ ref) :
      (h.update ref fun o => { o with proto := p' }).objects[r]? = h.objects[r]? :=
    (frame_update h ref _).objects r hr
  have hbase' : (h.update ref fun o => { o with proto := p' }).Chain p' base :=
    hbase.congr fun r hr q hq => ⟨q, (hother fun heq => hnot (heq ▸ hr)).trans hq, rfl⟩
  induction hchain with
  | nil => exact ⟨[], Chain.nil⟩
  | @cons r q above hq _ ih =>
      by_cases hr : r = ref
      · subst hr
        have hself : (h.update r fun o => { o with proto := p' }).objects[r]?
            = some { o with proto := p' } := by
          rw [getElem?_update, ho, Option.map_some]
        exact ⟨r :: base, Chain.cons hself hbase'⟩
      · rcases ih with ⟨l', hl'⟩
        exact ⟨r :: l', Chain.cons ((hother hr).trans hq) hl'⟩

/-- The prototype of an object changes to one from which it is not reached. -/
theorem Sealed.changeProto (hsealed : h.Sealed) {ref : ℕ} {p : Option ℕ} {base : List ℕ}
    (hbase : h.Chain p base) (hnot : ref ∉ base) :
    (h.update ref fun o => { o with proto := p }).Sealed := by
  have hlength : (h.update ref fun o => { o with proto := p }).objects.length
      = h.objects.length := by
    unfold Heap.update
    rw [List.length_modify]
  have hown (r : ℕ) (atom : Atom) :
      (h.update ref fun o => { o with proto := p }).own atom r = h.own atom r := by
    unfold Heap.own
    by_cases hr : r = ref
    · subst hr
      rw [getElem?_update]
      cases h.objects[r]? with
      | none => rfl
      | some o => rfl
    · rw [(frame_update h ref _).objects r hr]
  refine hsealed.of_frame (frame_update h ref _) (fun r hr => ?_) (fun r atom v e w hv => ?_)
  · rw [hlength] at hr
    rcases hsealed.chain r hr with ⟨l, hl⟩
    cases ho : h.objects[ref]? with
    | some o => exact Chain.exists_setProto ho hbase hnot hl
    | none =>
        refine ⟨l, hl.congr fun r' hr' q hq => ⟨q, ?_, rfl⟩⟩
        have hne : r' ≠ ref := by
          rintro rfl
          exact absurd (hq.symm.trans ho) nofun
        rw [(frame_update h ref _).objects r' hne, hq]
  · rw [hown] at hv
    rw [hlength]
    exact hsealed.value r atom v e w hv

/-- The setter of `__proto__` refuses what would close a chain. -/
theorem Sealed.setProto (hsealed : h.Sealed) (ref : ℕ) {v : JSValue}
    (hv : v.Within (· < h.objects.length)) : (h.setProto ref v).Sealed := by
  unfold Heap.setProto
  cases v with
  | object p =>
      dsimp only
      split
      · split_ifs with hopen
        · rcases hsealed.chain p hv with ⟨base, hbase⟩
          refine hsealed.changeProto hbase fun hmem => ?_
          exact hopen.2.1 (hbase.protoChain_eq.symm ▸ hmem)
        · exact hsealed
      · exact hsealed
  | nullTag _ =>
      dsimp only
      split
      · split_ifs
        · exact hsealed.changeProto Chain.nil List.not_mem_nil
        · exact hsealed
      · exact hsealed
  | _ => exact hsealed

/-- An assignment. -/
theorem Sealed.setProperty (hsealed : h.Sealed) {ref : ℕ} {atom : Atom} {v : JSValue}
    (hv : v.Within (· < h.objects.length)) (hset : h.setProperty ref atom v = .ok h') :
    h'.Sealed := by
  have hsetter {accessor : Accessor} (hcall : h.callSetter ref v accessor = .ok h') :
      h'.Sealed := by
    cases accessor with
    | proto => exact Except.ok.inj hcall ▸ hsealed.setProto ref hv
    | script => exact absurd hcall nofun
  unfold Heap.setProperty at hset
  split at hset
  · exact Except.ok.inj hset ▸ hsealed.put ref atom hv _ _
  · exact Except.ok.inj hset ▸ hsealed
  · exact hsetter hset
  · split at hset
    · exact hsetter hset
    · exact Except.ok.inj hset ▸ hsealed
    · split at hset
      · split_ifs at hset
        · exact Except.ok.inj hset ▸ hsealed.put ref atom hv _ _
        · exact Except.ok.inj hset ▸ hsealed
      · exact Except.ok.inj hset ▸ hsealed

/-- What an array has: an element, or a property where there is no element. -/
theorem own_array_cases {o : JSObject} {values : List JSValue} (hu : o.u = .array values)
    {atom : Atom} {q : Property} (hown : o.own atom = some q) :
    (∃ v ∈ values, q = .value v true true) ∨
      ((∀ n, atom = .index n → values.length ≤ n) ∧ o.properties.lookup atom = some q) := by
  unfold JSObject.own at hown
  rw [hu] at hown
  cases atom with
  | index n =>
      dsimp only at hown
      cases helement : values[n]? with
      | none =>
          rw [helement] at hown
          refine Or.inr ⟨fun m hm => ?_, hown⟩
          rw [← Atom.index.inj hm]
          exact List.getElem?_eq_none_iff.mp helement
      | some v =>
          rw [helement] at hown
          exact Or.inl ⟨v, List.mem_of_getElem? helement, (Option.some.inj hown).symm⟩
  | name s => exact Or.inr ⟨nofun, hown⟩

theorem own_array_of_not_element {o : JSObject} {values : List JSValue} (hu : o.u = .array values)
    {atom : Atom} (hnot : ∀ n, atom = .index n → values.length ≤ n) :
    o.own atom = o.properties.lookup atom := by
  unfold JSObject.own
  rw [hu]
  cases atom with
  | index n =>
      dsimp only
      rw [List.getElem?_eq_none_iff.mpr (hnot n rfl)]
  | name s => rfl

/-- The elements of an array. -/
theorem Sealed.elements (hsealed : h.Sealed) {ref : ℕ} {o : JSObject} {values : List JSValue}
    (ho : h.objects[ref]? = some o) (hu : o.u = .array values) {v : JSValue} (hv : v ∈ values) :
    v.Within (· < h.objects.length) := by
  rcases List.getElem?_of_mem hv with ⟨n, hn⟩
  refine hsealed.value ref (.index n) v true true ?_
  rw [own_eq ho]
  unfold JSObject.own
  rw [hu]
  dsimp only
  rw [hn]

/-- What an array has after some elements were written: none of them is lost. -/
theorem Sealed.own_elements (hsealed : h.Sealed) {ref : ℕ} {o : JSObject}
    {values values' : List JSValue} (ho : h.objects[ref]? = some o) (hu : o.u = .array values)
    (hvalues : ∀ v ∈ values', v.Within (· < h.objects.length))
    (hlength : values.length ≤ values'.length) {atom : Atom} {v : JSValue} {e w : Bool}
    (hown : JSObject.own { o with u := .array values' } atom = some (.value v e w)) :
    v.Within (· < h.objects.length) := by
  rcases own_array_cases rfl hown with ⟨v', hv', heq⟩ | ⟨hnot, hlookup⟩
  · rw [(Property.value.inj heq).1]
    exact hvalues v' hv'
  · refine hsealed.value ref atom v e w ?_
    rw [own_eq ho, own_array_of_not_element hu fun n hn => hlength.trans (hnot n hn)]
    exact hlookup

/-- An element is written, in the array or at its end. -/
theorem Sealed.setPropertyUint32 (hsealed : h.Sealed) (ref idx : ℕ) {v : JSValue}
    (hv : v.Within (· < h.objects.length)) : (h.setPropertyUint32 ref idx v).Sealed := by
  unfold Heap.setPropertyUint32
  refine hsealed.update (fun o => ?_) fun o ho atom v' e w hown => ?_
  · split
    · split_ifs
      · rfl
      · unfold appendElement
        split
        · rfl
        · rfl
      · rfl
    · rfl
  · split at hown
    · rename_i values hu
      have hold (x : JSValue) (hx : x ∈ values) : x.Within (· < h.objects.length) :=
        hsealed.elements ho hu hx
      split_ifs at hown
      · refine hsealed.own_elements ho hu (fun x hx => ?_) (by rw [List.length_set]) hown
        rcases List.mem_or_eq_of_mem_set hx with hx | rfl
        · exact hold x hx
        · exact hv
      · unfold appendElement at hown
        simp only [hu] at hown
        have hown' : (JSObject.put { o with u := .array (values ++ [v]) } atomLength
            (.value (jsNewInt32 (Int32.ofNat (values.length + 1))) false true)).own atom
            = some (.value v' e w) := hown
        rcases own_put_cases hown' with heq | hother
        · rw [(Property.value.inj heq).1]
          trivial
        · refine hsealed.own_elements ho hu (fun x hx => ?_) ?_ hother
          · rcases List.mem_append.mp hx with hx | hx
            · exact hold x hx
            · rw [List.mem_singleton.mp hx]
              exact hv
          · rw [List.length_append]
            omega
      · exact hsealed.value ref atom v' e w ((own_eq ho atom).trans hown)
    · exact hsealed.value ref atom v' e w ((own_eq ho atom).trans hown)

end Heap

/-! ## Encoding -/

/-- Values whose wrappers wrap objects that there are. -/
def JSConvertible.Live (h : Heap) (t : JSConvertible) : Prop :=
  ∀ ref, OwnLeaf h.context ref t → ref < h.objects.length

/-- Data: no wrapper, no date, no error. -/
inductive JSConvertible.IsData : JSConvertible → Prop
  | string (s : String) : IsData (.string s)
  | bool (b : Bool) : IsData (.bool b)
  | nsNull : IsData .nsNull
  | int (n : Int64) : IsData (.int n)
  | double (d : Double) : IsData (.double d)
  | array (elements : List JSConvertible) (helements : ∀ x ∈ elements, IsData x) :
      IsData (.array elements)
  | dictionary (entries : List (String × JSConvertible)) (hvalues : ∀ e ∈ entries, IsData e.2) :
      IsData (.dictionary entries)

/-- Data has no wrapper in it. -/
theorem JSConvertible.IsData.live {t : JSConvertible} (hdata : t.IsData) (h : Heap) :
    t.Live h := by
  intro ref hleaf
  induction hdata with
  | array elements _ ih =>
      cases hleaf with
      | element hx hleaf => exact ih _ hx hleaf
  | dictionary entries _ ih =>
      cases hleaf with
      | entry he hleaf => exact ih _ he hleaf
  | _ => cases hleaf

/-- A value that is live stays so. -/
theorem JSConvertible.Live.frame {h h' : Heap} {t : JSConvertible} (hlive : t.Live h)
    {keep : ℕ → Prop} (hframe : Heap.Frame keep h h') : t.Live h' := by
  intro ref hleaf
  rw [hframe.context] at hleaf
  exact lt_of_lt_of_le (hlive ref hleaf) hframe.length

theorem JSConvertible.Live.element {h : Heap} {elements : List JSConvertible}
    (hlive : (JSConvertible.array elements).Live h) {x : JSConvertible} (hx : x ∈ elements) :
    x.Live h :=
  fun ref hleaf => hlive ref (OwnLeaf.element hx hleaf)

theorem JSConvertible.Live.entry {h : Heap} {entries : List (String × JSConvertible)}
    (hlive : (JSConvertible.dictionary entries).Live h) {e : String × JSConvertible}
    (he : e ∈ entries) : e.2.Live h :=
  fun ref hleaf => hlive ref (OwnLeaf.entry he hleaf)

/-- Encoding a value keeps the heap sealed, and the value refers to an object that there is. -/
def SealsWith (t : JSConvertible) : Prop :=
  ∀ (h h' : Heap) (v : Option JSValue), h.Sealed → t.Live h → t.toJSValue h = .ok (v, h') →
    h'.Sealed ∧ ∀ w, v = some w → w.Within (· < h'.objects.length)

/-- A value that needs no object. -/
theorem seals_of_leaf {t : JSConvertible} {value : Heap → Option JSValue}
    (hencode : ∀ h, t.toJSValue h = .ok (value h, h))
    (hwithin : ∀ h, t.Live h → ∀ w, value h = some w → w.Within (· < h.objects.length)) :
    SealsWith t := by
  intro h h' v hsealed hlive heq
  rw [hencode, Except.ok.injEq, Prod.mk.injEq] at heq
  rcases heq with ⟨rfl, rfl⟩
  exact ⟨hsealed, hwithin h hlive⟩

/-- A wrapper becomes the object that it wraps. -/
theorem seals_of_wrapper {t : JSConvertible} {value context : ℕ}
    (hencode : ∀ h, t.toJSValue h = .ok (if context = h.context then some (.object value) else none, h))
    (hleaf : OwnLeaf context value t) : SealsWith t := by
  refine seals_of_leaf hencode fun h hlive w hw => ?_
  split_ifs at hw with hcontext
  rw [← Option.some.inj hw]
  exact hlive value (hcontext ▸ hleaf)

/-- The loop over an array. -/
theorem sealed_setElements {elements : List JSConvertible} (hseals : ∀ x ∈ elements, SealsWith x)
    {i ref : ℕ} {h h' : Heap} (hsealed : h.Sealed) (hlive : ∀ x ∈ elements, x.Live h)
    (hset : setElements elements i ref h = .ok h') : h'.Sealed := by
  induction elements generalizing i h with
  | nil =>
      rw [setElements, Except.ok.injEq] at hset
      exact hset ▸ hsealed
  | cons x elements ih =>
      rw [setElements] at hset
      cases hencode : x.toJSValue h with
      | error stop =>
          rw [hencode] at hset
          exact absurd hset nofun
      | ok r =>
          rcases r with ⟨v, h₁⟩
          rw [hencode] at hset
          dsimp only at hset
          split_ifs at hset
          have hx := hlive x List.mem_cons_self
          rcases hseals x List.mem_cons_self _ _ _ hsealed hx hencode with ⟨hsealed₁, hv⟩
          have hwithin : (v.getD JSValue.undefined).Within (· < h₁.objects.length) := by
            cases v with
            | none => trivial
            | some w => exact hv w rfl
          refine ih (fun y hy => hseals y (List.mem_cons_of_mem _ hy))
            (hsealed₁.setPropertyUint32 ref i hwithin) (fun y hy => ?_) hset
          exact ((hlive y (List.mem_cons_of_mem _ hy)).frame (frame_toJSValue x hencode)).frame
            (Heap.frame_update h₁ ref _)

/-- The loop over a dictionary. -/
theorem sealed_setEntries {entries : List (String × JSConvertible)}
    (hseals : ∀ e ∈ entries, SealsWith e.2) {ref : ℕ} {h h' : Heap} (hsealed : h.Sealed)
    (hlive : ∀ e ∈ entries, e.2.Live h) (hset : setEntries entries ref h = .ok h') :
    h'.Sealed := by
  induction entries generalizing h with
  | nil =>
      rw [setEntries, Except.ok.injEq] at hset
      exact hset ▸ hsealed
  | cons e entries ih =>
      rcases e with ⟨key, x⟩
      rw [setEntries] at hset
      have hx := hlive _ List.mem_cons_self
      have hrest {h : Heap} := @ih (fun e he => hseals e (List.mem_cons_of_mem _ he)) h
      cases hencode : x.toJSValue h with
      | error stop =>
          rw [hencode] at hset
          exact absurd hset nofun
      | ok r =>
          rcases r with ⟨v, h₁⟩
          rw [hencode] at hset
          have hframe := frame_toJSValue x hencode
          rcases hseals _ List.mem_cons_self _ _ _ hsealed hx hencode with ⟨hsealed₁, hv⟩
          cases v with
          | none =>
              exact hrest hsealed₁
                (fun e he => (hlive e (List.mem_cons_of_mem _ he)).frame hframe) hset
          | some v =>
              dsimp only at hset
              cases hwrite : h₁.setProperty ref (jsNewAtom key) v with
              | error stop =>
                  rw [hwrite] at hset
                  exact absurd hset nofun
              | ok h₂ =>
                  rw [hwrite] at hset
                  refine hrest (hsealed₁.setProperty (hv v rfl) hwrite) (fun e he => ?_) hset
                  exact ((hlive e (List.mem_cons_of_mem _ he)).frame hframe).frame
                    (Heap.frame_setProperty hwrite)

/-- A new object with a built-in prototype, which refers to nothing else. -/
theorem Heap.Sealed.allocate_empty {h : Heap} (hsealed : h.Sealed) {o : JSObject} {p : ℕ}
    (hproto : o.proto = some p) (hp : p < h.objects.length)
    (hown : ∀ atom v e w, o.own atom = some (.value v e w) → ∀ ref, v ≠ .object ref) :
    (h.allocate o).1.Sealed := by
  refine hsealed.allocate (fun q hq => ?_) fun atom v e w hv => ?_
  · rw [hproto, Option.some.injEq] at hq
    exact hq ▸ hp
  · cases v with
    | object ref => exact absurd rfl (hown atom _ e w hv ref)
    | _ => trivial

/-- The object that was made last. -/
theorem within_last {h h' : Heap} {o : JSObject} {keep : ℕ → Prop}
    (hframe : Heap.Frame keep (h.allocate o).1 h') {w : JSValue}
    (hw : some (JSValue.object (h.allocate o).2) = some w) :
    w.Within (· < h'.objects.length) := by
  rw [← Option.some.inj hw]
  refine lt_of_lt_of_le ?_ hframe.length
  unfold Heap.allocate
  rw [List.length_append, List.length_singleton]
  exact Nat.lt_succ_self _

theorem seals_date (ms : Double) : SealsWith (.date ms) := by
  intro h h' v hsealed _ hencode
  rw [JSConvertible.toJSValue, Except.ok.injEq, Prod.mk.injEq] at hencode
  rcases hencode with ⟨rfl, rfl⟩
  exact ⟨hsealed.allocate_empty rfl hsealed.dateProto nofun,
    fun w hw => within_last (Heap.Frame.refl (fun _ => True) _) hw⟩

theorem seals_array {elements : List JSConvertible} (hseals : ∀ x ∈ elements, SealsWith x) :
    SealsWith (.array elements) := by
  intro h h' v hsealed hlive hencode
  rw [JSConvertible.toJSValue] at hencode
  cases hset : setElements elements 0 h.newArray.2 h.newArray.1 with
  | error stop =>
      rw [hset] at hencode
      exact absurd hencode nofun
  | ok h₁ =>
      rw [hset, Except.ok.injEq, Prod.mk.injEq] at hencode
      rcases hencode with ⟨rfl, rfl⟩
      have hframe : Heap.Frame (· < h.objects.length) h h.newArray.1 := Heap.frame_allocate _ _
      -- The length is a number.
      have hnew : h.newArray.1.Sealed := by
        refine hsealed.allocate_empty rfl hsealed.arrayProto fun atom v e w hown ref => ?_
        rcases Heap.own_array_cases rfl hown with ⟨x, hx, -⟩ | ⟨-, hlookup⟩
        · exact absurd hx List.not_mem_nil
        · rw [List.lookup_cons] at hlookup
          split at hlookup
          · rw [← (Property.value.inj (Option.some.inj hlookup)).1]
            exact nofun
          · exact absurd hlookup nofun
      exact ⟨sealed_setElements hseals hnew (fun x hx => (hlive.element hx).frame hframe) hset,
        fun w hw => within_last (frame_setElements elements le_rfl hframe.length hset) hw⟩

theorem seals_dictionary {entries : List (String × JSConvertible)}
    (hseals : ∀ e ∈ entries, SealsWith e.2) : SealsWith (.dictionary entries) := by
  intro h h' v hsealed hlive hencode
  rw [JSConvertible.toJSValue] at hencode
  cases hset : setEntries entries h.newObject.2 h.newObject.1 with
  | error stop =>
      rw [hset] at hencode
      exact absurd hencode nofun
  | ok h₁ =>
      rw [hset, Except.ok.injEq, Prod.mk.injEq] at hencode
      rcases hencode with ⟨rfl, rfl⟩
      have hnew : h.newObject.1.Sealed := hsealed.allocate_empty rfl hsealed.objectProto nofun
      have hframe : Heap.Frame (· < h.objects.length) h h.newObject.1 := Heap.frame_allocate _ _
      exact ⟨sealed_setEntries hseals hnew (fun e he => (hlive.entry he).frame hframe) hset,
        fun w hw => within_last (frame_setEntries entries le_rfl hframe.length hset) hw⟩

theorem seals_jsError (name message cause stack : Option String) :
    SealsWith (.jsError name message cause stack) := by
  intro h h' v hsealed _ hencode
  rw [JSConvertible.toJSValue] at hencode
  cases hset : [("message", message), ("name", name), ("cause", cause), ("stack", stack)].foldlM
      (setErrorString h.newError.2) h.newError.1 with
  | error stop =>
      rw [hset] at hencode
      exact absurd hencode nofun
  | ok h₁ =>
      rw [hset, Except.ok.injEq, Prod.mk.injEq] at hencode
      rcases hencode with ⟨rfl, rfl⟩
      have hnew : h.newError.1.Sealed := hsealed.allocate_empty rfl hsealed.errorProto nofun
      -- Every field is a string, or not set.
      have hstep (h₂ : Heap) (field : String × Option String) (h₃ : Heap)
          (hboth : h₂.Sealed ∧ Heap.Frame (· ≠ h.newError.2) h.newError.1 h₂)
          (hfield : setErrorString h.newError.2 h₂ field = .ok h₃) :
          h₃.Sealed ∧ Heap.Frame (· ≠ h.newError.2) h.newError.1 h₃ := by
        refine ⟨?_, hboth.2.trans (frame_setErrorString hfield)⟩
        unfold setErrorString at hfield
        split at hfield
        · exact Except.ok.inj hfield ▸ hboth.1
        · rename_i s _
          have hstring : (JSValue.string (JSString.ofSwift s)).Within (· < h₂.objects.length) :=
            trivial
          exact hboth.1.setProperty hstring hfield
      rcases Fallible.foldlM_invariant (fun h₂ field h₃ _ => hstep h₂ field h₃)
        ⟨hnew, Heap.Frame.refl _ _⟩ hset with ⟨hsealed₁, hframe⟩
      exact ⟨hsealed₁, fun w hw => within_last hframe hw⟩

mutual

/-- Encoding keeps a heap sealed. -/
theorem sealed_toJSValue : ∀ t : JSConvertible, SealsWith t
  | .string _ => seals_of_leaf (fun _ => by rw [JSConvertible.toJSValue])
      fun _ _ w hw => by rw [← Option.some.inj hw]; trivial
  | .bool _ => seals_of_leaf (fun _ => by rw [JSConvertible.toJSValue])
      fun _ _ w hw => by rw [← Option.some.inj hw]; trivial
  | .nsNull => seals_of_leaf (fun _ => by rw [JSConvertible.toJSValue])
      fun _ _ w hw => by rw [← Option.some.inj hw]; trivial
  | .int n => seals_of_leaf (fun _ => by rw [JSConvertible.toJSValue]) fun _ _ w hw => by
      rw [← Option.some.inj hw]
      unfold jsNewInt64
      split_ifs
      · trivial
      · trivial
  | .double _ => seals_of_leaf (fun _ => by rw [JSConvertible.toJSValue])
      fun _ _ w hw => by rw [← Option.some.inj hw]; trivial
  | .jsFunction _ _ name => seals_of_wrapper (fun _ => by rw [JSConvertible.toJSValue])
      (OwnLeaf.jsFunction name)
  | .jsClass _ _ className => seals_of_wrapper (fun _ => by rw [JSConvertible.toJSValue])
      (OwnLeaf.jsClass className)
  | .date ms => seals_date ms
  | .array elements => seals_array (sealed_elements elements)
  | .dictionary entries => seals_dictionary (sealed_values entries)
  | .jsError name message cause stack => seals_jsError name message cause stack

theorem sealed_elements : ∀ elements : List JSConvertible, ∀ x ∈ elements, SealsWith x
  | [], _, hx => absurd hx List.not_mem_nil
  | y :: ys, x, hx => (List.mem_cons.mp hx).elim (fun heq => heq ▸ sealed_toJSValue y)
      (sealed_elements ys x)

theorem sealed_values : ∀ entries : List (String × JSConvertible), ∀ e ∈ entries, SealsWith e.2
  | [], _, he => absurd he List.not_mem_nil
  | (_, y) :: rest, e, he => (List.mem_cons.mp he).elim (fun heq => heq ▸ sealed_toJSValue y)
      (sealed_values rest e)

end

/-- A value decodes to the same whatever is made later. -/
theorem Heap.Sealed.toJSConvertible_frame {h h' : Heap} (hsealed : h.Sealed)
    (hframe : Heap.Frame (· < h.objects.length) h h') (ext : Externals) (fuel : ℕ) {v : JSValue}
    (hv : v.Within (· < h.objects.length)) :
    toJSConvertible ext h' fuel v = toJSConvertible ext h fuel v :=
  hframe.agrees.toJSConvertible hsealed.closed fuel hv

end Substrata
