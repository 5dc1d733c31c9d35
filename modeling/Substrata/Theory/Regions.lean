import Substrata.Theory.Sealed

/-!
# Regions of a heap

A region is a set of objects that refer to no object outside of it. Every object that is still
to be made counts as one of the region, and so do the built-in prototypes. Whatever is encoded
stays in the region then: a new object refers to new objects, to a prototype, or to what a
wrapper among the values wraps. An assignment to an object of the region keeps it as well, if
what is assigned refers into it.

In a sealed heap a region is closed: prototype chains and lookups that begin in it stay in it.

## Main definitions

* `Heap.Region`: Objects that refer to no others.
* `JSConvertible.Inside`: Values whose wrappers wrap objects of a region.

## Theorems

* `Region.allocate`, `Region.update`, `Region.put`, `Region.setProperty`,
  `Region.setPropertyUint32`: What keeps a region.
* `region_toJSValue`: Encoding keeps it.
* `Region.closed`: It is closed.
-/

namespace Substrata

namespace Heap

/-- No object of the region refers out of it. The built-in prototypes and all objects to come are
    in it. -/
structure Region (h : Heap) (R : ℕ → Prop) : Prop where
  proto : ∀ ref o p, R ref → h.objects[ref]? = some o → o.proto = some p → R p
  value : ∀ ref atom v e w, R ref → h.own atom ref = some (.value v e w) → v.Within R
  fresh : ∀ ref, h.objects.length ≤ ref → R ref
  objectProto : R h.objectProto
  arrayProto : R h.arrayProto
  errorProto : R h.errorProto
  dateProto : R h.dateProto

variable {h h' : Heap} {R : ℕ → Prop}

/-- The chains of a region are in it. -/
theorem Region.chain (hregion : h.Region R) {p : Option ℕ} {l : List ℕ} (hchain : h.Chain p l)
    (hp : ∀ ref, p = some ref → R ref) : ∀ r ∈ l, R r := by
  induction hchain with
  | nil => exact fun r hr => absurd hr List.not_mem_nil
  | @cons ref o above ho _ ih =>
      intro r hr
      rcases List.mem_cons.mp hr with rfl | hr
      · exact hp r rfl
      · exact ih (fun q hq => hregion.proto ref o q (hp ref rfl) ho hq) r hr

/-- In a sealed heap a region is closed. -/
theorem Region.closed (hregion : h.Region R) (hsealed : h.Sealed) :
    h.Closed fun ref => R ref ∧ ref < h.objects.length where
  chain ref href := by
    rcases hsealed.chain ref href.2 with ⟨l, hl⟩
    refine ⟨l, hl, fun r hr => ⟨hregion.chain hl (fun q hq => ?_) r hr, hl.mem_lt hr⟩⟩
    exact Option.some.inj hq ▸ href.1
  property ref href atom v e w hown := by
    have hin := hregion.value ref atom v e w href.1 hown
    have hlt := hsealed.value ref atom v e w hown
    cases v with
    | object r => exact ⟨hin, hlt⟩
    | _ => trivial

/-- Whatever leaves the objects of the region leaves the region. -/
theorem Region.of_frame (hregion : h.Region R) {keep : ℕ → Prop} (hframe : Frame keep h h')
    (hproto : ∀ ref o p, R ref → h'.objects[ref]? = some o → o.proto = some p → R p)
    (hvalue : ∀ ref atom v e w, R ref → h'.own atom ref = some (.value v e w) → v.Within R) :
    h'.Region R where
  proto := hproto
  value := hvalue
  fresh ref href := hregion.fresh ref (le_trans hframe.length href)
  objectProto := hframe.objectProto ▸ hregion.objectProto
  arrayProto := hframe.arrayProto ▸ hregion.arrayProto
  errorProto := hframe.errorProto ▸ hregion.errorProto
  dateProto := hframe.dateProto ▸ hregion.dateProto

theorem Region.allocate (hregion : h.Region R) {o : JSObject}
    (hproto : ∀ p, o.proto = some p → R p)
    (hvalue : ∀ atom v e w, o.own atom = some (.value v e w) → v.Within R) :
    (h.allocate o).1.Region R := by
  have hframe := frame_allocate h o
  have hlast {ref : ℕ} (hnew : ¬ ref < h.objects.length) {q : JSObject}
      (hq : (h.allocate o).1.objects[ref]? = some q) : q = o := by
    have hlt := lt_of_getElem? hq
    have hlength : (h.allocate o).1.objects.length = h.objects.length + 1 := by
      unfold Heap.allocate
      rw [List.length_append, List.length_singleton]
    have href : ref = h.objects.length := by omega
    rw [href, getElem?_allocate] at hq
    exact (Option.some.inj hq).symm
  refine hregion.of_frame hframe (fun ref q p href hq hp => ?_) fun ref atom v e w href hown => ?_
  · by_cases hold : ref < h.objects.length
    · rw [hframe.objects ref hold] at hq
      exact hregion.proto ref q p href hq hp
    · exact hproto p (hlast hold hq ▸ hp)
  · by_cases hold : ref < h.objects.length
    · rw [hframe.agrees.own hold] at hown
      exact hregion.value ref atom v e w href hown
    · have hq := List.getElem?_eq_getElem (lt_of_own hown)
      rw [own_eq hq, hlast hold hq] at hown
      exact hvalue atom v e w hown

theorem Region.update (hregion : h.Region R) {ref : ℕ} {f : JSObject → JSObject}
    (hproto : ∀ o p, h.objects[ref]? = some o → (f o).proto = some p → R p)
    (hvalue : ∀ o, h.objects[ref]? = some o → ∀ atom v e w,
      (f o).own atom = some (.value v e w) → v.Within R) : (h.update ref f).Region R := by
  have hframe := frame_update h ref f
  have hself {o : JSObject} (ho : (h.update ref f).objects[ref]? = some o) :
      ∃ q, h.objects[ref]? = some q ∧ o = f q := by
    rw [getElem?_update, Option.map_eq_some_iff] at ho
    exact ho.imp fun q hq => ⟨hq.1, hq.2.symm⟩
  refine hregion.of_frame hframe (fun r o p hr ho hp => ?_) fun r atom v e w hr hown => ?_
  · by_cases heq : r = ref
    · subst heq
      rcases hself ho with ⟨q, hq, rfl⟩
      exact hproto q p hq hp
    · rw [hframe.objects r heq] at ho
      exact hregion.proto r o p hr ho hp
  · by_cases heq : r = ref
    · subst heq
      have ho := List.getElem?_eq_getElem (lt_of_own hown)
      rcases hself ho with ⟨q, hq, hsame⟩
      rw [own_eq ho, hsame] at hown
      exact hvalue q hq atom v e w hown
    · rw [hframe.agrees.own heq] at hown
      exact hregion.value r atom v e w hr hown

/-- A property of an object of the region is written. -/
theorem Region.put (hregion : h.Region R) {ref : ℕ} (href : R ref) (atom : Atom) {v : JSValue}
    (hv : v.Within R) (e w : Bool) :
    (h.update ref fun o => o.put atom (.value v e w)).Region R := by
  refine hregion.update (fun o p ho hp => hregion.proto ref o p href ho hp)
    fun o ho atom' v' e' w' hown => ?_
  rcases own_put_cases hown with heq | hold
  · rw [(Property.value.inj heq).1]
    exact hv
  · exact hregion.value ref atom' v' e' w' href ((own_eq ho atom').trans hold)

theorem Region.setProto (hregion : h.Region R) {ref : ℕ} (href : R ref) {v : JSValue}
    (hv : v.Within R) : (h.setProto ref v).Region R := by
  have hchange {q : Option ℕ} (hq : ∀ p, q = some p → R p) :
      (h.update ref fun o => { o with proto := q }).Region R :=
    hregion.update (fun o p _ hp => hq p hp) fun o ho atom v e w hown =>
      hregion.value ref atom v e w href ((own_eq ho atom).trans hown)
  unfold Heap.setProto
  cases v with
  | object p =>
      dsimp only
      split
      · split_ifs
        · exact hchange fun p' hp' => Option.some.inj hp' ▸ hv
        · exact hregion
      · exact hregion
  | nullTag _ =>
      dsimp only
      split
      · split_ifs
        · exact hchange nofun
        · exact hregion
      · exact hregion
  | _ => exact hregion

/-- An assignment to an object of the region. -/
theorem Region.setProperty (hregion : h.Region R) {ref : ℕ} (href : R ref) {atom : Atom}
    {v : JSValue} (hv : v.Within R) (hset : h.setProperty ref atom v = .ok h') :
    h'.Region R := by
  have hsetter {accessor : Accessor} (hcall : h.callSetter ref v accessor = .ok h') :
      h'.Region R := by
    cases accessor with
    | proto => exact Except.ok.inj hcall ▸ hregion.setProto href hv
    | script => cases hcall
  unfold Heap.setProperty at hset
  split at hset
  · exact Except.ok.inj hset ▸ hregion.put href atom hv _ _
  · exact Except.ok.inj hset ▸ hregion
  · exact hsetter hset
  · split at hset
    · exact hsetter hset
    · exact Except.ok.inj hset ▸ hregion
    · split at hset
      · split_ifs at hset
        · exact Except.ok.inj hset ▸ hregion.put href atom hv _ _
        · exact Except.ok.inj hset ▸ hregion
      · exact Except.ok.inj hset ▸ hregion

/-- The elements of an array of the region. -/
theorem Region.elements (hregion : h.Region R) {ref : ℕ} (href : R ref) {o : JSObject}
    {values : List JSValue} (ho : h.objects[ref]? = some o) (hu : o.u = .array values) {v : JSValue}
    (hv : v ∈ values) : v.Within R := by
  rcases List.getElem?_of_mem hv with ⟨n, hn⟩
  refine hregion.value ref (.index n) v true true href ?_
  rw [own_eq ho]
  unfold JSObject.own
  rw [hu]
  dsimp only
  rw [hn]

/-- What an array has after some elements were written: none of them is lost. -/
theorem Region.own_elements (hregion : h.Region R) {ref : ℕ} (href : R ref) {o : JSObject}
    {values values' : List JSValue} (ho : h.objects[ref]? = some o) (hu : o.u = .array values)
    (hvalues : ∀ v ∈ values', v.Within R) (hlength : values.length ≤ values'.length)
    {atom : Atom} {v : JSValue} {e w : Bool}
    (hown : JSObject.own { o with u := .array values' } atom = some (.value v e w)) :
    v.Within R := by
  rcases own_array_cases rfl hown with ⟨v', hv', heq⟩ | ⟨hnot, hlookup⟩
  · rw [(Property.value.inj heq).1]
    exact hvalues v' hv'
  · refine hregion.value ref atom v e w href ?_
    rw [own_eq ho, own_array_of_not_element hu fun n hn => hlength.trans (hnot n hn)]
    exact hlookup

/-- An element of an array of the region is written. -/
theorem Region.setPropertyUint32 (hregion : h.Region R) {ref : ℕ} (href : R ref) (idx : ℕ)
    {v : JSValue} (hv : v.Within R) : (h.setPropertyUint32 ref idx v).Region R := by
  unfold Heap.setPropertyUint32
  refine hregion.update (fun o p ho hp => ?_) fun o ho atom v' e w hown => ?_
  · refine hregion.proto ref o p href ho ?_
    split at hp
    · split_ifs at hp
      · exact hp
      · unfold appendElement at hp
        split at hp
        · exact hp
        · exact hp
      · exact hp
    · exact hp
  · have hself (hold : o.own atom = some (.value v' e w)) : v'.Within R :=
      hregion.value ref atom v' e w href ((own_eq ho atom).trans hold)
    split at hown
    · rename_i values hu
      have hold (x : JSValue) (hx : x ∈ values) : x.Within R := hregion.elements href ho hu hx
      split_ifs at hown
      · refine hregion.own_elements href ho hu (fun x hx => ?_) (by rw [List.length_set]) hown
        rcases List.mem_or_eq_of_mem_set hx with hx | rfl
        · exact hold x hx
        · exact hv
      · unfold appendElement at hown
        simp only [hu] at hown
        have hown' : (JSObject.put { o with u := .array (values ++ [v]) } atomLength
            (.value (jsNewInt32 (Int32.ofNat (values.length + 1))) false true)).own atom
            = some (.value v' e w) := hown
        rcases own_put_cases hown' with heq | hother
        · rw [(Property.value.inj heq).1]
          trivial
        · refine hregion.own_elements href ho hu (fun x hx => ?_) ?_ hother
          · rcases List.mem_append.mp hx with hx | hx
            · exact hold x hx
            · rw [List.mem_singleton.mp hx]
              exact hv
          · rw [List.length_append]
            omega
      · exact hself hown
    · exact hself hown

end Heap

/-! ## Encoding -/

/-- Values whose wrappers, as far as they are of the context, wrap objects of a region. -/
def JSConvertible.Inside (context : ℕ) (R : ℕ → Prop) (t : JSConvertible) : Prop :=
  ∀ ref, OwnLeaf context ref t → R ref

/-- Data is inside of every region. -/
theorem JSConvertible.IsData.inside {t : JSConvertible} (hdata : t.IsData) (context : ℕ)
    (R : ℕ → Prop) : t.Inside context R := by
  intro ref hleaf
  induction hdata with
  | array elements _ ih =>
      cases hleaf with
      | element hx hleaf => exact ih _ hx hleaf
  | dictionary entries _ ih =>
      cases hleaf with
      | entry he hleaf => exact ih _ he hleaf
  | _ => cases hleaf

variable {R : ℕ → Prop}

/-- Encoding a value keeps the region, and the value refers into it. -/
def StaysWithin (R : ℕ → Prop) (t : JSConvertible) : Prop :=
  ∀ (h h' : Heap) (v : Option JSValue), h.Region R → t.Inside h.context R →
    t.toJSValue h = .ok (v, h') → h'.Region R ∧ ∀ w, v = some w → w.Within R

theorem stays_of_leaf {t : JSConvertible} {value : Heap → Option JSValue}
    (hencode : ∀ h, t.toJSValue h = .ok (value h, h))
    (hwithin : ∀ h : Heap, t.Inside h.context R → ∀ w, value h = some w → w.Within R) :
    StaysWithin R t := by
  intro h h' v hregion hinside heq
  rw [hencode, Except.ok.injEq, Prod.mk.injEq] at heq
  rcases heq with ⟨rfl, rfl⟩
  exact ⟨hregion, hwithin h hinside⟩

/-- A wrapper becomes the object that it wraps. -/
theorem stays_of_wrapper {t : JSConvertible} {value context : ℕ}
    (hencode : ∀ h, t.toJSValue h =
      .ok (if context = h.context then some (.object value) else none, h))
    (hleaf : OwnLeaf context value t) : StaysWithin R t := by
  refine stays_of_leaf hencode fun h hinside w hw => ?_
  split_ifs at hw with hcontext
  rw [← Option.some.inj hw]
  exact hinside value (hcontext ▸ hleaf)

/-- The loop over an array. -/
theorem region_setElements {elements : List JSConvertible}
    (hstays : ∀ x ∈ elements, StaysWithin R x) {i ref : ℕ} (href : R ref) {h h' : Heap}
    (hregion : h.Region R) (hinside : ∀ x ∈ elements, x.Inside h.context R)
    (hset : setElements elements i ref h = .ok h') : h'.Region R := by
  induction elements generalizing i h with
  | nil =>
      rw [setElements, Except.ok.injEq] at hset
      exact hset ▸ hregion
  | cons x elements ih =>
      rw [setElements] at hset
      cases hencode : x.toJSValue h with
      | error stop =>
          rw [hencode] at hset
          cases hset
      | ok r =>
          rcases r with ⟨v, h₁⟩
          rw [hencode] at hset
          dsimp only at hset
          split_ifs at hset
          have hx := hinside x List.mem_cons_self
          rcases hstays x List.mem_cons_self _ _ _ hregion hx hencode with ⟨hregion₁, hv⟩
          have hwithin : (v.getD JSValue.undefined).Within R := by
            cases v with
            | none => trivial
            | some w => exact hv w rfl
          have hcontext : (h₁.setPropertyUint32 ref i (v.getD JSValue.undefined)).context
              = h.context := (frame_toJSValue x hencode).context
          refine ih (fun y hy => hstays y (List.mem_cons_of_mem _ hy))
            (hregion₁.setPropertyUint32 href i hwithin) (fun y hy => ?_) hset
          rw [hcontext]
          exact hinside y (List.mem_cons_of_mem _ hy)

/-- The loop over a dictionary. -/
theorem region_setEntries {entries : List (String × JSConvertible)}
    (hstays : ∀ e ∈ entries, StaysWithin R e.2) {ref : ℕ} (href : R ref) {h h' : Heap}
    (hregion : h.Region R) (hinside : ∀ e ∈ entries, e.2.Inside h.context R)
    (hset : setEntries entries ref h = .ok h') : h'.Region R := by
  induction entries generalizing h with
  | nil =>
      rw [setEntries, Except.ok.injEq] at hset
      exact hset ▸ hregion
  | cons e entries ih =>
      rcases e with ⟨key, x⟩
      rw [setEntries] at hset
      have hrest {h : Heap} := @ih (fun e he => hstays e (List.mem_cons_of_mem _ he)) h
      cases hencode : x.toJSValue h with
      | error stop =>
          rw [hencode] at hset
          cases hset
      | ok r =>
          rcases r with ⟨v, h₁⟩
          rw [hencode] at hset
          have hcontext := (frame_toJSValue x hencode).context
          have hothers : ∀ e ∈ entries, e.2.Inside h₁.context R := by
            rw [hcontext]
            exact fun e he => hinside e (List.mem_cons_of_mem _ he)
          rcases hstays _ List.mem_cons_self _ _ _ hregion (hinside _ List.mem_cons_self) hencode
            with ⟨hregion₁, hv⟩
          cases v with
          | none => exact hrest hregion₁ hothers hset
          | some v =>
              dsimp only at hset
              cases hwrite : h₁.setProperty ref (jsNewAtom key) v with
              | error stop =>
                  rw [hwrite] at hset
                  cases hset
              | ok h₂ =>
                  rw [hwrite] at hset
                  refine hrest (hregion₁.setProperty href (hv v rfl) hwrite) ?_ hset
                  rw [(Heap.frame_setProperty hwrite).context]
                  exact hothers

/-- A new object with a built-in prototype, which refers to nothing else. -/
theorem Heap.Region.allocate_empty {h : Heap} (hregion : h.Region R) {o : JSObject} {p : ℕ}
    (hproto : o.proto = some p) (hp : R p)
    (hown : ∀ atom v e w, o.own atom = some (.value v e w) → ∀ ref, v ≠ .object ref) :
    (h.allocate o).1.Region R := by
  refine hregion.allocate (fun q hq => ?_) fun atom v e w hv => ?_
  · rw [hproto, Option.some.injEq] at hq
    exact hq ▸ hp
  · cases v with
    | object ref => exact absurd rfl (hown atom _ e w hv ref)
    | _ => trivial

/-- The object that is made next is in the region. -/
theorem Heap.Region.within_new {h : Heap} (hregion : h.Region R) {o : JSObject} {w : JSValue}
    (hw : some (JSValue.object (h.allocate o).2) = some w) : w.Within R := by
  rw [← Option.some.inj hw]
  exact hregion.fresh _ le_rfl

theorem stays_date (ms : Double) : StaysWithin R (.date ms) := by
  intro h h' v hregion _ hencode
  rw [JSConvertible.toJSValue, Except.ok.injEq, Prod.mk.injEq] at hencode
  rcases hencode with ⟨rfl, rfl⟩
  exact ⟨hregion.allocate_empty rfl hregion.dateProto nofun, fun w hw => hregion.within_new hw⟩

theorem stays_array {elements : List JSConvertible} (hstays : ∀ x ∈ elements, StaysWithin R x) :
    StaysWithin R (.array elements) := by
  intro h h' v hregion hinside hencode
  rw [JSConvertible.toJSValue] at hencode
  cases hset : setElements elements 0 h.newArray.2 h.newArray.1 with
  | error stop =>
      rw [hset] at hencode
      cases hencode
  | ok h₁ =>
      rw [hset, Except.ok.injEq, Prod.mk.injEq] at hencode
      rcases hencode with ⟨rfl, rfl⟩
      -- The length is a number.
      have hnew : h.newArray.1.Region R := by
        refine hregion.allocate_empty rfl hregion.arrayProto fun atom v e w hown ref => ?_
        rcases Heap.own_array_cases rfl hown with ⟨x, hx, -⟩ | ⟨-, hlookup⟩
        · exact absurd hx List.not_mem_nil
        · rw [List.lookup_cons] at hlookup
          split at hlookup
          · rw [← (Property.value.inj (Option.some.inj hlookup)).1]
            exact nofun
          · cases hlookup
      exact ⟨region_setElements hstays (hregion.fresh _ le_rfl) hnew
        (fun x hx ref hleaf => hinside ref (OwnLeaf.element hx hleaf)) hset,
        fun w hw => hregion.within_new hw⟩

theorem stays_dictionary {entries : List (String × JSConvertible)}
    (hstays : ∀ e ∈ entries, StaysWithin R e.2) : StaysWithin R (.dictionary entries) := by
  intro h h' v hregion hinside hencode
  rw [JSConvertible.toJSValue] at hencode
  cases hset : setEntries entries h.newObject.2 h.newObject.1 with
  | error stop =>
      rw [hset] at hencode
      cases hencode
  | ok h₁ =>
      rw [hset, Except.ok.injEq, Prod.mk.injEq] at hencode
      rcases hencode with ⟨rfl, rfl⟩
      have hnew : h.newObject.1.Region R := hregion.allocate_empty rfl hregion.objectProto nofun
      exact ⟨region_setEntries hstays (hregion.fresh _ le_rfl) hnew
        (fun e he ref hleaf => hinside ref (OwnLeaf.entry he hleaf)) hset,
        fun w hw => hregion.within_new hw⟩

theorem stays_jsError (name message cause stack : Option String) :
    StaysWithin R (.jsError name message cause stack) := by
  intro h h' v hregion _ hencode
  rw [JSConvertible.toJSValue] at hencode
  cases hset : [("message", message), ("name", name), ("cause", cause), ("stack", stack)].foldlM
      (setErrorString h.newError.2) h.newError.1 with
  | error stop =>
      rw [hset] at hencode
      cases hencode
  | ok h₁ =>
      rw [hset, Except.ok.injEq, Prod.mk.injEq] at hencode
      rcases hencode with ⟨rfl, rfl⟩
      have hnew : h.newError.1.Region R := hregion.allocate_empty rfl hregion.errorProto nofun
      have href : R h.newError.2 := hregion.fresh _ le_rfl
      -- Every field is a string, or not set.
      have hstep (h₂ : Heap) (field : String × Option String) (h₃ : Heap) (hregion₂ : h₂.Region R)
          (hfield : setErrorString h.newError.2 h₂ field = .ok h₃) : h₃.Region R := by
        unfold setErrorString at hfield
        split at hfield
        · exact Except.ok.inj hfield ▸ hregion₂
        · rename_i s _
          have hstring : (JSValue.string (JSString.ofSwift s)).Within R := trivial
          exact hregion₂.setProperty href hstring hfield
      exact ⟨Fallible.foldlM_invariant (fun h₂ field h₃ _ => hstep h₂ field h₃) hnew hset,
        fun w hw => hregion.within_new hw⟩

mutual

/-- Encoding keeps a region. -/
theorem region_toJSValue : ∀ t : JSConvertible, StaysWithin R t
  | .string _ => stays_of_leaf (fun _ => by rw [JSConvertible.toJSValue])
      fun _ _ w hw => by rw [← Option.some.inj hw]; trivial
  | .bool _ => stays_of_leaf (fun _ => by rw [JSConvertible.toJSValue])
      fun _ _ w hw => by rw [← Option.some.inj hw]; trivial
  | .nsNull => stays_of_leaf (fun _ => by rw [JSConvertible.toJSValue])
      fun _ _ w hw => by rw [← Option.some.inj hw]; trivial
  | .int n => stays_of_leaf (fun _ => by rw [JSConvertible.toJSValue]) fun _ _ w hw => by
      rw [← Option.some.inj hw]
      unfold jsNewInt64
      split_ifs
      · trivial
      · trivial
  | .double _ => stays_of_leaf (fun _ => by rw [JSConvertible.toJSValue])
      fun _ _ w hw => by rw [← Option.some.inj hw]; trivial
  | .jsFunction _ _ name => stays_of_wrapper (fun _ => by rw [JSConvertible.toJSValue])
      (OwnLeaf.jsFunction name)
  | .jsClass _ _ className => stays_of_wrapper (fun _ => by rw [JSConvertible.toJSValue])
      (OwnLeaf.jsClass className)
  | .date ms => stays_date ms
  | .array elements => stays_array (region_elements elements)
  | .dictionary entries => stays_dictionary (region_values entries)
  | .jsError name message cause stack => stays_jsError name message cause stack

theorem region_elements : ∀ elements : List JSConvertible, ∀ x ∈ elements, StaysWithin R x
  | [], _, hx => absurd hx List.not_mem_nil
  | y :: ys, x, hx => (List.mem_cons.mp hx).elim (fun heq => heq ▸ region_toJSValue y)
      (region_elements ys x)

theorem region_values : ∀ entries : List (String × JSConvertible), ∀ e ∈ entries, StaysWithin R e.2
  | [], _, he => absurd he List.not_mem_nil
  | (_, y) :: rest, e, he => (List.mem_cons.mp he).elim (fun heq => heq ▸ region_toJSValue y)
      (region_values rest e)

end

end Substrata
