import Substrata.Theory.Bridge
import Substrata.Theory.RoundTrip
import Substrata.Basis.Run
import Mathlib.Logic.Function.Basic

/-!
# The data bridge as a map

Swift code and scripts use the data bridge as a place to put values under names. As such it is
a map: each name has the value that was put there last, whatever was put elsewhere before and
after.

The object of the bridge is the one that the engine makes, a plain object. Every value that is
put there becomes new objects, which nothing refers to but the bridge, so that its picture stays
when other names are written. The names are identifiers, and not `__proto__`. The values are
plain ones that survive the way to JS and back, or `nil`.

## Main definitions

* `latest`: The map that a list of writes leaves.
* `Realm.Bridged`: A bridge that is a plain object.
* `Realm.Holds`: It holds the values of a map.
* `DataBridge.Writes`: Writes that return `true`.

## Theorems

* `Heap.Intact.update`: A plain object may change.
* `Realm.Bridged.write`: A write.
* `Realm.exists_run_latest`: A list of writes leaves its map.
-/

namespace Substrata

/-- What was written last under each key. -/
def latest {κ ν : Type} [DecidableEq κ] (writes : List (κ × ν)) : κ → Option ν :=
  writes.foldl (fun map write => Function.update map write.1 (some write.2)) fun _ => none

theorem latest_append {κ ν : Type} [DecidableEq κ] (writes : List (κ × ν)) (key : κ) (value : ν) :
    latest (writes ++ [(key, value)]) = Function.update (latest writes) key (some value) := by
  unfold latest
  rw [List.foldl_append]
  rfl

theorem mem_of_latest {κ ν : Type} [DecidableEq κ] {writes : List (κ × ν)} {key : κ} {value : ν}
    (hlatest : latest writes key = some value) : (key, value) ∈ writes := by
  induction writes using List.reverseRecOn with
  | nil => exact absurd hlatest nofun
  | append_singleton writes write ih =>
      rcases write with ⟨key', value'⟩
      rw [latest_append] at hlatest
      by_cases heq : key = key'
      · subst heq
        rw [Function.update_self, Option.some.injEq] at hlatest
        rw [hlatest]
        exact List.mem_append_right _ (List.mem_singleton_self _)
      · rw [Function.update_of_ne heq] at hlatest
        exact List.mem_append_left _ (ih hlatest)

namespace Heap

variable {h : Heap} {ref : ℕ} {o : JSObject} {prop : Atom} {val : JSValue}

/-- An object that is neither `Object.prototype` nor a function may change, but not its
    prototype. -/
theorem Intact.update (hintact : h.Intact) {f : JSObject → JSObject}
    (ho : h.objects[ref]? = some o) (hproto : o.proto ≠ none) (hcall : o.classID ∉ callableClasses)
    (hkeep : (f o).proto = o.proto) : (h.update ref f).Intact := by
  have hframe := frame_update h ref f
  rcases hintact.object with
    ⟨p, hp, hend, haccessor, hothers, constructor, e, hconstructor, c, hc, hclass, hname⟩
  have hproto_ne : h.objectProto ≠ ref := by
    intro heq
    rw [heq, ho, Option.some.injEq] at hp
    exact hproto (hp ▸ hend)
  have hconstructor_ne : constructor ≠ ref := by
    intro heq
    rw [heq, ho, Option.some.injEq] at hc
    exact hcall (hc ▸ hclass)
  refine ⟨⟨p, ?_, hend, haccessor, hothers, constructor, e, hconstructor, c, ?_, hclass, hname⟩,
    ?_, hintact.object_ne_array, hintact.date_ne_object, hintact.date_ne_array⟩
  · exact (hframe.objects _ hproto_ne).trans hp
  · exact (hframe.objects _ hconstructor_ne).trans hc
  · rcases hintact.array with ⟨a, ha, hparent⟩
    change ∃ a, (h.update ref f).objects[h.arrayProto]? = some a ∧ a.proto = some h.objectProto
    by_cases heq : h.arrayProto = ref
    · rw [heq, ho, Option.some.injEq] at ha
      refine ⟨f o, by rw [heq, getElem?_update, ho, Option.map_some], ?_⟩
      rw [hkeep, ha, hparent]
    · exact ⟨a, (hframe.objects _ heq).trans ha, hparent⟩

/-- An assignment that is not refused. -/
theorem exists_jsSetProperty_of_accepts (ho : h.objects[ref]? = some o)
    (hextensible : o.extensible = true) {above : List ℕ}
    (hchain : h.Chain (some ref) (ref :: above)) (haccepts : h.Accepts ref above prop)
    (val : JSValue) :
    ∃ e, h.jsSetProperty ref prop val = .ok (true, h.assigned ref prop val e) := by
  unfold jsSetProperty
  cases hown : h.own prop ref with
  | some p =>
      cases p with
      | value v e w =>
          rw [(accepts_value hown).mp haccepts]
          exact ⟨e, rfl⟩
      | getSet accessor e =>
          unfold Accepts at haccepts
          rw [hown] at haccepts
          exact haccepts.elim
  | none =>
      have hguard := (accepts_none hown).mp haccepts
      rw [hchain.protoChain_eq, List.tail_cons]
      simp only [hguard, ho, hextensible, if_true]
      exact ⟨true, rfl⟩

end Heap

namespace DataBridge

/-- A write that returns `true`. -/
def Writes (eval : String → Realm → Outcome (JSValue × Realm)) (s : Realm)
    (write : String × Option JSConvertible) (s' : Realm) : Prop :=
  DataBridge.setValue eval write.2 write.1 s = .ok (true, s')

end DataBridge

/-- Plain values are data. -/
theorem Plain.isData {canonical : String → String} {t : JSConvertible}
    (hplain : Plain canonical t) :
    t.IsData := by
  induction hplain with
  | string s => exact .string s
  | bool b => exact .bool b
  | nsNull => exact .nsNull
  | int n _ => exact .int n
  | double d _ _ => exact .double d
  | array elements _ ih => exact .array elements ih
  | dictionary entries _ _ ih => exact .dictionary entries ih

/-- An identifier that names a property as any other. -/
def isKey (name : String) : Prop := isIdentifierName name = true ∧ name ≠ "__proto__"

theorem isKey.nulFree {name : String} (hname : isKey name) : '\x00' ∉ name.toList :=
  notMem_of_identifier hname.1 (by decide)

namespace Realm

/-- The bridge is a plain object of its own: it inherits from `Object.prototype`, is extensible,
    and its properties are writable values. -/
structure Bridged (s : Realm) (bridge : ℕ) : Prop extends s.Bound bridge where
  intact : s.heap.Intact
  ne_globalObj : s.globalObj ≠ bridge
  object : ∃ o, s.heap.objects[bridge]? = some o ∧ o.classID = jsClassObject ∧
    o.proto = some s.heap.objectProto ∧ o.extensible = true ∧ (∀ values, o.u ≠ .array values) ∧
    ∀ atom p, o.own atom = some p → ∃ v e, p = .value v e true

/-- What is put under a name: the picture of a value, or `undefined` for `nil`. -/
def Shows (b : ℕ) (h : Heap) : Option JSConvertible → JSValue → Prop
  | none, v => v = JSValue.undefined
  | some t, v => Image b h t v

/-- Under each name of a map the bridge has what shows its value, and under the other names what
    it had in another heap. -/
structure Holds (s₀ s : Realm) (bridge : ℕ) (map : String → Option (Option JSConvertible)) :
    Prop where
  value : ∀ name x, isKey name → map name = some x → ∃ v e,
    s.heap.own (jsNewAtom name) bridge = some (.value v e true) ∧
      Shows s₀.heap.objects.length s.heap x v
  other : ∀ name, isKey name → map name = none →
    s.heap.getProperty bridge (jsNewAtom name) = s₀.heap.getProperty bridge (jsNewAtom name)

variable {s s₀ s' : Realm} {bridge : ℕ} {h : Heap}

theorem Bridged.isArraySlot (hbridged : s.Bridged bridge) (atom : Atom) :
    s.heap.isArraySlot bridge atom = false := by
  rcases hbridged.object with ⟨o, ho, -, -, -, hu, -⟩
  unfold Heap.isArraySlot
  rw [ho]
  rcases o with ⟨_, _, _, _, u⟩
  cases u with
  | array values => exact absurd rfl (hu values)
  | _ => rfl

/-- Its chain is two objects long. -/
theorem Bridged.chain (hbridged : s.Bridged bridge) :
    s.heap.Chain (some bridge) [bridge, s.heap.objectProto] := by
  rcases hbridged.object with ⟨o, ho, -, hproto, -⟩
  rcases hbridged.intact.object with ⟨p, hp, hend, -⟩
  refine Heap.Chain.cons ho ?_
  rw [hproto]
  refine Heap.Chain.cons hp ?_
  rw [hend]
  exact Heap.Chain.nil

/-- No assignment under a key is refused. -/
theorem Bridged.accepts (hbridged : s.Bridged bridge) {name : String} (hname : isKey name) :
    s.heap.Accepts bridge [s.heap.objectProto] (jsNewAtom name) := by
  have hproto : jsNewAtom name ≠ atomProto := jsNewAtom_ne_atomProto hname.nulFree hname.2
  rcases hbridged.object with ⟨o, ho, -, -, -, -, hvalues⟩
  rcases hbridged.intact.object with ⟨p, hp, -, -, hothers, -⟩
  cases hown : s.heap.own (jsNewAtom name) bridge with
  | some q =>
      rcases hvalues _ q ((Heap.own_eq ho _).symm.trans hown) with ⟨v, e, rfl⟩
      exact (Heap.accepts_value hown).mpr rfl
  | none =>
      refine (Heap.accepts_none hown).mpr ?_
      rw [List.findSome?_eq_none_iff]
      intro r hr
      rw [List.mem_singleton.mp (List.takeWhile_subset _ hr)]
      unfold Heap.inheritedGuard
      cases hinherited : s.heap.own (jsNewAtom name) s.heap.objectProto with
      | none => rfl
      | some q =>
          rcases hothers _ q hproto ((Heap.own_eq hp _).symm.trans hinherited) with ⟨v, e, rfl⟩
          rfl

/-- It stays so while only new objects are made. -/
theorem Bridged.inHeap (hbridged : s.Bridged bridge) (hsealed : h.Sealed)
    (hframe : Heap.Frame (· < s.heap.objects.length) s.heap h) :
    { s with heap := h }.Bridged bridge :=
  { hbridged.withHeap hsealed hframe hbridged.isSealed.globalObj with
    intact := hbridged.intact.frame le_rfl hframe
    ne_globalObj := hbridged.ne_globalObj
    object := by
      dsimp only
      rw [hframe.objects bridge hbridged.lt, hframe.objectProto]
      exact hbridged.object }

/-- It stays so when a property of it is assigned to. -/
theorem Bridged.assigned (hbridged : s.Bridged bridge) (atom : Atom) {v : JSValue}
    (hv : v.Within (· < s.heap.objects.length)) (e : Bool) :
    { s with heap := s.heap.assigned bridge atom v e }.Bridged bridge := by
  rcases hbridged.object with ⟨o, ho, hclass, hproto, hextensible, hu, hvalues⟩
  have hframe := Heap.frame_update s.heap bridge fun o => o.put atom (.value v e true)
  have hcall : o.classID ∉ callableClasses := by
    rw [hclass]
    decide
  exact
    { hbridged.withHeap (hbridged.isSealed.heap.put bridge atom hv e true) hframe
        hbridged.ne_globalObj with
      intact := hbridged.intact.update ho (by rw [hproto]; exact nofun) hcall rfl
      ne_globalObj := hbridged.ne_globalObj
      object := by
        refine ⟨o.put atom (.value v e true), ?_, hclass, hproto, hextensible, hu, ?_⟩
        · exact (Heap.getElem?_update _ _ _).trans (by rw [ho, Option.map_some])
        · intro atom' p hown
          rcases Heap.own_put_cases hown with rfl | hold
          · exact ⟨v, e, rfl⟩
          · exact hvalues atom' p hold }

/-! ## Writes -/

variable {ext : Externals} {eval : String → Realm → Outcome (JSValue × Realm)}

/-- The value of a write. -/
theorem Bridged.hand (hbridged : s.Bridged bridge) {value : Option JSConvertible}
    (hvalue : ∀ t, value = some t → Plain ext.canonical t ∧ Survives t) :
    ∃ v h, Route.engineSetValue.hand value s.heap = .ok (v, h) ∧ h.Sealed ∧
      v.Within (· < h.objects.length) ∧ Shows s.heap.objects.length h value v := by
  unfold Route.hand encodeOptional
  cases value with
  | none => exact ⟨_, _, rfl, hbridged.isSealed.heap, trivial, rfl⟩
  | some t =>
      rcases hvalue t rfl with ⟨hplain, hsurvives⟩
      have hencodes := encodes_of_plain hplain s.heap hbridged.intact
      unfold Encodes at hencodes
      dsimp only
      cases hencode : t.toJSValue s.heap with
      | error stop =>
          rw [hencode] at hencodes
          exact absurd hsurvives hencodes
      | ok r =>
          rcases r with ⟨v, h⟩
          rw [hencode] at hencodes
          rcases hencodes with ⟨-, w, rfl, himage⟩
          rcases sealed_toJSValue t _ _ _ hbridged.isSealed.heap (hplain.isData.live _) hencode
            with ⟨hsealed, hwithin⟩
          exact ⟨_, _, rfl, hsealed, hwithin w rfl, himage⟩

theorem joined_singleton (name : String) : joined [name] = name := by
  rfl

/-- A write is accepted, and it is an assignment of what shows the value. -/
theorem Bridged.write (heval : Extends eval) (hbridged : s.Bridged bridge) {name : String}
    (hname : isKey name) {value : Option JSConvertible}
    (hvalue : ∀ t, value = some t → Plain ext.canonical t ∧ Survives t) :
    ∃ v h e, Heap.Frame (· < s.heap.objects.length) s.heap h ∧ h.Sealed ∧
      v.Within (· < h.objects.length) ∧ Shows s.heap.objects.length h value v ∧
      DataBridge.Writes eval s (name, value)
        { s with heap := h.assigned bridge (jsNewAtom name) v e } := by
  rcases hbridged.hand hvalue with ⟨v, h, hhand, hsealed, hwithin, hshows⟩
  have hframe := frame_hand hhand
  have hlater := hbridged.inHeap hsealed hframe
  rcases hlater.object with ⟨o, ho, -, -, hextensible, -, -⟩
  rcases Heap.exists_jsSetProperty_of_accepts ho hextensible hlater.chain (hlater.accepts hname) v
    with ⟨e, hset⟩
  refine ⟨v, h, e, hframe, hsealed, hwithin, hshows, ?_⟩
  have hnames : ∀ n ∈ [] ++ [name], isIdentifierName n = true := by
    simpa using hname.1
  have htarget : s.target [DataBridge.dataBridgeKey] = .ok (.object bridge) :=
    hbridged.evalPath []
  have hpath : Path.ofNames ([DataBridge.dataBridgeKey] ++ [name])
      = some ⟨DataBridge.dataBridgeKey, [name]⟩ := ofNames_dataBridge hnames
  have hkey : DataBridge.keyed name = joined ([DataBridge.dataBridgeKey] ++ [name]) := by
    have hjoined := keyed_joined (List.cons_ne_nil name [])
    rwa [joined_singleton] at hjoined
  unfold DataBridge.Writes DataBridge.setValue
  rw [hkey, setValue_eq hbridged.isSealed htarget heval hpath hhand]
  unfold Realm.jsSetPropertyStr
  simp only [hlater.isArraySlot, Bool.false_eq_true, if_false, hset]

theorem Shows.frame {b b' : ℕ} {h h' : Heap} {value : Option JSConvertible} {v : JSValue}
    (hshows : Shows b h value v) {keep : ℕ → Prop} (hframe : Heap.Frame keep h h')
    (hkeep : ∀ i, b ≤ i → i < h.objects.length → keep i) (hb : b' ≤ b) : Shows b' h' value v := by
  cases value with
  | none => exact hshows
  | some t => exact Image.frame hshows hframe hkeep hb

/-- What an assignment to the bridge leaves of the map, and what it adds. -/
theorem Holds.assigned (hbridged₀ : s₀.Bridged bridge) (hbridged : s.Bridged bridge)
    {map : String → Option (Option JSConvertible)} (hholds : Holds s₀ s bridge map)
    (hlength : s₀.heap.objects.length ≤ s.heap.objects.length)
    (hframe : Heap.Frame (· < s.heap.objects.length) s.heap h) (hsealed : h.Sealed) {name : String}
    (hname : isKey name) {value : Option JSConvertible} {v : JSValue}
    (hshows : Shows s.heap.objects.length h value v) (e : Bool) :
    Holds s₀ { s with heap := h.assigned bridge (jsNewAtom name) v e } bridge
      (Function.update map name (some value)) := by
  have hlater := hbridged.inHeap hsealed hframe
  rcases hlater.object with ⟨o, ho, -⟩
  have hslot := hlater.isArraySlot (jsNewAtom name)
  have hupdate : Heap.Frame (· ≠ bridge) h (h.assigned bridge (jsNewAtom name) v e) :=
    Heap.frame_update _ _ _
  have hnew {i : ℕ} (hi : s₀.heap.objects.length ≤ i) : i ≠ bridge := by
    have hlt := hbridged₀.lt
    omega
  refine ⟨fun name' x hname' hx => ?_, fun name' hname' hx => ?_⟩
  · by_cases heq : name' = name
    · subst heq
      rw [Function.update_self, Option.some.injEq] at hx
      subst hx
      refine ⟨v, e, ?_, hshows.frame hupdate (fun i hi _ => hnew (hlength.trans hi)) hlength⟩
      exact (Heap.own_assigned ho hslot _ _).trans (if_pos ⟨rfl, rfl⟩)
    · rw [Function.update_of_ne heq] at hx
      rcases hholds.value name' x hname' hx with ⟨v', e', hown, hshows'⟩
      refine ⟨v', e', ?_, (hshows'.frame hframe (fun i _ hi => hi) le_rfl).frame hupdate
        (fun i hi _ => hnew hi) le_rfl⟩
      have hatom : jsNewAtom name' ≠ jsNewAtom name := fun hatom =>
        heq (jsNewAtom_inj hname'.nulFree hname.nulFree hatom)
      refine (Heap.own_assigned ho hslot _ _).trans ?_
      rw [if_neg fun hand => hatom hand.2, hframe.agrees.own hbridged.lt]
      exact hown
  · have hne : name' ≠ name := by
      rintro rfl
      rw [Function.update_self] at hx
      cases hx
    rw [Function.update_of_ne hne] at hx
    rw [← hholds.other name' hname' hx,
      ← hframe.agrees.getProperty hbridged.isSealed.heap.closed hbridged.lt (jsNewAtom name')]
    unfold Heap.getProperty
    dsimp only
    have hatom : jsNewAtom name' ≠ jsNewAtom name := fun hatom =>
      hne (jsNewAtom_inj hname'.nulFree hname.nulFree hatom)
    rw [Heap.findProperty_assigned ho hslot fun heq => absurd heq hatom,
      Heap.getProto_assigned]

/-- A list of writes: each of them is accepted, and what is left is their map. -/
theorem Bridged.exists_run (heval : Extends eval) (hbridged : s.Bridged bridge)
    (writes : List (String × Option JSConvertible))
    (hwrites : ∀ write ∈ writes, isKey write.1 ∧
      ∀ t, write.2 = some t → Plain ext.canonical t ∧ Survives t) :
    ∃ s', Transition.Run (DataBridge.Writes eval) s writes s' ∧ s'.Bridged bridge ∧
      s.heap.objects.length ≤ s'.heap.objects.length ∧ s'.heap.objectProto = s.heap.objectProto ∧
      s'.heap.arrayProto = s.heap.arrayProto ∧ Holds s s' bridge (latest writes) := by
  induction writes using List.reverseRecOn with
  | nil =>
      refine ⟨s, Transition.Run.nil, hbridged, le_rfl, rfl, rfl, fun name x _ hx => ?_,
        fun _ _ _ => rfl⟩
      exact absurd hx nofun
  | append_singleton writes write ih =>
      rcases ih fun w hw => hwrites w (List.mem_append_left _ hw)
        with ⟨s', hrun, hbridged', hlength, hobject, harray, hholds⟩
      rcases write with ⟨name, value⟩
      rcases hwrites (name, value) (List.mem_append_right _ (List.mem_singleton_self _))
        with ⟨hname, hvalue⟩
      rcases hbridged'.write heval hname hvalue
        with ⟨v, h, e, hframe, hsealed, hwithin, hshows, hwrite⟩
      have hlater := hbridged'.inHeap hsealed hframe
      have hupdate : Heap.Frame (· ≠ bridge) h (h.assigned bridge (jsNewAtom name) v e) :=
        Heap.frame_update _ _ _
      refine ⟨_, Transition.Run.snoc hrun hwrite, hlater.assigned (jsNewAtom name) hwithin e,
        hlength.trans (hframe.length.trans hupdate.length),
        (hupdate.objectProto.trans hframe.objectProto).trans hobject,
        (hupdate.arrayProto.trans hframe.arrayProto).trans harray, ?_⟩
      rw [latest_append]
      exact hholds.assigned hbridged hbridged' hlength hframe hsealed hname hshows e

/-! ## Reads -/

/-- What shows a value is no exception, and decodes to the value. -/
theorem Shows.evaluated {b : ℕ} {h : Heap} (hbelow : h.Below b) {value : Option JSConvertible}
    (hvalue : ∀ t, value = some t → Plain ext.canonical t ∧ Survives t) {v : JSValue}
    (hshows : Shows b h value v) {fuel : ℕ} (hfuel : sizeOf value < fuel) :
    evaluated ext h fuel v = .ok (.value value) := by
  cases value with
  | none =>
      cases fuel with
      | zero => exact absurd hfuel (Nat.not_lt_zero _)
      | succ fuel =>
          have hv : v = JSValue.undefined := hshows
          rw [hv]
          rfl
  | some t =>
      rcases hvalue t rfl with ⟨hplain, hsurvives⟩
      have himage : Image b h t v := hshows
      have hsize : sizeOf t < fuel := by
        simp only [Option.some.sizeOf_spec] at hfuel
        omega
      have hdecode := decode_of_survives hbelow hplain hsurvives himage fuel hsize
      have hne : v ≠ .exception := by
        rintro rfl
        cases fuel with
        | zero => cases hdecode
        | succ fuel => cases hdecode
      rw [evaluated_of_ne hne, hdecode]
      rfl

/-- A read of a key. -/
theorem Bridged.value (heval : Extends eval) (hbridged : s.Bridged bridge) {name : String}
    (hname : isKey name) {v : JSValue} (hv : s.heap.getProperty bridge (jsNewAtom name) = .ok v)
    (fuel : ℕ) :
    DataBridge.value ext eval fuel name s =
      (evaluated ext s.heap fuel v).map fun result => (result, s) := by
  have hpath : s.evalPath ⟨DataBridge.dataBridgeKey, [name]⟩ = .ok v := by
    have hget : s.jsGetProperty (.object bridge) (jsNewAtom name) = .ok v := hv
    rw [hbridged.evalPath, List.foldlM_cons, hget]
    rfl
  rw [← joined_singleton name]
  exact value_keyed heval (List.cons_ne_nil name []) (by simpa using hname.1) hpath fuel

/-- There is no accessor under a key. -/
theorem Bridged.exists_getProperty (hbridged : s.Bridged bridge) {name : String}
    (hname : isKey name) : ∃ v, s.heap.getProperty bridge (jsNewAtom name) = .ok v := by
  have hproto : jsNewAtom name ≠ atomProto := jsNewAtom_ne_atomProto hname.nulFree hname.2
  rcases hbridged.object with ⟨o, ho, -, -, -, -, hvalues⟩
  rcases hbridged.intact.object with ⟨p, hp, -, -, hothers, -⟩
  refine ⟨_, Heap.getProperty_valued hbridged.chain fun r hr accessor e hown => ?_⟩
  rcases List.mem_cons.mp hr with rfl | hr
  · rcases hvalues _ _ ((Heap.own_eq ho _).symm.trans hown) with ⟨v, e', heq⟩
    cases heq
  · rw [List.mem_singleton.mp hr] at hown
    rcases hothers _ _ hproto ((Heap.own_eq hp _).symm.trans hown) with ⟨v, e', heq⟩
    cases heq

theorem small_bridged : small.Bridged 6 := by
  have hframe : Heap.Frame (· < Heap.builtins.objects.length) Heap.builtins small.heap :=
    ⟨fun i hi => List.getElem?_append_left hi, by decide, rfl, rfl, rfl, rfl, rfl⟩
  have hown {atom : Atom} {p : Property} : ¬ JSObject.own
      { classID := jsClassObject, proto := some 0 } atom = some p := by
    intro hown
    cases hown
  exact ⟨⟨small_sealed, by decide +kernel, true, true, by decide +kernel⟩,
    Heap.builtins_intact.frame le_rfl hframe, by decide,
    ⟨_, rfl, rfl, rfl, rfl, nofun, fun _ _ h => absurd h hown⟩⟩

/-- A key that is written twice, and `nil` under another. -/
def threeWrites : List (String × Option JSConvertible) :=
  [("size", some (.bool true)), ("name", none), ("size", some (.dictionary [("key", .bool true)]))]

theorem threeWrites_plain : ∀ write ∈ threeWrites, isKey write.1 ∧
    ∀ t, write.2 = some t → Plain Externals.simple.canonical t ∧ Survives t := by
  have hsize : isKey "size" := ⟨by decide +kernel, by decide⟩
  have hname : isKey "name" := ⟨by decide +kernel, by decide⟩
  have hentry : Survives (.dictionary [("key", .bool true)]) := by
    refine .dictionary _ (fun e he => ?_) fun e he => ?_
    · rw [List.mem_singleton.mp he]
      decide
    · rw [List.mem_singleton.mp he]
      exact .bool true
  intro write hwrite
  rw [threeWrites, List.mem_cons, List.mem_cons, List.mem_singleton] at hwrite
  rcases hwrite with rfl | rfl | rfl
  · exact ⟨hsize, fun t ht => Option.some.inj ht ▸ ⟨.bool true, .bool true⟩⟩
  · exact ⟨hname, nofun⟩
  · exact ⟨hsize, fun t ht => Option.some.inj ht ▸ ⟨plain_entry "key", hentry⟩⟩

end Realm

end Substrata
