import Substrata.Basis.Fallible
import Substrata.Theory.Chains

/-!
# What encoding and decoding depend on

Encoding a value makes new objects and writes to those alone. Decoding a value
looks at the objects that it can reach: by properties, by elements, and by
prototypes. So where those are the same, the result is the same, whatever
happened to the rest of the heap.

## Main definitions

* `JSValue.Within`: Values that refer into a set of objects, if anywhere.
* `Heap.Closed`: Sets of objects from which no reference leads out.
* `Heap.Agrees`: Two heaps are the same on a set of objects.

## Theorems

* `frame_toJSValue`: Encoding leaves the objects that there were.
* `Agrees.getProperty`: A lookup finds the same.
* `Agrees.toJSConvertible`: A value decodes to the same.
* `toJSConvertible_mono`: With a larger bound as well.
-/

namespace Substrata

/-! ## Encoding -/

namespace Heap

variable {h h' : Heap}

/-- An assignment changes one object at most. -/
theorem frame_setProperty {ref : ℕ} {atom : Atom} {v : JSValue}
    (hset : h.setProperty ref atom v = .ok h') : Frame (· ≠ ref) h h' := by
  cases ho : h.objects[ref]? with
  | some o => exact (setProperty_spec ho hset).1
  | none =>
      have hown : h.own atom ref = none := by
        unfold own
        rw [ho]
      have hchain : h.protoChain ref = [] := by
        unfold protoChain
        cases h.objects.length with
        | zero => rfl
        | succ n => simp only [chain, ho]
      unfold setProperty at hset
      simp only [hown, hchain, ho, guards, List.tail_nil, List.takeWhile_nil, List.findSome?_nil,
        Except.ok.injEq] at hset
      rw [← hset]
      exact Frame.refl _ _

end Heap

/-- The fields of an error are written to the error. -/
theorem frame_setErrorString {ref : ℕ} {h h' : Heap} {field : String × Option String}
    (hset : setErrorString ref h field = .ok h') : Heap.Frame (· ≠ ref) h h' := by
  unfold setErrorString at hset
  cases htext : field.2 with
  | none =>
      rw [htext] at hset
      rw [← Except.ok.inj hset]
      exact Heap.Frame.refl _ _
  | some s =>
      rw [htext] at hset
      exact Heap.frame_setProperty hset

/-- A value that needs no object. -/
theorem frame_of_same {h h' : Heap} {a v : Option JSValue}
    (hencode : (Except.ok (a, h) : Outcome (Option JSValue × Heap)) = .ok (v, h')) :
    Heap.Frame (· < h.objects.length) h h' := by
  rw [Except.ok.injEq, Prod.mk.injEq] at hencode
  exact hencode.2 ▸ Heap.Frame.refl _ _

mutual

/-- Encoding leaves the objects that there were. -/
theorem frame_toJSValue : ∀ (t : JSConvertible) {h h' : Heap} {v : Option JSValue},
    t.toJSValue h = .ok (v, h') → Heap.Frame (· < h.objects.length) h h'
  | .string _, h, h', v, hencode => frame_of_same (by rwa [JSConvertible.toJSValue] at hencode)
  | .bool _, h, h', v, hencode => frame_of_same (by rwa [JSConvertible.toJSValue] at hencode)
  | .nsNull, h, h', v, hencode => frame_of_same (by rwa [JSConvertible.toJSValue] at hencode)
  | .int _, h, h', v, hencode => frame_of_same (by rwa [JSConvertible.toJSValue] at hencode)
  | .double _, h, h', v, hencode => frame_of_same (by rwa [JSConvertible.toJSValue] at hencode)
  | .date ms, h, h', v, hencode => by
      rw [JSConvertible.toJSValue, Except.ok.injEq, Prod.mk.injEq] at hencode
      exact hencode.2 ▸ Heap.frame_allocate _ _
  | .array elements, h, h', v, hencode => by
      rw [JSConvertible.toJSValue] at hencode
      cases hset : setElements elements 0 h.newArray.2 h.newArray.1 with
      | error stop =>
          rw [hset] at hencode
          exact absurd hencode (by simp)
      | ok h₁ =>
          rw [hset] at hencode
          rw [← (Prod.mk.inj (Except.ok.inj hencode)).2]
          have hnew : Heap.Frame (· < h.objects.length) h h.newArray.1 := Heap.frame_allocate _ _
          exact hnew.trans (frame_setElements elements le_rfl hnew.length hset)
  | .dictionary entries, h, h', v, hencode => by
      rw [JSConvertible.toJSValue] at hencode
      cases hset : setEntries entries h.newObject.2 h.newObject.1 with
      | error stop =>
          rw [hset] at hencode
          exact absurd hencode (by simp)
      | ok h₁ =>
          rw [hset] at hencode
          rw [← (Prod.mk.inj (Except.ok.inj hencode)).2]
          have hnew : Heap.Frame (· < h.objects.length) h h.newObject.1 := Heap.frame_allocate _ _
          exact hnew.trans (frame_setEntries entries le_rfl hnew.length hset)
  | .jsFunction _ _ _, h, h', v, hencode => frame_of_same (by rwa [JSConvertible.toJSValue] at hencode)
  | .jsClass _ _ _, h, h', v, hencode => frame_of_same (by rwa [JSConvertible.toJSValue] at hencode)
  | .jsError name message cause stack, h, h', v, hencode => by
      rw [JSConvertible.toJSValue] at hencode
      cases hset : [("message", message), ("name", name), ("cause", cause), ("stack", stack)].foldlM
          (setErrorString h.newError.2) h.newError.1 with
      | error stop =>
          rw [hset] at hencode
          exact absurd hencode (by simp)
      | ok h₁ =>
          rw [hset] at hencode
          rw [← (Prod.mk.inj (Except.ok.inj hencode)).2]
          refine Fallible.foldlM_invariant (P := Heap.Frame (· < h.objects.length) h)
            (fun h₂ field h₃ _ hframe hstep => ?_) (Heap.frame_allocate _ _) hset
          exact hframe.trans ((frame_setErrorString hstep).mono fun i hi => Nat.ne_of_lt hi)

/-- The loop over an array writes to the array. -/
theorem frame_setElements : ∀ (elements : List JSConvertible) {b i ref : ℕ} {h h' : Heap},
    b ≤ ref → b ≤ h.objects.length → setElements elements i ref h = .ok h' →
      Heap.Frame (· < b) h h'
  | [], b, i, ref, h, h', _, _, hset => by
      rw [setElements, Except.ok.injEq] at hset
      exact hset ▸ Heap.Frame.refl _ _
  | x :: elements, b, i, ref, h, h', href, hb, hset => by
      rw [setElements] at hset
      cases hencode : x.toJSValue h with
      | error stop =>
          rw [hencode] at hset
          exact absurd hset (by simp)
      | ok r =>
          rcases r with ⟨v, h₁⟩
          rw [hencode] at hset
          dsimp only at hset
          split_ifs at hset
          have hframe := (frame_toJSValue x hencode).mono
            (fun i (hi : i < b) => lt_of_lt_of_le hi hb)
          have hwrite : Heap.Frame (· < b) h₁
              (h₁.setPropertyUint32 ref i (v.getD JSValue.undefined)) :=
            (Heap.frame_update h₁ ref _).mono fun i hi heq => by omega
          exact (hframe.trans hwrite).trans (frame_setElements elements href
            (hb.trans (hframe.trans hwrite).length) hset)

/-- The loop over a dictionary writes to the object. -/
theorem frame_setEntries : ∀ (entries : List (String × JSConvertible)) {b ref : ℕ} {h h' : Heap},
    b ≤ ref → b ≤ h.objects.length → setEntries entries ref h = .ok h' → Heap.Frame (· < b) h h'
  | [], b, ref, h, h', _, _, hset => by
      rw [setEntries, Except.ok.injEq] at hset
      exact hset ▸ Heap.Frame.refl _ _
  | (key, x) :: entries, b, ref, h, h', href, hb, hset => by
      rw [setEntries] at hset
      cases hencode : x.toJSValue h with
      | error stop =>
          rw [hencode] at hset
          exact absurd hset (by simp)
      | ok r =>
          rcases r with ⟨v, h₁⟩
          have hframe := (frame_toJSValue x hencode).mono
            (fun i (hi : i < b) => lt_of_lt_of_le hi hb)
          rw [hencode] at hset
          cases v with
          | none => exact hframe.trans (frame_setEntries entries href (hb.trans hframe.length) hset)
          | some v =>
              dsimp only at hset
              cases hwrite : h₁.setProperty ref (jsNewAtom key) v with
              | error stop =>
                  rw [hwrite] at hset
                  exact absurd hset (by simp)
              | ok h₂ =>
                  rw [hwrite] at hset
                  have hnext := hframe.trans
                    ((Heap.frame_setProperty hwrite).mono fun i hi heq => by omega)
                  exact hnext.trans (frame_setEntries entries href (hb.trans hnext.length) hset)

end

/-! ## Decoding -/

/-- Values that refer into a set of objects, if anywhere. -/
def JSValue.Within (objects : ℕ → Prop) : JSValue → Prop
  | .object ref => objects ref
  | _ => True

namespace Heap

/-- A set of objects from which no reference leads out. -/
structure Closed (h : Heap) (objects : ℕ → Prop) : Prop where
  chain : ∀ ref, objects ref → ∃ l, h.Chain (some ref) l ∧ ∀ r ∈ l, objects r
  property : ∀ ref, objects ref → ∀ atom v e w, h.own atom ref = some (.value v e w) →
    v.Within objects

/-- Two heaps are the same on a set of objects. -/
structure Agrees (objects : ℕ → Prop) (h h' : Heap) : Prop where
  objects : ∀ ref, objects ref → h'.objects[ref]? = h.objects[ref]?
  context : h'.context = h.context
  dateProto : h'.dateProto = h.dateProto

theorem Frame.agrees {objects : ℕ → Prop} {h h' : Heap} (hframe : Frame objects h h') :
    Agrees objects h h' :=
  ⟨hframe.objects, hframe.context, hframe.dateProto⟩

namespace Agrees

variable {objects : ℕ → Prop} {h h' : Heap} (hagrees : Agrees objects h h')
include hagrees

theorem own {ref : ℕ} (href : objects ref) (atom : Atom) : h'.own atom ref = h.own atom ref := by
  unfold Heap.own
  rw [hagrees.objects ref href]

theorem hasClass {v : JSValue} (hv : v.Within objects) (classes : List ℕ) :
    h'.hasClass classes v = h.hasClass classes v := by
  cases v with
  | object ref =>
      unfold Heap.hasClass
      dsimp only
      rw [hagrees.objects ref hv]
  | _ => rfl

theorem isArray {v : JSValue} (hv : v.Within objects) : h'.isArray v = h.isArray v :=
  hagrees.hasClass hv _

theorem isFunction {v : JSValue} (hv : v.Within objects) : h'.isFunction v = h.isFunction v :=
  hagrees.hasClass hv _

theorem isError {v : JSValue} (hv : v.Within objects) : h'.isError v = h.isError v :=
  hagrees.hasClass hv _

theorem ownPropertyNames {ref : ℕ} (href : objects ref) :
    h'.ownPropertyNames ref = h.ownPropertyNames ref := by
  unfold Heap.ownPropertyNames
  rw [hagrees.objects ref href]

end Agrees

/-- Where nothing old changes, a chain has the same accessors, namely none. -/
theorem Chain.valued_frame {p : Option ℕ} {l : List ℕ} {h h' : Heap} (hchain : h.Chain p l)
    (hframe : Frame (· < h.objects.length) h h') {atom : Atom} (hvalued : h.Valued l atom) :
    h'.Valued l atom := by
  intro r hr accessor e
  rw [hframe.agrees.own (hchain.mem_lt hr)]
  exact hvalued r hr accessor e

/-- Where nothing old changes, a lookup finds the same. -/
theorem Chain.getProperty_frame {ref : ℕ} {l : List ℕ} {h h' : Heap}
    (hchain : h.Chain (some ref) l) (hframe : Frame (· < h.objects.length) h h') {atom : Atom}
    (hvalued : h.Valued l atom) : h'.getProperty ref atom = h.getProperty ref atom := by
  have hchain' := hchain.frame hframe fun _ hr => hchain.mem_lt hr
  rw [getProperty_valued hchain hvalued,
    getProperty_valued hchain' (hchain.valued_frame hframe hvalued)]
  exact congrArg (fun p => Except.ok (propertyValue p))
    (findSome?_congr_of_mem fun r hr => hframe.agrees.own (hchain.mem_lt hr) atom)

namespace Agrees

variable {objects : ℕ → Prop} {h h' : Heap} (hagrees : Agrees objects h h')
  (hclosed : h.Closed objects)
include hagrees hclosed

theorem protoChain {ref : ℕ} (href : objects ref) : h'.protoChain ref = h.protoChain ref := by
  rcases hclosed.chain ref href with ⟨l, hchain, hl⟩
  have hchain' : h'.Chain (some ref) l :=
    hchain.congr fun r hr o ho => ⟨o, (hagrees.objects r (hl r hr)).trans ho, rfl⟩
  rw [hchain.protoChain_eq, hchain'.protoChain_eq]

theorem isInstanceOfDate {ref : ℕ} (href : objects ref) :
    h'.isInstanceOfDate ref = h.isInstanceOfDate ref := by
  unfold Heap.isInstanceOfDate
  rw [hagrees.protoChain hclosed href, hagrees.dateProto]

theorem findProperty {ref : ℕ} (href : objects ref) (atom : Atom) :
    h'.findProperty ref atom = h.findProperty ref atom := by
  rcases hclosed.chain ref href with ⟨l, hchain, hl⟩
  unfold Heap.findProperty
  rw [hagrees.protoChain hclosed href, hchain.protoChain_eq]
  exact findSome?_congr_of_mem fun r hr => hagrees.own (hl r hr) atom

theorem hasProperty {ref : ℕ} (href : objects ref) (atom : Atom) :
    h'.hasProperty ref atom = h.hasProperty ref atom := by
  unfold Heap.hasProperty
  rw [hagrees.findProperty hclosed href]

/-- A lookup finds the same. -/
theorem getProperty {ref : ℕ} (href : objects ref) (atom : Atom) :
    h'.getProperty ref atom = h.getProperty ref atom := by
  unfold Heap.getProperty Heap.getProto
  rw [hagrees.findProperty hclosed href, hagrees.objects ref href]

end Agrees

/-- The prototype of an object is the next one on its chain. -/
theorem Closed.getProto {objects : ℕ → Prop} {h : Heap} (hclosed : h.Closed objects) {ref : ℕ}
    (href : objects ref) : (h.getProto ref).Within objects := by
  rcases hclosed.chain ref href with ⟨l, hchain, hl⟩
  cases hchain with
  | @cons _ o above ho hrest =>
      unfold Heap.getProto
      rw [ho]
      rcases o with ⟨classID, proto, extensible, properties, u⟩
      cases proto with
      | none => trivial
      | some p =>
          dsimp only at hrest
          cases hrest with
          | cons _ _ => exact hl p (List.mem_cons_of_mem _ List.mem_cons_self)

/-- What a lookup finds is in the set as well. -/
theorem Closed.getProperty {objects : ℕ → Prop} {h : Heap} (hclosed : h.Closed objects) {ref : ℕ}
    (href : objects ref) {atom : Atom} {v : JSValue} (hget : h.getProperty ref atom = .ok v) :
    v.Within objects := by
  rcases hclosed.chain ref href with ⟨l, hchain, hl⟩
  unfold Heap.getProperty at hget
  rw [hchain.findProperty_eq] at hget
  cases hp : l.findSome? (h.own atom) with
  | none =>
      rw [hp] at hget
      exact Except.ok.inj hget ▸ trivial
  | some p =>
      rw [hp] at hget
      rcases List.exists_of_findSome?_eq_some hp with ⟨r, hr, hown⟩
      cases p with
      | value v' e w =>
          rw [← Except.ok.inj hget]
          exact hclosed.property r (hl r hr) atom v' e w hown
      | getSet accessor e =>
          cases accessor with
          | script => exact absurd hget (by simp)
          | proto =>
              rw [← Except.ok.inj hget]
              exact hclosed.getProto href

namespace Agrees

variable {objects : ℕ → Prop} {h h' : Heap} (hagrees : Agrees objects h h')
  (hclosed : h.Closed objects) {ext : Externals}
include hagrees hclosed

theorem dateFromJSValue (c : Coercions) {v : JSValue} (hv : v.Within objects) :
    Substrata.dateFromJSValue c h' v = Substrata.dateFromJSValue c h v := by
  unfold Substrata.dateFromJSValue
  cases v with
  | object ref =>
      dsimp only
      rw [hagrees.isInstanceOfDate hclosed hv]
  | _ => rfl

theorem getFunctionName {v : JSValue} (hv : v.Within objects) :
    Substrata.getFunctionName h' v = Substrata.getFunctionName h v := by
  unfold Substrata.getFunctionName
  cases v with
  | object ref =>
      dsimp only
      rw [hagrees.isFunction hv, hagrees.getProperty hclosed hv]
  | _ => rfl

theorem getClassName {v : JSValue} (hv : v.Within objects) :
    Substrata.getClassName h' v = Substrata.getClassName h v := by
  unfold Substrata.getClassName
  cases v with
  | object ref =>
      dsimp only
      rw [hagrees.hasProperty hclosed hv, hagrees.getProperty hclosed hv]
      cases hget : h.getProperty ref (jsNewAtom "constructor") with
      | error stop => rfl
      | ok constructor =>
          dsimp only
          rw [hagrees.getFunctionName hclosed (hclosed.getProperty hv hget)]
  | _ => rfl

theorem functionFromJSValue {v : JSValue} (hv : v.Within objects) :
    Substrata.functionFromJSValue h' v = Substrata.functionFromJSValue h v := by
  unfold Substrata.functionFromJSValue
  cases v with
  | object ref =>
      dsimp only
      rw [hagrees.isFunction hv, hagrees.getFunctionName hclosed hv, hagrees.context]
  | _ => rfl

theorem classFromJSValue {v : JSValue} (hv : v.Within objects) :
    Substrata.classFromJSValue h' v = Substrata.classFromJSValue h v := by
  unfold Substrata.classFromJSValue
  cases v with
  | object ref =>
      dsimp only
      rw [hagrees.getClassName hclosed hv, hagrees.context]
  | _ => rfl

variable {decode decode' : JSValue → Outcome (Option JSConvertible)}
  (hdecode : ∀ v : JSValue, v.Within objects → decode' v = decode v)
include hdecode

theorem elementFromJSValue {ref : ℕ} (href : objects ref) (i : ℕ) :
    Substrata.elementFromJSValue decode' h' ref i = Substrata.elementFromJSValue decode h ref i := by
  unfold Substrata.elementFromJSValue
  rw [hagrees.getProperty hclosed href]
  cases hget : h.getProperty ref (Atom.ofIndex i) with
  | error stop => rfl
  | ok v => simp only [hdecode v (hclosed.getProperty href hget)]

theorem arrayFromJSValue {v : JSValue} (hv : v.Within objects) :
    Substrata.arrayFromJSValue decode' h' v = Substrata.arrayFromJSValue decode h v := by
  unfold Substrata.arrayFromJSValue
  cases v with
  | object ref =>
      dsimp only
      rw [hagrees.isArray hv, hagrees.getProperty hclosed hv,
        funext (hagrees.elementFromJSValue hclosed hdecode hv)]
      cases hget : h.getProperty ref atomLength with
      | error stop => rfl
      | ok sizeV => simp only [hdecode sizeV (hclosed.getProperty hv hget)]
  | _ => rfl

theorem errorStringFromJSValue {ref : ℕ} (href : objects ref) (name : String) :
    Substrata.errorStringFromJSValue ext decode' h' ref name =
      Substrata.errorStringFromJSValue ext decode h ref name := by
  unfold Substrata.errorStringFromJSValue
  rw [hagrees.getProperty hclosed href]
  cases hget : h.getProperty ref (jsNewAtom name) with
  | error stop => rfl
  | ok v => simp only [hdecode v (hclosed.getProperty href hget)]

theorem errorFromJSValue {v : JSValue} (hv : v.Within objects) :
    Substrata.errorFromJSValue ext decode' h' v = Substrata.errorFromJSValue ext decode h v := by
  unfold Substrata.errorFromJSValue
  cases v with
  | object ref =>
      dsimp only
      rw [hagrees.isError hv]
      simp only [hagrees.errorStringFromJSValue hclosed hdecode hv]
  | _ => rfl

theorem entryFromJSValue {ref : ℕ} (href : objects ref) (result : List (String × JSConvertible))
    (atom : Atom) :
    Substrata.entryFromJSValue ext decode' h' ref result atom =
      Substrata.entryFromJSValue ext decode h ref result atom := by
  unfold Substrata.entryFromJSValue
  cases atom.toJSString.toSwift with
  | none => rfl
  | some key =>
      dsimp only
      rw [hagrees.getProperty hclosed href]
      cases hget : h.getProperty ref (jsNewAtom key) with
      | error stop => rfl
      | ok v => simp only [hdecode v (hclosed.getProperty href hget)]

theorem dictionaryFromJSValue {v : JSValue} (hv : v.Within objects) :
    Substrata.dictionaryFromJSValue ext decode' h' v =
      Substrata.dictionaryFromJSValue ext decode h v := by
  unfold Substrata.dictionaryFromJSValue
  cases v with
  | object ref =>
      have hentry : Substrata.entryFromJSValue ext decode' h' ref =
          Substrata.entryFromJSValue ext decode h ref :=
        funext fun result => funext fun atom =>
          hagrees.entryFromJSValue hclosed hdecode hv result atom
      dsimp only
      rw [hagrees.ownPropertyNames hv, hentry]
  | _ => rfl

theorem objectFromJSValue {v : JSValue} (hv : v.Within objects) :
    Substrata.objectFromJSValue ext decode' h' v = Substrata.objectFromJSValue ext decode h v := by
  unfold Substrata.objectFromJSValue
  rw [hagrees.dateFromJSValue hclosed _ hv, hagrees.arrayFromJSValue hclosed hdecode hv,
    hagrees.functionFromJSValue hclosed hv, hagrees.errorFromJSValue hclosed hdecode hv,
    hagrees.classFromJSValue hclosed hv, hagrees.dictionaryFromJSValue hclosed hdecode hv]

omit hdecode in
/-- A value decodes to the same. -/
theorem toJSConvertible (fuel : ℕ) {v : JSValue} (hv : v.Within objects) :
    Substrata.toJSConvertible ext h' fuel v = Substrata.toJSConvertible ext h fuel v := by
  induction fuel generalizing v with
  | zero => rfl
  | succ fuel ih =>
      by_cases hundefined : ∃ word, v = .undefinedTag word
      · rcases hundefined with ⟨word, rfl⟩
        rfl
      · push Not at hundefined
        by_cases hexception : v = .exception
        · rw [hexception]
          rfl
        · rw [toJSConvertible_succ ext h' fuel hundefined hexception,
            toJSConvertible_succ ext h fuel hundefined hexception,
            hagrees.objectFromJSValue hclosed (fun v hv => ih hv) hv]

end Agrees

end Heap

/-! ## Larger bounds -/

section Bounds

variable {ext : Externals} {h : Heap}

/-- Two attempts in a row, each of them succeeding more often. -/
theorem orNext_mono {α : Type} {x x' y y' : Outcome (Option α)}
    (hx : ∀ r, x = .ok r → x' = .ok r) (hy : ∀ r, y = .ok r → y' = .ok r) {r : Option α}
    (hor : orNext x y = .ok r) : orNext x' y' = .ok r := by
  rcases x with stop | _ | a
  · exact absurd hor (by simp)
  · rw [hx none rfl, orNext_none]
    exact hy r hor
  · rw [hx (some a) rfl, orNext_some]
    exact hor

variable {decode decode' : JSValue → Outcome (Option JSConvertible)}
  (hdecode : ∀ v r, decode v = .ok r → decode' v = .ok r)
include hdecode

theorem elementFromJSValue_mono {ref i : ℕ} {x : JSConvertible}
    (helement : elementFromJSValue decode h ref i = .ok x) :
    elementFromJSValue decode' h ref i = .ok x := by
  unfold elementFromJSValue at helement ⊢
  by_cases hi : i < 2 ^ 32
  · rw [if_pos hi] at helement ⊢
    cases hget : h.getProperty ref (Atom.ofIndex i) with
    | error stop =>
        rw [hget] at helement
        exact absurd helement (by simp)
    | ok v =>
        rw [hget] at helement
        cases hv : decode v with
        | error stop => simp only [hv, reduceCtorEq] at helement
        | ok r =>
            simp only [hv] at helement
            simp only [hdecode v r hv]
            exact helement
  · rw [if_neg hi] at helement
    exact absurd helement (by simp)

theorem arrayFromJSValue_mono {v : JSValue} {r : Option JSConvertible}
    (harray : arrayFromJSValue decode h v = .ok r) : arrayFromJSValue decode' h v = .ok r := by
  cases v with
  | object ref =>
      unfold arrayFromJSValue at harray ⊢
      by_cases hisArray : h.isArray (.object ref) = true
      · simp only [hisArray, if_true] at harray ⊢
        cases hget : h.getProperty ref Heap.atomLength with
        | error stop => simp only [hget, reduceCtorEq] at harray
        | ok sizeV =>
            simp only [hget] at harray ⊢
            cases hsize : decode sizeV with
            | error stop => simp only [hsize, reduceCtorEq] at harray
            | ok size =>
                rw [hdecode sizeV size hsize]
                rw [hsize] at harray
                rcases size with _ | x
                · exact harray
                · cases x with
                  | int n =>
                      by_cases hpos : 0 ≤ n.toInt
                      · simp only [if_pos hpos] at harray ⊢
                        cases hall : (List.range n.toInt.toNat).mapM
                            (elementFromJSValue decode h ref) with
                        | error stop => simp only [hall, reduceCtorEq] at harray
                        | ok elements =>
                            simp only [hall] at harray
                            simp only [Fallible.mapM_mono
                              (fun i x => elementFromJSValue_mono hdecode) hall]
                            exact harray
                      · simp only [if_neg hpos, reduceCtorEq] at harray
                  | _ => exact harray
      · simp only [hisArray, Bool.false_eq_true, if_false] at harray ⊢
        exact harray
  | _ => exact harray

theorem errorStringFromJSValue_mono {ref : ℕ} {name : String} {s : Option String}
    (hstring : errorStringFromJSValue ext decode h ref name = .ok s) :
    errorStringFromJSValue ext decode' h ref name = .ok s := by
  unfold errorStringFromJSValue at hstring ⊢
  cases hget : h.getProperty ref (jsNewAtom name) with
  | error stop =>
      rw [hget] at hstring
      exact absurd hstring (by simp)
  | ok v =>
      rw [hget] at hstring
      cases hv : decode v with
      | error stop => simp only [hv, reduceCtorEq] at hstring
      | ok r =>
          simp only [hv] at hstring
          simp only [hdecode v r hv]
          exact hstring

theorem errorFromJSValue_mono {v : JSValue} {r : Option JSConvertible}
    (herror : errorFromJSValue ext decode h v = .ok r) :
    errorFromJSValue ext decode' h v = .ok r := by
  cases v with
  | object ref =>
      unfold errorFromJSValue at herror ⊢
      by_cases hisError : h.isError (.object ref) = true
      · simp only [hisError, if_true] at herror ⊢
        rcases Fallible.bind_eq_ok_iff.mp herror with ⟨name, hname, herror⟩
        rcases Fallible.bind_eq_ok_iff.mp herror with ⟨message, hmessage, herror⟩
        rcases Fallible.bind_eq_ok_iff.mp herror with ⟨cause, hcause, herror⟩
        rcases Fallible.bind_eq_ok_iff.mp herror with ⟨stack, hstack, herror⟩
        refine Fallible.bind_eq_ok_iff.mpr ⟨name, errorStringFromJSValue_mono hdecode hname, ?_⟩
        refine Fallible.bind_eq_ok_iff.mpr
          ⟨message, errorStringFromJSValue_mono hdecode hmessage, ?_⟩
        refine Fallible.bind_eq_ok_iff.mpr ⟨cause, errorStringFromJSValue_mono hdecode hcause, ?_⟩
        exact Fallible.bind_eq_ok_iff.mpr
          ⟨stack, errorStringFromJSValue_mono hdecode hstack, herror⟩
      · simp only [hisError, Bool.false_eq_true, if_false] at herror ⊢
        exact herror
  | _ => exact herror

theorem entryFromJSValue_mono {ref : ℕ} {result result' : List (String × JSConvertible)}
    {atom : Atom} (hentry : entryFromJSValue ext decode h ref result atom = .ok result') :
    entryFromJSValue ext decode' h ref result atom = .ok result' := by
  unfold entryFromJSValue at hentry ⊢
  cases hkey : atom.toJSString.toSwift with
  | none =>
      rw [hkey] at hentry
      exact hentry
  | some key =>
      simp only [hkey] at hentry ⊢
      cases hget : h.getProperty ref (jsNewAtom key) with
      | error stop => simp only [hget, reduceCtorEq] at hentry
      | ok v =>
          simp only [hget] at hentry ⊢
          cases hv : decode v with
          | error stop => simp only [hv, reduceCtorEq] at hentry
          | ok r =>
              simp only [hv] at hentry
              simp only [hdecode v r hv]
              exact hentry

theorem dictionaryFromJSValue_mono {v : JSValue} {r : Option JSConvertible}
    (hdictionary : dictionaryFromJSValue ext decode h v = .ok r) :
    dictionaryFromJSValue ext decode' h v = .ok r := by
  cases v with
  | object ref =>
      unfold dictionaryFromJSValue at hdictionary ⊢
      cases hfold : (h.ownPropertyNames ref).foldlM (entryFromJSValue ext decode h ref) [] with
      | error stop => simp only [hfold, reduceCtorEq] at hdictionary
      | ok result =>
          simp only [hfold] at hdictionary
          simp only [Fallible.foldlM_mono
            (fun acc atom acc' => entryFromJSValue_mono hdecode) hfold]
          exact hdictionary
  | _ => exact hdictionary

omit hdecode in
/-- A value that decodes does so with a larger bound as well. -/
theorem toJSConvertible_mono {fuel : ℕ} {v : JSValue} {r : Option JSConvertible}
    (hvalue : toJSConvertible ext h fuel v = .ok r) {fuel' : ℕ} (hle : fuel ≤ fuel') :
    toJSConvertible ext h fuel' v = .ok r := by
  induction fuel generalizing v r fuel' with
  | zero => exact absurd hvalue nofun
  | succ fuel ih =>
      cases fuel' with
      | zero => exact absurd hle (Nat.not_succ_le_zero _)
      | succ fuel' =>
          have hdecode : ∀ v r, toJSConvertible ext h fuel v = .ok r →
              toJSConvertible ext h fuel' v = .ok r :=
            fun v r hv => ih hv (Nat.le_of_succ_le_succ hle)
          have hobject (v : JSValue) (r : Option JSConvertible)
              (hv : objectFromJSValue ext (toJSConvertible ext h fuel) h v = .ok r) :
              objectFromJSValue ext (toJSConvertible ext h fuel') h v = .ok r := by
            refine orNext_mono (fun _ hr => hr) (fun r hv => ?_) hv
            refine orNext_mono (fun _ => arrayFromJSValue_mono hdecode) (fun r hv => ?_) hv
            refine orNext_mono (fun _ hr => hr) (fun r hv => ?_) hv
            refine orNext_mono (fun _ => errorFromJSValue_mono hdecode) (fun r hv => ?_) hv
            exact orNext_mono (fun _ hr => hr) (fun _ => dictionaryFromJSValue_mono hdecode) hv
          cases v with
          | undefinedTag word => exact hvalue
          | exception => exact hvalue
          | _ => exact orNext_mono (fun _ hr => hr) (hobject _) hvalue

end Bounds

end Substrata
