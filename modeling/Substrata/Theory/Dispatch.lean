import Mathlib.Tactic.IntervalCases
import Substrata.Theory.Congruence
import Substrata.Theory.Tables
import Substrata.Theory.Methods

/-!
# Which function a method call reaches

`JSClass.call`, which looks methods up in a table that is made once.

The table is an object with the properties of the instance under the names of its
methods. To be kept it has to be decoded as a dictionary of functions. So one
property that hides a method, with a value that is no function, takes all the
methods away. Neither is anything kept when a plain object has got another class
name, for then the table counts as an instance itself.

Once kept, the table is not made again. Scripts may replace a method afterwards,
and the wrapper goes on calling the one it has. `Wrapped` has the states that a
wrapper can be in, each with the heap in which its table was made, and it is that
heap that decides what is called.

## Main definitions

* `Heap.Surveyed`: An object of which the table can be made and read.
* `Heap.tableValue`, `Heap.tableEntry`: What the table has, without the table.
* `Heap.Tabulated`: The table is kept.
* `Heap.Tables`: What the table has for a method.
* `Wrapped`: A wrapper over time.
* `CallsMethod`: A call reaches what the property of the object is.
* `Heap.shape`: An instance with a string under the name of a method.

## Theorems

* `Gathered.getProperty`, `classValue_table`: The table has these values.
* `populate_of_tabulated`, `tabulated_of_populate`: When it is kept, and what it has then.
* `Wrapped.origin`: Where the table of a wrapper comes from.
* `callsMethod_iff`: When a call reaches the method.
* `exists_not_callsMethod`: A method that is not called because of another one.
-/

namespace Substrata

namespace Heap

/-- An object of which the table of methods can be made and read: nothing refers to an object that
    is not there, and a plain object is no `Date`. -/
structure Surveyed (h : Heap) (obj : ℕ) (above base : List ℕ) : Prop
    extends h.Inspected obj above base where
  closed : h.Closed (· < h.objects.length)
  date : h.dateProto ∉ base

/-- What the table has under a name: the value that the object has, or what a new plain object
    inherits. -/
def tableValue (h : Heap) (obj : ℕ) (names : List Atom) (atom : Atom) : Outcome JSValue :=
  if atom ∈ names then h.getProperty obj atom else h.newObject.1.getProperty h.newObject.2 atom

/-- What the table has under a key of Swift. -/
def tableEntry (ext : Externals) (h : Heap) (fuel obj : ℕ) (names : List Atom) (key : String) :
    Outcome (Option JSConvertible) :=
  match h.tableValue obj names (jsNewAtom key) with
  | .error stop => .error stop
  | .ok v => toJSConvertible ext h fuel v

/-- The wrapper keeps the table of an object: it is decoded as a dictionary, and so are its values,
    and the last of equivalent keys has a function or nothing. -/
structure Tabulated (ext : Externals) (h : Heap) (obj : ℕ) (names : List Atom) : Prop where
  plain : getClassName h.newObject.1 (.object h.newObject.2) = .ok "Object"
  functions : ∀ key ∈ keysOf names, ∃ fuel value, h.tableEntry ext fuel obj names key = .ok value ∧
    (lastKey ext.canonical (keysOf names) key = some key → ∀ x, value = some x →
      ∃ func, asFunction x = some func)

/-- The table of an object has a function for a method, under the last of equivalent keys. -/
def Tables (ext : Externals) (h : Heap) (obj : ℕ) (names : List Atom) (method : String)
    (func : ℕ) : Prop :=
  ∃ key, lastKey ext.canonical (keysOf names) method = some key ∧
    h.tableValue obj names (jsNewAtom key) = .ok (.object func)

end Heap

variable {h h' : Heap} {obj : ℕ} {above base : List ℕ} {names : List Atom}

/-! ## The table as an object -/

theorem lookup_of_mem {properties : List (Atom × Property)}
    (hnodup : (properties.map Prod.fst).Nodup) {q : Atom × Property} (hq : q ∈ properties) :
    properties.lookup q.1 = some q.2 := by
  rcases List.append_of_mem hq with ⟨before, after, rfl⟩
  rw [List.map_append, List.map_cons, List.nodup_append] at hnodup
  refine List.lookup_eq_some_iff.mpr ⟨before, after, rfl, fun p hp => ?_⟩
  have hne := hnodup.2.2 p.1 (List.mem_map_of_mem hp) q.1 List.mem_cons_self
  simpa using hne.symm

/-- A new plain object is a table without names. -/
theorem gathered_newObject (h : Heap) (obj : ℕ) : Gathered h obj [] h.newObject.1 :=
  ⟨Heap.frame_allocate _ _, _, Heap.getElem?_allocate _ _,
    rfl, rfl, rfl, rfl, rfl, List.nodup_nil, fun _ hdone => absurd hdone List.not_mem_nil⟩

namespace Gathered

variable (hgathered : Gathered h obj names h')
include hgathered

theorem getProto : h'.getProto h.objects.length = .object h.objectProto := by
  rcases hgathered.table with ⟨o, ho, htable⟩
  unfold Heap.getProto
  rw [ho]
  rcases o with ⟨classID, proto, extensible, properties, u⟩
  have hproto := htable.proto
  dsimp only at hproto
  rw [hproto]

theorem own (atom : Atom) : ∃ o, h'.objects[h.objects.length]? = some o ∧
    Table h obj names o ∧ h'.own atom h.objects.length = o.properties.lookup atom := by
  rcases hgathered.table with ⟨o, ho, htable⟩
  exact ⟨o, ho, htable, by rw [Heap.own_eq ho, Heap.own_of_pointer htable.union]⟩

/-- The table lists its names in order. -/
theorem ownPropertyNames : h'.ownPropertyNames h.objects.length = names := by
  rcases hgathered.table with ⟨o, ho, htable⟩
  unfold Heap.ownPropertyNames
  rw [ho]
  dsimp only
  rw [htable.union, List.nil_append, List.filter_eq_self.mpr, htable.names]
  intro q hq
  have hname : q.1 ∈ names := htable.names ▸ List.mem_map_of_mem hq
  rcases htable.has q.1 hname with ⟨v, -, hlookup⟩
  rw [lookup_of_mem (htable.names ▸ htable.nodup) hq, Option.some.injEq] at hlookup
  rw [hlookup]
  rfl

variable (hbase : h.Chain (some h.objectProto) base)
include hbase

theorem chain : h'.Chain (some h.objects.length) (h.objects.length :: base) := by
  rcases hgathered.table with ⟨o, ho, htable⟩
  exact Heap.Chain.cons ho
    (htable.proto ▸ hbase.frame hgathered.frame fun _ hr => hbase.mem_lt hr)

/-- A name that the table does not have is looked up on `Object.prototype`. -/
theorem findProperty_inherited {atom : Atom} (hatom : atom ∉ names) :
    h'.findProperty h.objects.length atom = base.findSome? (h.own atom) := by
  rcases hgathered.own atom with ⟨o, ho, htable, hown⟩
  rw [(hgathered.chain hbase).findProperty_eq, List.findSome?_cons, hown, htable.hasNot hatom]
  exact Heap.findSome?_congr_of_mem fun r hr => hgathered.frame.agrees.own (hbase.mem_lt hr) atom

theorem getProperty (atom : Atom) :
    h'.getProperty h.objects.length atom = h.tableValue obj names atom := by
  unfold Heap.tableValue
  by_cases hatom : atom ∈ names
  · rw [if_pos hatom]
    rcases hgathered.own atom with ⟨o, ho, htable, hown⟩
    rcases htable.has atom hatom with ⟨v, hget, hlookup⟩
    rw [hget]
    exact getProperty_of_ownValue (hown.trans hlookup)
  · rw [if_neg hatom]
    have hnew := gathered_newObject h obj
    have hproto : h.newObject.1.getProto h.newObject.2 = h'.getProto h.objects.length :=
      hnew.getProto.trans hgathered.getProto.symm
    have hfind : h.newObject.1.findProperty h.newObject.2 atom =
        h'.findProperty h.objects.length atom :=
      (hnew.findProperty_inherited hbase List.not_mem_nil).trans
        (hgathered.findProperty_inherited hbase hatom).symm
    unfold Heap.getProperty
    rw [hproto, hfind]

omit hgathered in
/-- What a plain object inherits is there. -/
theorem inherited_within (hclosed : h.Closed (· < h.objects.length)) {atom : Atom} {v : JSValue}
    (hget : h.newObject.1.getProperty h.newObject.2 atom = .ok v) :
    v.Within (· < h.objects.length) := by
  have hnew := gathered_newObject h 0
  have hfind : h.newObject.1.findProperty h.newObject.2 atom = base.findSome? (h.own atom) :=
    hnew.findProperty_inherited hbase List.not_mem_nil
  have hproto : h.newObject.1.getProto h.newObject.2 = .object h.objectProto := hnew.getProto
  unfold Heap.getProperty at hget
  rw [hfind, hproto] at hget
  cases hp : base.findSome? (h.own atom) with
  | none =>
      rw [hp] at hget
      exact Except.ok.inj hget ▸ trivial
  | some p =>
      rw [hp] at hget
      rcases List.exists_of_findSome?_eq_some hp with ⟨r, hr, hown⟩
      cases p with
      | value v' e w =>
          rw [← Except.ok.inj hget]
          exact hclosed.property r (hbase.mem_lt hr) atom v' e w hown
      | getSet accessor e =>
          cases accessor with
          | script => exact absurd hget nofun
          | proto =>
              rw [← Except.ok.inj hget]
              cases hbase with
              | cons ho _ => exact Heap.lt_of_getElem? ho

/-- What the table inherits has the class name of a plain object. -/
theorem getClassName (hclosed : h.Closed (· < h.objects.length)) (hatom : atomConstructor ∉ names) :
    Substrata.getClassName h' (.object h.objects.length) =
      Substrata.getClassName h.newObject.1 (.object h.newObject.2) := by
  have hnew := gathered_newObject h obj
  have hhas : h'.hasProperty h.objects.length atomConstructor =
      h.newObject.1.hasProperty h.newObject.2 atomConstructor :=
    congrArg Option.isSome ((hgathered.findProperty_inherited hbase hatom).trans
      (hnew.findProperty_inherited hbase List.not_mem_nil).symm)
  have hget := (hgathered.getProperty hbase atomConstructor).trans (if_neg hatom)
  unfold Substrata.getClassName
  unfold atomConstructor at hhas hget
  dsimp only
  rw [hhas, hget]
  cases hc : h.newObject.1.getProperty h.newObject.2 (jsNewAtom "constructor") with
  | error stop => rfl
  | ok c =>
      have hwithin := inherited_within hbase hclosed hc
      dsimp only
      rw [hgathered.frame.agrees.getFunctionName hclosed hwithin,
        hnew.frame.agrees.getFunctionName hclosed hwithin]

/-- The table is no date, no array, no function and no error. -/
theorem toJSConvertible_eq (hdate : h.dateProto ∉ base) (ext : Externals) (fuel : ℕ) :
    toJSConvertible ext h' (fuel + 1) (.object h.objects.length) =
      orNext (classFromJSValue h' (.object h.objects.length))
        (dictionaryFromJSValue ext (toJSConvertible ext h' fuel) h'
          (.object h.objects.length)) := by
  rcases hgathered.table with ⟨o, ho, htable⟩
  have hclass (classes : List ℕ) (hnot : jsClassObject ∉ classes) :
      h'.hasClass classes (.object h.objects.length) = false := by
    rw [Heap.hasClass_object ho, htable.classID]
    exact decide_eq_false hnot
  have harray : h'.isArray (.object h.objects.length) = false := hclass _ (by decide)
  have hfunction : h'.isFunction (.object h.objects.length) = false := hclass _ (by decide)
  have herror : h'.isError (.object h.objects.length) = false := hclass _ (by decide)
  have hinstance : h'.isInstanceOfDate h.objects.length = false := by
    unfold Heap.isInstanceOfDate
    rw [(hgathered.chain hbase).protoChain_eq, hgathered.frame.dateProto]
    exact decide_eq_false hdate
  rw [toJSConvertible_object]
  simp only [objectFromJSValue, dateFromJSValue, arrayFromJSValue, functionFromJSValue,
    errorFromJSValue, harray, hfunction, herror, hinstance, Bool.false_eq_true, if_false,
    orNext_none]

end Gathered

/-- What the table has is there, and decodes as it does without the table. -/
theorem classValue_table (hsurveyed : h.Surveyed obj above base)
    (hgathered : Gathered h obj names h') (ext : Externals) (fuel : ℕ) (key : String) :
    h'.classValue ext fuel h.objects.length key = h.tableEntry ext fuel obj names key := by
  unfold Heap.classValue Heap.tableEntry
  rw [hgathered.getProperty hsurveyed.baseChain]
  cases hvalue : h.tableValue obj names (jsNewAtom key) with
  | error stop => rfl
  | ok v =>
      have hwithin : v.Within (· < h.objects.length) := by
        unfold Heap.tableValue at hvalue
        by_cases hatom : jsNewAtom key ∈ names
        · rw [if_pos hatom] at hvalue
          exact hsurveyed.closed.getProperty (hsurveyed.chain.mem_lt List.mem_cons_self) hvalue
        · rw [if_neg hatom] at hvalue
          exact Gathered.inherited_within hsurveyed.baseChain hsurveyed.closed hvalue
      exact hgathered.frame.agrees.toJSConvertible hsurveyed.closed fuel hwithin

/-! ## The table that is kept -/

theorem tableEntry_mono {ext : Externals} {fuel fuel' : ℕ} {key : String}
    {value : Option JSConvertible} (hentry : h.tableEntry ext fuel obj names key = .ok value)
    (hle : fuel ≤ fuel') : h.tableEntry ext fuel' obj names key = .ok value := by
  unfold Heap.tableEntry at hentry ⊢
  cases hvalue : h.tableValue obj names (jsNewAtom key) with
  | error stop =>
      rw [hvalue] at hentry
      exact absurd hentry nofun
  | ok v =>
      rw [hvalue] at hentry
      exact toJSConvertible_mono hentry hle

/-- The loop ends in the same way with a larger bound. -/
theorem collectMethods_mono {output fuel fuel' : ℕ} {stop p : Option ℕ} {h₁ h₂ : Heap}
    (hloop : Heap.collectMethods obj output stop fuel p h₁ = .ok h₂) (hle : fuel ≤ fuel') :
    Heap.collectMethods obj output stop fuel' p h₁ = .ok h₂ := by
  induction fuel generalizing fuel' p h₁ with
  | zero => cases hloop
  | succ fuel ih =>
      cases fuel' with
      | zero => exact absurd hle (Nat.not_succ_le_zero _)
      | succ fuel' =>
          cases p with
          | none => exact hloop
          | some proto =>
              unfold Heap.collectMethods at hloop ⊢
              by_cases hstop : stop ≠ some proto
              · rw [if_pos hstop] at hloop ⊢
                cases hnames : (h₁.getOwnPropertyNames proto).foldlM
                    (Heap.collectName obj output proto) h₁ with
                | error reason =>
                    rw [hnames] at hloop
                    cases hloop
                | ok h₃ =>
                    rw [hnames] at hloop
                    exact ih hloop (Nat.le_of_succ_le_succ hle)
              · rw [if_neg hstop] at hloop ⊢
                exact hloop

theorem getInstanceMethodNames_mono {fuel fuel' : ℕ} {stop : Option ℕ} {r : Heap × ℕ}
    (hrun : h.getInstanceMethodNames fuel obj stop = .ok r) (hle : fuel ≤ fuel') :
    h.getInstanceMethodNames fuel' obj stop = .ok r := by
  unfold Heap.getInstanceMethodNames at hrun ⊢
  cases hloop : Heap.collectMethods obj h.newObject.2 stop fuel (h.newObject.1.getPrototypeOf obj)
      h.newObject.1 with
  | error reason =>
      rw [hloop] at hrun
      exact absurd hrun nofun
  | ok h₁ =>
      rw [hloop] at hrun
      rw [collectMethods_mono hloop hle]
      exact hrun

theorem constructor_notMem : atomConstructor ∉ h.methodNames above base := by
  intro hmem
  exact absurd (mem_methodNames.mp hmem).1.1 (by decide +kernel)

section Populate

variable {ext : Externals} (hsurveyed : h.Surveyed obj above base)
  (hgathered : Gathered h obj (h.methodNames above base) h')
include hsurveyed hgathered

/-- Where the keys have values, and a plain object has its class name, the table is decoded as a
    dictionary of them. -/
theorem decode_table (hplain : getClassName h.newObject.1 (.object h.newObject.2) = .ok "Object")
    {fuel : ℕ} {value : String → Option JSConvertible}
    (hvalue : ∀ key ∈ keysOf (h.methodNames above base),
      h.tableEntry ext fuel obj (h.methodNames above base) key = .ok (value key)) :
    toJSConvertible ext h' (fuel + 1) (.object h.objects.length) =
      .ok (some (.dictionary (fillEntries ext.canonical value
        (keysOf (h.methodNames above base))))) := by
  have hclass : classFromJSValue h' (.object h.objects.length) = .ok none := by
    unfold classFromJSValue
    dsimp only
    rw [hgathered.getClassName hsurveyed.baseChain hsurveyed.closed constructor_notMem, hplain]
    rfl
  rw [hgathered.toJSConvertible_eq hsurveyed.baseChain hsurveyed.date, hclass, orNext_none]
  unfold dictionaryFromJSValue
  dsimp only
  rw [hgathered.ownPropertyNames, foldlM_entries_of_forall _ fun key hkey =>
    (classValue_table hsurveyed hgathered ext fuel key).trans (hvalue key hkey)]
  rfl

/-- A table that is kept came from a dictionary of such values. -/
theorem exists_of_decode_table {fuel : ℕ} {x : Option JSConvertible} {table : List (String × ℕ)}
    (hdecode : toJSConvertible ext h' fuel (.object h.objects.length) = .ok x)
    (htable : asMethods x = some table) :
    getClassName h.newObject.1 (.object h.newObject.2) = .ok "Object" ∧
      ∃ (fuel' : ℕ) (value : String → Option JSConvertible),
        (∀ key ∈ keysOf (h.methodNames above base),
          h.tableEntry ext fuel' obj (h.methodNames above base) key = .ok (value key)) ∧
        x = some (.dictionary (fillEntries ext.canonical value
          (keysOf (h.methodNames above base)))) := by
  cases fuel with
  | zero => exact absurd hdecode nofun
  | succ fuel =>
      have hname := hgathered.getClassName hsurveyed.baseChain hsurveyed.closed constructor_notMem
      have heq := hgathered.toJSConvertible_eq hsurveyed.baseChain hsurveyed.date ext fuel
      rw [hdecode] at heq
      unfold classFromJSValue at heq
      dsimp only at heq
      rw [hname] at heq
      cases hclass : getClassName h.newObject.1 (.object h.newObject.2) with
      | error stop =>
          rw [hclass] at heq
          exact absurd heq nofun
      | ok className =>
          rw [hclass] at heq
          dsimp only at heq
          by_cases hplain : className = "Object"
          · rw [if_neg (not_not.mpr hplain), orNext_none] at heq
            refine ⟨congrArg Except.ok hplain, fuel, ?_⟩
            unfold dictionaryFromJSValue at heq
            dsimp only at heq
            rw [hgathered.ownPropertyNames] at heq
            cases hfold : (h.methodNames above base).foldlM (entryFromJSValue ext
                (toJSConvertible ext h' fuel) h' h.objects.length) [] with
            | error stop =>
                rw [hfold] at heq
                exact absurd heq nofun
            | ok result =>
                rw [hfold] at heq
                have hread := forall_of_foldlM_entries _ hfold
                choose! value hvalue using hread
                refine ⟨value, fun key hkey => ?_, ?_⟩
                · exact (classValue_table hsurveyed hgathered ext fuel key).symm.trans
                    (hvalue key hkey)
                · rw [foldlM_entries_of_forall _ hvalue, Except.ok.injEq] at hfold
                  rw [Except.ok.inj heq, ← hfold]
                  rfl
          · rw [if_pos hplain, orNext_some, Except.ok.injEq] at heq
            rw [heq] at htable
            exact absurd htable nofun

end Populate

/-- The keys of a table have one bound. -/
theorem exists_bound {ext : Externals} {keys : List String}
    (hkeys : ∀ key ∈ keys, ∃ fuel value, h.tableEntry ext fuel obj names key = .ok value) :
    ∃ bound, ∀ key ∈ keys, ∃ value, h.tableEntry ext bound obj names key = .ok value := by
  induction keys with
  | nil => exact ⟨0, fun key hkey => absurd hkey List.not_mem_nil⟩
  | cons key keys ih =>
      rcases hkeys key List.mem_cons_self with ⟨fuel, value, hvalue⟩
      rcases ih fun key' hkey' => hkeys key' (List.mem_cons_of_mem _ hkey') with ⟨bound, hbound⟩
      refine ⟨max fuel bound, List.forall_mem_cons.mpr ⟨?_, fun key' hkey' => ?_⟩⟩
      · exact ⟨value, tableEntry_mono hvalue (le_max_left _ _)⟩
      · rcases hbound key' hkey' with ⟨value', hvalue'⟩
        exact ⟨value', tableEntry_mono hvalue' (le_max_right _ _)⟩

theorem tableEntry_unique {ext : Externals} {fuel fuel' : ℕ} {key : String}
    {value value' : Option JSConvertible}
    (hentry : h.tableEntry ext fuel obj names key = .ok value)
    (hentry' : h.tableEntry ext fuel' obj names key = .ok value') : value = value' := by
  have hmax := tableEntry_mono hentry (le_max_left fuel fuel')
  rw [tableEntry_mono hentry' (le_max_right fuel fuel')] at hmax
  exact (Except.ok.inj hmax).symm

/-- The functions of a table are those of the object. -/
theorem lookupMethod_iff {ext : Externals} {fuel : ℕ} {value : String → Option JSConvertible}
    {table : List (String × ℕ)}
    (hvalue : ∀ key ∈ keysOf names, h.tableEntry ext fuel obj names key = .ok (value key))
    (htable : asMethods (some (.dictionary (fillEntries ext.canonical value (keysOf names)))) =
      some table) (method : String) (func : ℕ) :
    lookupMethod ext.canonical table method = some func ↔ h.Tables ext obj names method func := by
  rw [lookupMethod_of_asMethods htable, lookupKey_fillEntries, Option.bind_eq_some_iff]
  have hfunctions := (forall_fillEntries_iff ext.canonical value (keysOf names)).mp
    ((asMethods_isSome_iff _).mp ⟨table, htable⟩)
  constructor
  · rintro ⟨x, hx, hfunc⟩
    rcases Option.bind_eq_some_iff.mp hx with ⟨key, hlast, hkey⟩
    refine ⟨key, hlast, ?_⟩
    have hentry := hvalue key (lastKey_mem hlast).1
    unfold Heap.tableEntry at hentry
    cases hv : h.tableValue obj names (jsNewAtom key) with
    | error stop =>
        rw [hv] at hentry
        exact absurd hentry nofun
    | ok v =>
        rw [hv, hkey] at hentry
        rw [eq_object_of_asFunction hentry hfunc]
  · rintro ⟨key, hlast, hv⟩
    rcases lastKey_mem hlast with ⟨hmem, hsame⟩
    have hentry := hvalue key hmem
    unfold Heap.tableEntry at hentry
    rw [hv] at hentry
    dsimp only at hentry
    cases hx : value key with
    | none =>
        rw [hx] at hentry
        exact absurd hentry (toJSConvertible_object_ne_none fuel func)
    | some x =>
        rw [hx] at hentry
        rcases hfunctions key hmem (lastKey_congr hsame (keysOf names) ▸ hlast) x hx with
          ⟨func', hfunc⟩
        have heq := eq_object_of_asFunction hentry hfunc
        rw [JSValue.object.injEq] at heq
        exact ⟨x, Option.bind_eq_some_iff.mpr ⟨key, hlast, hx⟩, heq ▸ hfunc⟩

/-- Where the table can be kept, it is, with a large enough bound. -/
theorem populate_of_tabulated {ext : Externals} (hsurveyed : h.Surveyed obj above base)
    (htabulated : h.Tabulated ext obj (h.methodNames above base)) :
    ∃ bound table h', Heap.Frame (· < h.objects.length) h h' ∧ ∀ fuel, bound ≤ fuel →
      h.populateMethodsIfNecessary ext fuel obj none = .ok (some table, h') := by
  rcases getInstanceMethodNames_spec hsurveyed.toInspected with ⟨h', hrun, hgathered⟩
  have hread : ∀ key ∈ keysOf (h.methodNames above base), ∃ fuel value,
      h.tableEntry ext fuel obj (h.methodNames above base) key = .ok value := by
    intro key hkey
    rcases htabulated.functions key hkey with ⟨fuel, value, hvalue, -⟩
    exact ⟨fuel, value, hvalue⟩
  rcases exists_bound hread with ⟨bound, hbound⟩
  choose! value hvalue using hbound
  have hfunctions : ∀ e ∈ fillEntries ext.canonical value (keysOf (h.methodNames above base)),
      ∃ func, asFunction e.2 = some func := by
    refine (forall_fillEntries_iff ext.canonical value _).mpr fun key hkey hlast x hx => ?_
    rcases htabulated.functions key hkey with ⟨fuel, value', hvalue', hfunc⟩
    exact hfunc hlast x (tableEntry_unique hvalue' (hvalue key hkey) ▸ hx)
  rcases (asMethods_isSome_iff _).mpr hfunctions with ⟨table, htable⟩
  refine ⟨max (bound + 1) (above.length + 1), table, h', hgathered.frame, fun fuel hfuel => ?_⟩
  have hdecode := toJSConvertible_mono (decode_table hsurveyed hgathered htabulated.plain hvalue)
    ((le_max_left _ _).trans hfuel)
  unfold Heap.populateMethodsIfNecessary
  dsimp only
  rw [hrun fuel ((le_max_right _ _).trans hfuel)]
  dsimp only
  rw [hdecode, ← htable]

/-- A table that was kept has the functions that the object had. -/
theorem tabulated_of_populate {ext : Externals} (hsurveyed : h.Surveyed obj above base) {fuel : ℕ}
    {table : List (String × ℕ)}
    (hrun : h.populateMethodsIfNecessary ext fuel obj none = .ok (some table, h')) :
    h.Tabulated ext obj (h.methodNames above base) ∧ ∀ method func,
      lookupMethod ext.canonical table method = some func ↔
        h.Tables ext obj (h.methodNames above base) method func := by
  rcases getInstanceMethodNames_spec hsurveyed.toInspected with ⟨h₁, hspec, hgathered⟩
  unfold Heap.populateMethodsIfNecessary at hrun
  dsimp only at hrun
  cases hnames : h.getInstanceMethodNames fuel obj none with
  | error stop =>
      rw [hnames] at hrun
      exact absurd hrun nofun
  | ok r =>
      -- the script has come to the same table as with a larger bound
      have hsame := getInstanceMethodNames_mono hnames (le_max_left fuel (above.length + 1))
      rw [hspec _ (le_max_right fuel (above.length + 1)), Except.ok.injEq] at hsame
      rw [hnames, ← hsame] at hrun
      dsimp only at hrun
      cases hdecode : toJSConvertible ext h₁ fuel (.object h.objects.length) with
      | error stop =>
          rw [hdecode] at hrun
          exact absurd hrun nofun
      | ok x =>
          rw [hdecode, Except.ok.injEq, Prod.mk.injEq] at hrun
          rcases exists_of_decode_table hsurveyed hgathered hdecode hrun.1 with
            ⟨hplain, fuel', value, hvalue, rfl⟩
          refine ⟨⟨hplain, fun key hkey => ⟨fuel', value key, hvalue key hkey, ?_⟩⟩,
            lookupMethod_iff hvalue hrun.1⟩
          exact (forall_fillEntries_iff ext.canonical value _).mp
            ((asMethods_isSome_iff _).mp ⟨table, hrun.1⟩) key hkey

/-! ## Calls -/

/-- A wrapper of an object over time: the table that it keeps, and the heap in which that was made.
    Calls come at any time, and anything may happen to the heap between them. -/
inductive Wrapped (ext : Externals) (obj : ℕ) : Option (List (String × ℕ)) → Option Heap → Prop
  | fresh : Wrapped ext obj none none
  | call {methods methods' : Option (List (String × ℕ))} {origin : Option Heap} {h h' : Heap}
      {fuel : ℕ} {method : String} {args : Option (List JSConvertible)}
      {invocation : Option Invocation} (hwrapped : Wrapped ext obj methods origin)
      (hcall : h.classCall ext fuel obj methods method args = .ok (invocation, methods', h')) :
      Wrapped ext obj methods' (origin.orElse fun _ => methods'.map fun _ => h)

/-- A call is the call of the function that the property of the object is, with the object as
    `this` and with the arguments given. -/
def CallsMethod (ext : Externals) (h : Heap) (obj : ℕ) (methods : Option (List (String × ℕ)))
    (method : String) : Prop :=
  ∀ func, h.getProperty obj (Atom.ofString (Utf16.encode method.toList)) = .ok (.object func) →
    h.isFunction (.object func) = true →
      ∃ (bound : ℕ) (h' : Heap) (methods' : Option (List (String × ℕ))),
        Heap.Frame (· < h.objects.length) h h' ∧ ∀ fuel, bound ≤ fuel → ∀ args,
          h.classCall ext fuel obj methods method args =
            (h'.functionCall func (.object obj) args).map fun r => (some r.1, methods', r.2)

/-- What is called is the function that was given, with the `this` that was given. -/
theorem functionCall_spec {func : ℕ} {this : JSValue} {args : Option (List JSConvertible)}
    {r : Invocation × Heap} (hcall : h.functionCall func this args = .ok r) :
    r.1.func = func ∧ r.1.this = this := by
  unfold Heap.functionCall at hcall
  cases args with
  | none =>
      rw [← Except.ok.inj hcall]
      exact ⟨rfl, rfl⟩
  | some args =>
      dsimp only at hcall
      cases hargs : encodeArgs args h with
      | error stop =>
          rw [hargs] at hcall
          exact absurd hcall nofun
      | ok encoded =>
          rw [hargs] at hcall
          dsimp only at hcall
          by_cases hcount : args.length < 2 ^ 31
          · rw [if_pos hcount] at hcall
            rw [← Except.ok.inj hcall]
            exact ⟨rfl, rfl⟩
          · rw [if_neg hcount] at hcall
            exact absurd hcall nofun

/-- With the method in its table, the wrapper calls what the table has. -/
theorem classCall_of_lookup {ext : Externals} {fuel : ℕ} {methods : Option (List (String × ℕ))}
    {table : List (String × ℕ)} {method : String} {func : ℕ}
    (hpopulate : h.populateMethodsIfNecessary ext fuel obj methods = .ok (some table, h'))
    (hlookup : lookupMethod ext.canonical table method = some func)
    (args : Option (List JSConvertible)) :
    h.classCall ext fuel obj methods method args =
      (h'.functionCall func (.object obj) args).map fun r => (some r.1, some table, r.2) := by
  unfold Heap.classCall
  rw [hpopulate]
  dsimp only
  rw [hlookup]
  dsimp only
  cases h'.functionCall func (.object obj) args with
  | error stop => rfl
  | ok r => rfl

/-- Whatever a call does, it leaves the table that there is after a look. -/
theorem populate_of_classCall {ext : Externals} {fuel : ℕ}
    {methods methods' : Option (List (String × ℕ))} {method : String}
    {args : Option (List JSConvertible)} {invocation : Option Invocation}
    (hcall : h.classCall ext fuel obj methods method args = .ok (invocation, methods', h')) :
    ∃ h₁, h.populateMethodsIfNecessary ext fuel obj methods = .ok (methods', h₁) ∧
      ∀ r, invocation = some r → ∃ table, methods' = some table ∧
        lookupMethod ext.canonical table method = some r.func := by
  unfold Heap.classCall at hcall
  cases hpopulate : h.populateMethodsIfNecessary ext fuel obj methods with
  | error stop =>
      rw [hpopulate] at hcall
      exact absurd hcall nofun
  | ok r =>
      rcases r with ⟨_ | table, h₁⟩
      · rw [hpopulate, Except.ok.injEq, Prod.mk.injEq, Prod.mk.injEq] at hcall
        rcases hcall with ⟨rfl, rfl, -⟩
        exact ⟨h₁, rfl, fun r hr => absurd hr nofun⟩
      · rw [hpopulate] at hcall
        dsimp only at hcall
        cases hlookup : lookupMethod ext.canonical table method with
        | none =>
            rw [hlookup, Except.ok.injEq, Prod.mk.injEq, Prod.mk.injEq] at hcall
            rcases hcall with ⟨rfl, rfl, -⟩
            exact ⟨h₁, rfl, fun r hr => absurd hr nofun⟩
        | some func =>
            rw [hlookup] at hcall
            dsimp only at hcall
            cases hfunction : h₁.functionCall func (.object obj) args with
            | error stop =>
                rw [hfunction] at hcall
                exact absurd hcall nofun
            | ok r =>
                rw [hfunction, Except.ok.injEq, Prod.mk.injEq, Prod.mk.injEq] at hcall
                rcases hcall with ⟨rfl, rfl, -⟩
                refine ⟨h₁, rfl, fun r' hr' => ⟨table, rfl, ?_⟩⟩
                rw [hlookup, ← Option.some.inj hr', (functionCall_spec hfunction).1]

/-- A method whose key is its name, and no other key is equivalent: what the table has is what the
    object has. -/
theorem tables_iff_getProperty {ext : Externals} {method : String} {atom : Atom}
    (hatom : atom ∈ names) (hspells : spells method atom) (hnul : '\x00' ∉ method.toList)
    (hinterned : Atom.ofString atom.toJSString = atom)
    (hapart : ∀ key ∈ keysOf names, ext.canonical key = ext.canonical method → key = method)
    (func : ℕ) :
    h.Tables ext obj names method func ↔ h.getProperty obj atom = .ok (.object func) := by
  have hkey : method ∈ keysOf names :=
    List.mem_filterMap.mpr ⟨atom, hatom, toSwift_of_spells hspells hnul⟩
  have hlast : lastKey ext.canonical (keysOf names) method = some method := by
    cases hfind : lastKey ext.canonical (keysOf names) method with
    | none => exact absurd (List.find?_eq_none.mp hfind method (List.mem_reverse.mpr hkey)) (by simp)
    | some key =>
        rcases lastKey_mem hfind with ⟨hmem, hsame⟩
        rw [hapart key hmem hsame]
  unfold Heap.Tables
  rw [hlast]
  simp only [Option.some.injEq, exists_eq_left']
  unfold Heap.tableValue
  rw [jsNewAtom_of_spells hspells hnul hinterned, if_pos hatom]

/-- A wrapper has no table, or one that it made of the object at some time. -/
theorem Wrapped.origin {ext : Externals} {methods : Option (List (String × ℕ))}
    {origin : Option Heap} (hwrapped : Wrapped ext obj methods origin) :
    (methods = none ∧ origin = none) ∨ ∃ table h₀ fuel h₁, methods = some table ∧
      origin = some h₀ ∧ h₀.populateMethodsIfNecessary ext fuel obj none = .ok (some table, h₁) := by
  induction hwrapped with
  | fresh => exact Or.inl ⟨rfl, rfl⟩
  | @call methods methods' origin h h' fuel method args invocation hwrapped hcall ih =>
      rcases populate_of_classCall hcall with ⟨h₁, hpopulate, -⟩
      rcases ih with ⟨rfl, rfl⟩ | ⟨table, h₀, fuel₀, h₂, rfl, rfl, hmade⟩
      · cases methods' with
        | none => exact Or.inl ⟨rfl, rfl⟩
        | some table => exact Or.inr ⟨table, h, fuel, h₁, rfl, rfl, hpopulate⟩
      · -- the table that is there is left as it is
        unfold Heap.populateMethodsIfNecessary at hpopulate
        rw [Except.ok.injEq, Prod.mk.injEq] at hpopulate
        rw [← hpopulate.1]
        exact Or.inr ⟨table, h₀, fuel₀, h₂, rfl, rfl, hmade⟩

section Law

variable {ext : Externals} {methods : Option (List (String × ℕ))} {origin : Option Heap}
  {method : String}

theorem tables_of_callsMethod (hwrapped : Wrapped ext obj methods origin)
    (hsurveyed : (origin.getD h).Surveyed obj above base)
    (hcalls : CallsMethod ext h obj methods method) {func : ℕ}
    (hget : h.getProperty obj (Atom.ofString (Utf16.encode method.toList)) = .ok (.object func))
    (hfunction : h.isFunction (.object func) = true) :
    (origin.getD h).Tabulated ext obj ((origin.getD h).methodNames above base) ∧
      (origin.getD h).Tables ext obj ((origin.getD h).methodNames above base) method func := by
  rcases hcalls func hget hfunction with ⟨bound, h', methods', -, hcall⟩
  have hnone := hcall bound le_rfl none
  rcases populate_of_classCall hnone with ⟨h₁, hpopulate, hlookup⟩
  rcases hlookup _ rfl with ⟨table, rfl, hfound⟩
  rcases hwrapped.origin with ⟨rfl, rfl⟩ | ⟨table₀, h₀, fuel₀, h₂, rfl, rfl, hmade⟩
  · rcases tabulated_of_populate hsurveyed hpopulate with ⟨htabulated, htables⟩
    exact ⟨htabulated, (htables method func).mp hfound⟩
  · rcases tabulated_of_populate hsurveyed hmade with ⟨htabulated, htables⟩
    unfold Heap.populateMethodsIfNecessary at hpopulate
    rw [Except.ok.injEq, Prod.mk.injEq, Option.some.injEq] at hpopulate
    rw [← hpopulate.1] at hfound
    exact ⟨htabulated, (htables method func).mp hfound⟩

theorem callsMethod_of_tables (hwrapped : Wrapped ext obj methods origin)
    (hsurveyed : (origin.getD h).Surveyed obj above base)
    (htables : ∀ func,
      h.getProperty obj (Atom.ofString (Utf16.encode method.toList)) = .ok (.object func) →
        h.isFunction (.object func) = true →
          (origin.getD h).Tabulated ext obj ((origin.getD h).methodNames above base) ∧
          (origin.getD h).Tables ext obj ((origin.getD h).methodNames above base) method func) :
    CallsMethod ext h obj methods method := by
  intro func hget hfunction
  rcases htables func hget hfunction with ⟨htabulated, hfunc⟩
  rcases hwrapped.origin with ⟨rfl, rfl⟩ | ⟨table, h₀, fuel₀, h₁, rfl, rfl, hmade⟩
  · rcases populate_of_tabulated hsurveyed htabulated with ⟨bound, table, h', hframe, hrun⟩
    have hlookup := ((tabulated_of_populate hsurveyed (hrun bound le_rfl)).2 method func).mpr hfunc
    exact ⟨bound, h', some table, hframe, fun fuel hfuel args =>
      classCall_of_lookup (hrun fuel hfuel) hlookup args⟩
  · have hlookup := ((tabulated_of_populate hsurveyed hmade).2 method func).mpr hfunc
    exact ⟨0, h, some table, Heap.Frame.refl _ _, fun fuel _ args =>
      classCall_of_lookup rfl hlookup args⟩

end Law

/-! ## A property in the way -/

/-- The built-in objects, a class `Shape` with two methods, and an instance of it that has a string
    under the name of one of them. -/
def Heap.shape : Heap :=
  { Heap.builtins with
    objects := Heap.builtins.objects ++
      [{ classID := jsClassObject, proto := some 0,
         properties := [(atomConstructor, .value (.object 6) false true),
           (jsNewAtom "area", .value (.object 6) false true),
           (jsNewAtom "label", .value (.object 6) false true)] },
       { classID := 13, proto := some 0,
         properties := [(atomName, .value (.string (JSString.ofSwift "Shape")) false false)] },
       { classID := jsClassObject, proto := some 5,
         properties := [(jsNewAtom "label",
           .value (.string (JSString.ofSwift "x")) true true)] }] }

theorem Heap.shape_methodNames :
    Heap.shape.methodNames [5, 0] [0] = [jsNewAtom "area", jsNewAtom "label"] := by
  decide +kernel

/-- Slots that refer into a set of objects, if anywhere. -/
def Property.Within (objects : ℕ → Prop) : Property → Prop
  | .value v _ _ => v.Within objects
  | .getSet _ _ => True

/-- Slots and elements that lead nowhere else are enough for a closed heap. -/
theorem Heap.closed_of_slots {h : Heap} {objects : ℕ → Prop}
    (hchain : ∀ ref, objects ref → ∃ l, h.Chain (some ref) l ∧ ∀ r ∈ l, objects r)
    (hslots : ∀ o ∈ h.objects, ∀ q ∈ o.properties, q.2.Within objects)
    (helements : ∀ o ∈ h.objects, ∀ values, o.u = .array values → ∀ v ∈ values, v.Within objects) :
    h.Closed objects := by
  refine ⟨hchain, fun ref _ atom v e w hown => ?_⟩
  unfold own at hown
  cases ho : h.objects[ref]? with
  | none =>
      rw [ho] at hown
      exact absurd hown nofun
  | some o =>
      rw [ho] at hown
      rcases own_cases hown with hq | ⟨values, hu, v', hv, heq⟩
      · exact hslots o (List.mem_of_getElem? ho) _ hq
      · rw [Property.value.injEq] at heq
        exact heq.1 ▸ helements o (List.mem_of_getElem? ho) values hu v' hv

theorem Heap.shape_chain {ref : ℕ} (href : ref < 8) :
    ∃ l, Heap.shape.Chain (some ref) l ∧ ∀ r ∈ l, r < 8 := by
  have h0 : Heap.shape.Chain (some 0) [0] := Chain.cons rfl .nil
  have h5 : Heap.shape.Chain (some 5) [5, 0] := Chain.cons rfl h0
  have h7 : Heap.shape.Chain (some 7) [7, 5, 0] := Chain.cons rfl h5
  interval_cases ref
  · exact ⟨_, h0, by simp⟩
  · exact ⟨_, Chain.cons rfl h0, by simp⟩
  · exact ⟨_, Chain.cons rfl h0, by simp⟩
  · exact ⟨_, Chain.cons rfl h0, by simp⟩
  · exact ⟨_, Chain.cons rfl h0, by simp⟩
  · exact ⟨_, h5, by simp⟩
  · exact ⟨_, Chain.cons rfl h0, by simp⟩
  · exact ⟨_, h7, by simp⟩

theorem Heap.shape_closed : Heap.shape.Closed (· < 8) := by
  refine closed_of_slots (fun _ => shape_chain) ?_ ?_
  · simp only [shape, builtins, List.cons_append, List.nil_append, List.forall_mem_cons,
      List.not_mem_nil, false_implies, implies_true, and_true, true_and, Property.Within,
      JSValue.Within, jsNewInt32]
    omega
  · simp [shape, builtins]

theorem Heap.shape_surveyed : Heap.shape.Surveyed 7 [5, 0] [0] := by
  have h0 : Heap.shape.Chain (some 0) [0] := Chain.cons rfl .nil
  have hvalued {atom : Atom} (hmethod : Heap.shape.IsMethod [5, 0] atom) :
      Heap.shape.Valued [7, 5, 0] atom := by
    intro r _ accessor e hown
    unfold own at hown
    cases ho : shape.objects[r]? with
    | none =>
        rw [ho] at hown
        exact absurd hown nofun
    | some o =>
        rw [ho] at hown
        rcases own_cases hown with hq | ⟨values, hu, v', hv, heq⟩
        · have hproto : ∀ o ∈ shape.objects, ∀ q ∈ o.properties, ∀ a e, q.2 = .getSet a e →
              q.1 = atomProto := by
            simp only [shape, builtins, List.cons_append, List.nil_append, List.forall_mem_cons,
              List.not_mem_nil, false_implies, implies_true, and_true, reduceCtorEq]
          exact isMethodName_ne_proto hmethod.1 (hproto o (List.mem_of_getElem? ho) _ hq _ _ rfl)
        · exact absurd heq nofun
  refine ⟨⟨Chain.cons rfl (Chain.cons rfl h0), h0, fun _ hmethod => hvalued hmethod,
    fun _ hmethod r hr => hvalued hmethod r ?_, fun r hr atom v e w hown => ?_⟩, shape_closed, ?_⟩
  · exact List.mem_of_mem_tail (List.mem_of_mem_tail hr)
  · have hlt : r < 8 := by
      simp only [List.mem_cons, List.not_mem_nil, or_false] at hr
      omega
    exact shape_closed.property r hlt atom v e w hown
  · decide

theorem Heap.shape_area :
    Heap.shape.getProperty 7 (Atom.ofString (Utf16.encode "area".toList)) = .ok (.object 6) := by
  decide +kernel

theorem not_callsMethod_shape :
    ¬ CallsMethod Externals.simple Heap.shape 7 none "area" := by
  intro hcalls
  have htabulated : Heap.shape.Tabulated Externals.simple 7 (Heap.shape.methodNames [5, 0] [0]) :=
    (tables_of_callsMethod Wrapped.fresh Heap.shape_surveyed hcalls Heap.shape_area rfl).1
  have hkeys : keysOf (Heap.shape.methodNames [5, 0] [0]) = ["area", "label"] := by
    rw [Heap.shape_methodNames]
    decide +kernel
  have hlabel : Heap.shape.tableValue 7 (Heap.shape.methodNames [5, 0] [0]) (jsNewAtom "label") =
      .ok (.string (JSString.ofSwift "x")) := by
    rw [Heap.shape_methodNames]
    decide +kernel
  rcases htabulated.functions "label" (by simp [hkeys]) with ⟨fuel, value, hvalue, hfunction⟩
  -- the value is a string, and that is no function
  unfold Heap.tableEntry at hvalue
  rw [hlabel] at hvalue
  cases fuel with
  | zero => exact absurd hvalue nofun
  | succ fuel =>
      have hstring : toJSConvertible Externals.simple Heap.shape (fuel + 1)
          (.string (JSString.ofSwift "x")) = .ok value := hvalue
      rw [decode_string, Except.ok.injEq] at hstring
      rw [hkeys] at hfunction
      rcases hfunction (by decide +kernel) _ hstring.symm with ⟨func, hfunc⟩
      exact absurd hfunc nofun

end Substrata
