import Substrata.Core.Methods
import Substrata.Theory.Wrapper

/-!
# What the table of methods has

`_getInstanceMethodNames` on an object with a prototype chain that ends.

The loop reaches the end of the chain, level by level, and name by name it makes
the table longer. Names come again further up, and then the same value is written
again, as it is always the property of the object that is read. So after some of
the levels the table has the methods of these levels, each with what the object
has under the name.

That is, unless `Object.prototype` refuses. The table inherits from it, and a
property of it that is read-only, as after `Object.freeze`, makes the assignment
of that name fail without notice.

## Main definitions

* `Heap.IsMethod`: The names of methods, as the script takes them.
* `Heap.Inspected`: An object whose chain has no accessor where it has a method.
* `Heap.methodNames`: The names in the table, in their order.
* `Gathered`: What the table has so far.
* `ListsMethods`: The table has every method, and nothing else.
* `Heap.frozen`: A heap whose `Object.prototype` is frozen.

## Theorems

* `Gathered.collectName`, `Gathered.level`, `Gathered.loop`: One name, one level
  and the whole chain.
* `listsMethods_iff`: When the table has every method.
* `exists_not_listsMethods`: A method that `Object.prototype` refuses.
-/

namespace Substrata

namespace Heap

/-- A name of a method of one of the objects: neither `constructor` nor with an underscore. -/
def IsMethod (h : Heap) (above : List ℕ) (atom : Atom) : Prop :=
  isMethodName atom ∧ ∃ r ∈ above, h.hasMethod r atom

/-- An object with the chain above it and the chain from `Object.prototype`: both end, no accessor
    on them has the name of a method, and what they refer to is there. -/
structure Inspected (h : Heap) (obj : ℕ) (above base : List ℕ) : Prop where
  chain : h.Chain (some obj) (obj :: above)
  baseChain : h.Chain (some h.objectProto) base
  valued : ∀ atom, h.IsMethod above atom → h.Valued (obj :: above) atom
  baseValued : ∀ atom, h.IsMethod above atom → h.Valued base atom
  live : ∀ r ∈ above, ∀ atom v e w, h.own atom r = some (.value v e w) →
    v.Within (· < h.objects.length)

/-- What one object of the chain has for the table. -/
def methodsOf (h : Heap) (base : List ℕ) (ref : ℕ) : List Atom :=
  (h.getOwnPropertyNames ref).filter fun atom =>
    isMethodName atom ∧ h.hasMethod ref atom ∧ h.Takes base atom

/-- A name that comes again stays where it is. -/
def addName (done : List Atom) (atom : Atom) : List Atom :=
  if atom ∈ done then done else done ++ [atom]

/-- The names in the table, in the order that they come in. -/
def methodNames (h : Heap) (above base : List ℕ) : List Atom :=
  (above.flatMap (h.methodsOf base)).foldl addName []

end Heap

/-- What the table has so far: the names that are done, each with the property of the object. -/
structure Table (h : Heap) (obj : ℕ) (done : List Atom) (o : JSObject) : Prop where
  classID : o.classID = jsClassObject
  proto : o.proto = some h.objectProto
  union : o.u = .pointer none
  extensible : o.extensible = true
  names : o.properties.map Prod.fst = done
  nodup : done.Nodup
  has : ∀ atom ∈ done, ∃ v, h.getProperty obj atom = .ok v ∧
    o.properties.lookup atom = some (.value v true true)

/-- A heap with the table, which is the first new object. -/
structure Gathered (h : Heap) (obj : ℕ) (done : List Atom) (h' : Heap) : Prop where
  frame : Heap.Frame (· < h.objects.length) h h'
  table : ∃ o, h'.objects[h.objects.length]? = some o ∧ Table h obj done o

/-- The table has every method, with the property of the object, and nothing else. -/
def ListsMethods (h : Heap) (obj : ℕ) (above : List ℕ) : Prop :=
  ∃ (bound : ℕ) (h' : Heap) (output : ℕ),
    (∀ fuel, bound ≤ fuel → h.getInstanceMethodNames fuel obj none = .ok (h', output)) ∧
      ∀ atom, (h.IsMethod above atom → ∃ v e w, h'.own atom output = some (.value v e w) ∧
          h.getProperty obj atom = .ok v) ∧
        (¬ h.IsMethod above atom → h'.own atom output = none)

/-! ## One name -/

theorem isMethodName_ne_proto {atom : Atom} (hname : Heap.isMethodName atom = true) :
    atom ≠ atomProto := by
  rintro rfl
  exact absurd hname (by decide +kernel)

namespace Heap

/-- A name is added once. -/
theorem mem_addName {done : List Atom} {atom a : Atom} :
    a ∈ addName done atom ↔ a ∈ done ∨ a = atom := by
  unfold addName
  by_cases hmem : atom ∈ done
  · rw [if_pos hmem]
    refine ⟨Or.inl, ?_⟩
    rintro (ha | rfl)
    · exact ha
    · exact hmem
  · rw [if_neg hmem, List.mem_append, List.mem_singleton]

theorem mem_foldl_addName (atoms : List Atom) {done : List Atom} {a : Atom} :
    a ∈ atoms.foldl addName done ↔ a ∈ done ∨ a ∈ atoms := by
  induction atoms generalizing done with
  | nil => simp
  | cons atom atoms ih => rw [List.foldl_cons, ih, mem_addName, List.mem_cons, or_assoc]

theorem nodup_addName {done : List Atom} (hnodup : done.Nodup) (atom : Atom) :
    (addName done atom).Nodup := by
  unfold addName
  by_cases hmem : atom ∈ done
  · rw [if_pos hmem]
    exact hnodup
  · rw [if_neg hmem]
    refine List.nodup_append'.mpr ⟨hnodup, List.nodup_singleton _, fun a ha ha' => ?_⟩
    exact hmem (List.mem_singleton.mp ha' ▸ ha)

end Heap

theorem mem_names_of_lookup {o : JSObject} {atom : Atom} {p : Property}
    (hlookup : o.properties.lookup atom = some p) : atom ∈ o.properties.map Prod.fst :=
  List.mem_map.mpr ⟨(atom, p), mem_of_lookup hlookup, rfl⟩

/-- Writing a name adds it, unless it is there. -/
theorem names_put (o : JSObject) (atom : Atom) (p : Property) :
    (o.put atom p).properties.map Prod.fst = Heap.addName (o.properties.map Prod.fst) atom := by
  unfold JSObject.put Heap.addName
  dsimp only
  cases hlookup : o.properties.lookup atom with
  | some q =>
      rw [if_pos (by simp), if_pos (mem_names_of_lookup hlookup), List.map_map]
      refine List.map_congr_left fun q _ => ?_
      by_cases hq : q.1 = atom
      · simp [hq]
      · simp [hq]
  | none =>
      have hmem : atom ∉ o.properties.map Prod.fst := by
        intro hmem
        rcases List.mem_map.mp hmem with ⟨q, hq, rfl⟩
        exact absurd (List.lookup_eq_none_iff.mp hlookup q hq) (by simp)
      rw [if_neg (by simp), if_neg hmem, List.map_append, List.map_singleton]

variable {h : Heap} {obj : ℕ} {above base : List ℕ}

/-- A name that is not done is not there. -/
theorem Table.hasNot {done : List Atom} {o : JSObject} (htable : Table h obj done o) {atom : Atom}
    (hatom : atom ∉ done) : o.properties.lookup atom = none := by
  cases hlookup : o.properties.lookup atom with
  | none => rfl
  | some p => exact absurd (htable.names ▸ mem_names_of_lookup hlookup) hatom

/-- One more name in the table. -/
theorem Table.put {done : List Atom} {o : JSObject} (htable : Table h obj done o) {atom : Atom}
    {v : JSValue} (hget : h.getProperty obj atom = .ok v) :
    Table h obj (Heap.addName done atom) (o.put atom (.value v true true)) where
  classID := htable.classID
  proto := htable.proto
  union := htable.union
  extensible := htable.extensible
  names := by
    rw [← htable.names]
    exact names_put o atom _
  nodup := Heap.nodup_addName htable.nodup atom
  has a ha := by
    rw [Heap.lookup_put]
    by_cases heq : a = atom
    · exact ⟨v, heq ▸ hget, if_pos heq⟩
    · rw [if_neg heq]
      exact htable.has a ((Heap.mem_addName.mp ha).resolve_right heq)

/-- An old object has the methods that it had. -/
theorem Gathered.hasMethod (hinspected : h.Inspected obj above base) {done : List Atom}
    {h' : Heap} (hgathered : Gathered h obj done h') {r : ℕ} (hr : r ∈ above) (atom : Atom) :
    h'.hasMethod r atom = h.hasMethod r atom := by
  have hlt := hinspected.chain.mem_lt (List.mem_cons_of_mem _ hr)
  unfold Heap.hasMethod
  rw [hgathered.frame.agrees.own hlt]
  cases hown : h.own atom r with
  | none => rfl
  | some p =>
      cases p with
      | getSet accessor e => rfl
      | value v e w => exact hgathered.frame.agrees.isFunction (hinspected.live r hr atom v e w hown)

/-- The assignment of one name to the table. -/
theorem Gathered.write (hinspected : h.Inspected obj above base) {done : List Atom}
    {h' : Heap} (hgathered : Gathered h obj done h') {atom : Atom}
    (hmethod : h.IsMethod above atom) {v : JSValue} (hget : h.getProperty obj atom = .ok v) :
    ∃ h'', h'.setProperty h.objects.length atom v = .ok h'' ∧
      Gathered h obj (if h.Takes base atom then Heap.addName done atom else done) h'' := by
  rcases hgathered.table with ⟨o, ho, htable⟩
  have hnewborn : Heap.Newborn h base h' h.objects.length o :=
    ⟨hgathered.frame, ho, fun values => by rw [htable.union]; exact nofun, htable.extensible,
      htable.proto ▸ hinspected.baseChain⟩
  have hbase := hinspected.baseValued atom hmethod
  -- the heap after an assignment that is not refused
  have hwritten : Gathered h obj (Heap.addName done atom) (h'.update h.objects.length fun o =>
      o.put atom (.value v true true)) :=
    ⟨(hnewborn.put le_rfl _).frame, _, (hnewborn.put le_rfl _).object, htable.put hget⟩
  by_cases hdone : atom ∈ done
  · rcases htable.has atom hdone with ⟨v', _, hlookup⟩
    have hown : h'.own atom h.objects.length = some (.value v' true true) :=
      (hnewborn.own atom).trans hlookup
    have hvalued := hnewborn.valued hbase (by simp [hlookup])
    have hset := Heap.setProperty_valued ho htable.extensible hnewborn.chain hvalued v
    rw [if_pos ((Heap.accepts_value hown).mpr rfl)] at hset
    have henumerable : h'.remainsEnumerable h.objects.length atom = true := by
      unfold Heap.remainsEnumerable
      rw [hown]
      rfl
    have hsame : Heap.addName done atom = done := if_pos hdone
    rw [henumerable] at hset
    refine ⟨_, hset, ?_⟩
    rw [hsame, ite_self, ← hsame]
    exact hwritten
  · refine ⟨_, hnewborn.setProperty hbase (htable.hasNot hdone) v, ?_⟩
    by_cases htakes : h.Takes base atom
    · rw [if_pos htakes, if_pos htakes]
      exact hwritten
    · rw [if_neg htakes, if_neg htakes]
      exact hgathered

/-- The callback of `forEach` on one name. -/
theorem Gathered.collectName (hinspected : h.Inspected obj above base) {done : List Atom}
    {h' : Heap} (hgathered : Gathered h obj done h') {r : ℕ} (hr : r ∈ above) (atom : Atom) :
    ∃ h'', Heap.collectName obj h.objects.length r h' atom = .ok h'' ∧
      Gathered h obj (if Heap.isMethodName atom ∧ h.hasMethod r atom ∧ h.Takes base atom then
        Heap.addName done atom else done) h'' := by
  unfold Heap.collectName
  rw [hgathered.hasMethod hinspected hr]
  by_cases hname : Heap.isMethodName atom = true
  · by_cases hmethod : h.hasMethod r atom = true
    · have hisMethod : h.IsMethod above atom := ⟨hname, r, hr, hmethod⟩
      have hvalued := hinspected.valued atom hisMethod
      have hget := Heap.getProperty_valued hinspected.chain hvalued
      rw [if_pos hname, if_pos hmethod, hinspected.chain.getProperty_frame hgathered.frame hvalued,
        hget]
      simp only [hname, hmethod, true_and]
      exact hgathered.write hinspected hisMethod hget
    · refine ⟨h', by rw [if_pos hname, if_neg hmethod], ?_⟩
      rw [if_neg fun hall => hmethod hall.2.1]
      exact hgathered
  · refine ⟨h', by rw [if_neg hname], ?_⟩
    rw [if_neg fun hall => hname hall.1]
    exact hgathered

/-! ## Levels -/

/-- The loop over the names of one level. -/
theorem Gathered.names (hinspected : h.Inspected obj above base) {r : ℕ} (hr : r ∈ above)
    (names : List Atom) {done : List Atom} {h' : Heap} (hgathered : Gathered h obj done h') :
    ∃ h'', names.foldlM (Heap.collectName obj h.objects.length r) h' = .ok h'' ∧
      Gathered h obj ((names.filter fun a => decide (Heap.isMethodName a ∧ h.hasMethod r a ∧
        h.Takes base a)).foldl Heap.addName done) h'' := by
  induction names generalizing done h' with
  | nil => exact ⟨h', rfl, hgathered⟩
  | cons atom names ih =>
      rcases hgathered.collectName hinspected hr atom with ⟨h₁, hstep, hgathered₁⟩
      rcases ih hgathered₁ with ⟨h₂, hfold, hgathered₂⟩
      refine ⟨h₂, ?_, ?_⟩
      · rw [List.foldlM_cons, hstep]
        exact hfold
      · rw [List.filter_cons]
        by_cases htaken : Heap.isMethodName atom ∧ h.hasMethod r atom ∧ h.Takes base atom
        · rw [if_pos htaken] at hgathered₂
          rw [if_pos (decide_eq_true htaken)]
          exact hgathered₂
        · rw [if_neg htaken] at hgathered₂
          rw [if_neg fun hyes => htaken (of_decide_eq_true hyes)]
          exact hgathered₂

/-- A method of an object is among its names. -/
theorem mem_getOwnPropertyNames {r : ℕ} {atom : Atom} (hmethod : h.hasMethod r atom = true) :
    atom ∈ h.getOwnPropertyNames r := by
  unfold Heap.hasMethod Heap.own at hmethod
  unfold Heap.getOwnPropertyNames
  cases ho : h.objects[r]? with
  | none =>
      rw [ho] at hmethod
      exact absurd hmethod (by simp)
  | some o =>
      rw [ho] at hmethod
      dsimp only at hmethod ⊢
      rw [List.mem_append]
      cases hown : o.own atom with
      | none =>
          rw [hown] at hmethod
          exact absurd hmethod (by simp)
      | some p =>
          unfold JSObject.own at hown
          split at hown
          · rename_i values n hunion
            cases hvalue : values[n]? with
            | none =>
                rw [hvalue] at hown
                exact Or.inr (mem_names_of_lookup hown)
            | some v =>
                rw [hunion]
                refine Or.inl (List.mem_map_of_mem (List.mem_range.mpr ?_))
                exact (List.getElem?_eq_some_iff.mp hvalue).1
          · exact Or.inr (mem_names_of_lookup hown)

/-- One level: the own names of an object of the chain. -/
theorem Gathered.level (hinspected : h.Inspected obj above base) {r : ℕ} (hr : r ∈ above)
    {done : List Atom} {h' : Heap} (hgathered : Gathered h obj done h') :
    ∃ h'', (h'.getOwnPropertyNames r).foldlM (Heap.collectName obj h.objects.length r) h'
        = .ok h'' ∧
      Gathered h obj ((h.methodsOf base r).foldl Heap.addName done) h'' := by
  have hnames : h'.getOwnPropertyNames r = h.getOwnPropertyNames r := by
    unfold Heap.getOwnPropertyNames
    rw [hgathered.frame.objects r (hinspected.chain.mem_lt (List.mem_cons_of_mem _ hr))]
  rw [hnames]
  exact hgathered.names hinspected hr (h.getOwnPropertyNames r)

/-- The whole chain. The bound has to be larger than the chain is long. -/
theorem Gathered.loop (hinspected : h.Inspected obj above base) {p : Option ℕ} {l : List ℕ}
    (hchain : h.Chain p l) (hl : ∀ r ∈ l, r ∈ above) {done : List Atom} {h' : Heap}
    (hgathered : Gathered h obj done h') :
    ∃ h'', (∀ fuel, l.length < fuel →
        Heap.collectMethods obj h.objects.length none fuel p h' = .ok h'') ∧
      Gathered h obj ((l.flatMap (h.methodsOf base)).foldl Heap.addName done) h'' := by
  induction hchain generalizing done h' with
  | nil =>
      refine ⟨h', fun fuel hfuel => ?_, hgathered⟩
      cases fuel with
      | zero => exact absurd hfuel (Nat.not_lt_zero _)
      | succ fuel => rfl
  | @cons r o rest ho hrest ih =>
      rcases hgathered.level hinspected (hl r List.mem_cons_self) with ⟨h₁, hlevel, hgathered₁⟩
      rcases ih (fun r' hr' => hl r' (List.mem_cons_of_mem _ hr')) hgathered₁ with
        ⟨h₂, hloop, hgathered₂⟩
      refine ⟨h₂, fun fuel hfuel => ?_, ?_⟩
      · cases fuel with
        | zero => exact absurd hfuel (Nat.not_lt_zero _)
        | succ fuel =>
            have hnext : h₁.getPrototypeOf r = o.proto := by
              unfold Heap.getPrototypeOf
              rw [hgathered₁.frame.objects r (Heap.lt_of_getElem? ho), ho]
              rfl
            unfold Heap.collectMethods
            rw [if_pos nofun, hlevel]
            dsimp only
            rw [hnext]
            rw [List.length_cons] at hfuel
            exact hloop fuel (Nat.lt_of_succ_lt_succ hfuel)
      · rw [List.flatMap_cons, List.foldl_append]
        exact hgathered₂

/-- The script ends, with the names in the table that `Object.prototype` does not refuse. -/
theorem getInstanceMethodNames_spec (hinspected : h.Inspected obj above base) :
    ∃ h', (∀ fuel, above.length < fuel →
        h.getInstanceMethodNames fuel obj none = .ok (h', h.objects.length)) ∧
      Gathered h obj (h.methodNames above base) h' := by
  have hnew : Gathered h obj [] h.newObject.1 := by
    refine ⟨Heap.frame_allocate _ _, _, Heap.getElem?_allocate _ _, ?_⟩
    exact ⟨rfl, rfl, rfl, rfl, rfl, List.nodup_nil, fun _ hdone => absurd hdone List.not_mem_nil⟩
  cases hinspected.chain with
  | @cons _ o _ ho hrest =>
      rcases hnew.loop hinspected hrest fun _ hr => hr with ⟨h', hloop, hgathered⟩
      refine ⟨h', fun fuel hfuel => ?_, hgathered⟩
      have hproto : h.newObject.1.getPrototypeOf obj = o.proto := by
        unfold Heap.getPrototypeOf
        rw [hnew.frame.objects obj (Heap.lt_of_getElem? ho), ho]
        rfl
      unfold Heap.getInstanceMethodNames
      rw [hproto]
      have hrun : Heap.collectMethods obj h.newObject.2 none fuel o.proto h.newObject.1 = .ok h' :=
        hloop fuel hfuel
      rw [hrun]
      rfl

/-- The names in the table: the methods that a plain object takes. -/
theorem mem_methodNames {atom : Atom} :
    atom ∈ h.methodNames above base ↔ h.IsMethod above atom ∧ h.Takes base atom := by
  unfold Heap.methodNames Heap.methodsOf Heap.IsMethod
  rw [Heap.mem_foldl_addName, List.mem_flatMap]
  simp only [List.not_mem_nil, false_or, List.mem_filter, decide_eq_true_eq]
  constructor
  · rintro ⟨r, hr, -, hname, hmethod, htakes⟩
    exact ⟨⟨hname, r, hr, hmethod⟩, htakes⟩
  · rintro ⟨⟨hname, r, hr, hmethod⟩, htakes⟩
    exact ⟨r, hr, mem_getOwnPropertyNames hmethod, hname, hmethod, htakes⟩

theorem takes_of_listsMethods (hinspected : h.Inspected obj above base)
    (hlists : ListsMethods h obj above) {atom : Atom} (hmethod : h.IsMethod above atom) :
    h.Takes base atom := by
  rcases getInstanceMethodNames_spec hinspected with ⟨h', hrun, hgathered⟩
  rcases hgathered.table with ⟨o, ho, htable⟩
  rcases hlists with ⟨bound, h'', output, hrun', hlists⟩
  have hsame := hrun (max bound (above.length + 1)) (by omega)
  rw [hrun' _ (le_max_left _ _), Except.ok.injEq, Prod.mk.injEq] at hsame
  rcases hsame with ⟨rfl, rfl⟩
  by_contra hrefused
  rcases (hlists atom).1 hmethod with ⟨v, e, w, hvalue, -⟩
  rw [Heap.own_eq ho, Heap.own_of_pointer htable.union,
    htable.hasNot fun hdone => hrefused (mem_methodNames.mp hdone).2] at hvalue
  exact absurd hvalue nofun

/-- The table has every method if and only if a plain object takes their names. -/
theorem listsMethods_iff (hinspected : h.Inspected obj above base) :
    ListsMethods h obj above ↔ ∀ atom, h.IsMethod above atom → h.Takes base atom := by
  constructor
  · intro hlists atom hmethod
    exact takes_of_listsMethods hinspected hlists hmethod
  · intro htakes
    rcases getInstanceMethodNames_spec hinspected with ⟨h', hrun, hgathered⟩
    rcases hgathered.table with ⟨o, ho, htable⟩
    have hown (atom : Atom) : h'.own atom h.objects.length = o.properties.lookup atom := by
      rw [Heap.own_eq ho, Heap.own_of_pointer htable.union]
    refine ⟨above.length + 1, h', h.objects.length, fun fuel hfuel => hrun fuel hfuel,
      fun atom => ⟨fun hmethod => ?_, fun hnot => ?_⟩⟩
    · rcases htable.has atom (mem_methodNames.mpr ⟨hmethod, htakes atom hmethod⟩) with
        ⟨v, hget, hlookup⟩
      exact ⟨v, true, true, (hown atom).trans hlookup, hget⟩
    · exact (hown atom).trans (htable.hasNot fun hdone => hnot (mem_methodNames.mp hdone).1)

theorem Heap.point_inspected : Heap.point.Inspected 7 [5, 0] [0] where
  chain := Chain.cons rfl (Chain.cons rfl (Chain.cons rfl .nil))
  baseChain := Chain.cons rfl .nil
  valued _ hmethod := Heap.point_valued (isMethodName_ne_proto hmethod.1)
  baseValued _ hmethod r hr := Heap.point_valued (isMethodName_ne_proto hmethod.1) r (List.mem_of_mem_tail (List.mem_of_mem_tail hr))
  live r hr atom v e w hown := by
    by_cases hne : atom = atomProto
    · subst hne
      simp only [List.mem_cons, List.not_mem_nil, or_false] at hr
      rcases hr with rfl | rfl
      · have hnone : Heap.point.own atomProto 5 = none := by decide +kernel
        exact absurd (hown.symm.trans hnone) nofun
      · have hproto : Heap.point.own atomProto 0 = some (.getSet .proto false) := by decide +kernel
        exact absurd (hown.symm.trans hproto) nofun
    · rcases Heap.point_own hne (List.mem_cons_of_mem _ hr) with hnone | ⟨f, hf, hvalue⟩
      · exact absurd (hown.symm.trans hnone) nofun
      · rw [hvalue] at hown
        cases hown
        exact hf

/-- An instance of a class has the methods of the class in its table. -/
theorem listsMethods_iff_point :
    ListsMethods Heap.point 7 [5, 0] ↔
      ∀ atom, Heap.point.IsMethod [5, 0] atom → Heap.point.Takes [0] atom :=
  listsMethods_iff Heap.point_inspected

/-- A heap whose `Object.prototype` has a read-only method, as after `Object.freeze`. -/
def Heap.hardened : Heap :=
  builtins.update builtins.objectProto fun o =>
    o.put (jsNewAtom "toString") (.value (.object 2) false false)

theorem Heap.hardened_own (atom : Atom) :
    (atom = atomProto ∧ Heap.hardened.own atom 0 = some (.getSet .proto false)) ∨
      Heap.hardened.own atom 0 = none ∨
      ∃ w, Heap.hardened.own atom 0 = some (.value (.object 2) false w) := by
  have hput : Heap.hardened.own atom 0 =
      if 0 = 0 ∧ atom = jsNewAtom "toString" then some (.value (.object 2) false false)
      else builtins.own atom 0 :=
    own_update_put (h := builtins) rfl (fun values => by simp) _ _ _ 0
  rw [hput]
  by_cases hname : atom = jsNewAtom "toString"
  · exact Or.inr (Or.inr ⟨false, if_pos ⟨rfl, hname⟩⟩)
  · rw [if_neg fun hand => hname hand.2]
    show _ ∧ List.lookup atom [(atomProto, _), (atomConstructor, _)] = _ ∨
      List.lookup atom [(atomProto, _), (atomConstructor, _)] = _ ∨
      ∃ w, List.lookup atom [(atomProto, _), (atomConstructor, _)] = _
    by_cases hproto : atom = atomProto
    · rw [hproto, List.lookup_cons, beq_self_eq_true]
      exact Or.inl ⟨rfl, rfl⟩
    · rw [List.lookup_cons, beq_eq_false_iff_ne.mpr hproto, List.lookup_cons]
      cases atom == atomConstructor with
      | true => exact Or.inr (Or.inr ⟨true, rfl⟩)
      | false => exact Or.inr (Or.inl rfl)

theorem Heap.hardened_valued {atom : Atom} (hne : atom ≠ atomProto) :
    Heap.hardened.Valued [3, 0] atom := by
  intro r hr accessor e hown
  simp only [List.mem_cons, List.not_mem_nil, or_false] at hr
  rcases hr with rfl | rfl
  · exact absurd hown nofun
  · rcases Heap.hardened_own atom with ⟨heq, _⟩ | hnone | ⟨w, hvalue⟩
    · exact hne heq
    · exact absurd (hown.symm.trans hnone) nofun
    · exact absurd (hown.symm.trans hvalue) nofun

theorem Heap.hardened_inspected : Heap.hardened.Inspected 3 [0] [0] where
  chain := Chain.cons rfl (Chain.cons rfl .nil)
  baseChain := Chain.cons rfl .nil
  valued _ hmethod := Heap.hardened_valued (isMethodName_ne_proto hmethod.1)
  baseValued _ hmethod r hr := Heap.hardened_valued (isMethodName_ne_proto hmethod.1) r (List.mem_of_mem_tail hr)
  live r hr atom v e w hown := by
    rw [List.mem_singleton] at hr
    subst hr
    rcases Heap.hardened_own atom with ⟨_, hproto⟩ | hnone | ⟨w', hvalue⟩
    · exact absurd (hown.symm.trans hproto) nofun
    · exact absurd (hown.symm.trans hnone) nofun
    · rw [hvalue] at hown
      cases hown
      show 2 < 5
      omega

/-- A plain object has the method `toString`, and the table does not have it. -/
theorem exists_not_listsMethods :
    ∃ (h : Heap) (obj : ℕ) (above base : List ℕ), h.Inspected obj above base ∧
      ¬ ListsMethods h obj above := by
  refine ⟨Heap.hardened, 3, [0], [0], Heap.hardened_inspected, fun hlists => ?_⟩
  have hmethod : Heap.hardened.IsMethod [0] (jsNewAtom "toString") :=
    ⟨by decide +kernel, 0, List.mem_singleton_self 0, by decide +kernel⟩
  have htakes := takes_of_listsMethods Heap.hardened_inspected hlists hmethod
  unfold Heap.Takes at htakes
  exact absurd htakes (by decide +kernel)

end Substrata
