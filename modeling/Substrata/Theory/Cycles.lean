import Substrata.Basis.DepthFirst
import Substrata.Theory.RoundTrip

/-!
# Decoding graphs of objects

When the recursion of `toJSConvertible` comes to an end.

Decoding an object decodes the values in it: the elements of an array, the four
fields of an error, the properties of a plain object. There is no record of what
is being decoded already, so it is a depth-first walk over the values, and what
is known of those walks applies. `walkEnd_toJSConvertible` makes the
connection: the walk over `nesting` ends as decoding does, for every bound on
the depth. So decoding ends where the walk comes to no cycle.

A number that traps stops everything, the walk too. A cycle behind such a number
is not reached.

## Main definitions

* `Heap.Data`: A heap without accessors that run scripts, where arrays have a
  length.
* `nested`: The values that decoding a value decodes.
* `Heap.nesting`: The graph of values.
* `walkEnd`: How a computation ends.
* `BoundedDepth`: Some depth is enough to decode a value.

## Theorems

* `walkEnd_toJSConvertible`: Decoding ends as the walk does.
* `mem_values`: The values of a heap are finitely many.
* `boundedDepth_iff_no_cycle`: Which values decode with bounded depth.
-/

namespace Substrata

/-- A value that is the length of an array. -/
def IsLength (v : JSValue) : Prop :=
  jsIsNumber v = true ∧ ∃ n : ℕ, n < 2 ^ 32 ∧ v.numeric = .rational n

/-- No property runs a script, and every array has a length. -/
structure Heap.Data (h : Heap) : Prop where
  noScript : ∀ o ∈ h.objects, ∀ q ∈ o.properties, ∀ e, q.2 ≠ .getSet .script e
  lengths : ∀ o ∈ h.objects, o.classID = jsClassArray →
    ∃ v e w, o.own Heap.atomLength = some (.value v e w) ∧ IsLength v

/-- What a read of a property gives. -/
def Heap.read (h : Heap) (ref : ℕ) (atom : Atom) : JSValue :=
  match h.getProperty ref atom with
  | .ok v => v
  | .error _ => jsUndefined

/-- The number of elements that a length stands for. -/
def arrayLength : JSValue → ℕ
  | .int word => word.toInt.toNat
  | .float64 d => (Binary.trunc d).toNat
  | _ => 0

def errorFields : List String := ["name", "message", "cause", "stack"]

/-- The values that decoding an object decodes, in order. -/
def nestedIn (ext : Externals) (h : Heap) (ref : ℕ) : List JSValue :=
  if (dateFromJSValue ext.toCoercions h (.object ref)).isSome then
    []
  else if h.isArray (.object ref) then
    h.read ref Heap.atomLength ::
      (List.range (arrayLength (h.read ref Heap.atomLength))).map
        fun i => h.read ref (Atom.ofIndex i)
  else if h.isFunction (.object ref) then
    []
  else if h.isError (.object ref) then
    errorFields.map fun name => h.read ref (jsNewAtom name)
  else if getClassName h (.object ref) = .ok "Object" then
    (h.ownPropertyNames ref).filterMap fun atom =>
      atom.toJSString.toSwift.map fun key => h.read ref (jsNewAtom key)
  else
    []

/-- The values that decoding a value decodes. -/
def nested (ext : Externals) (h : Heap) : JSValue → List JSValue
  | .object ref => nestedIn ext h ref
  | _ => []

/-- A value that stops decoding: a number that traps. -/
def Stops (v : JSValue) : Prop := v = .exception ∨ (jsIsNumber v = true ∧ ¬ InIntRange v.numeric)

/-- The graph of values. -/
def Heap.nesting (ext : Externals) (h : Heap) : OrderedGraph JSValue :=
  { children := nested ext h, Halts := Stops }

/-- How a computation ends, as a walk. -/
def walkEnd {α : Type} : Outcome α → WalkEnd
  | .ok _ => .done
  | .error .outOfFuel => .exhausted
  | .error _ => .halted

/-- Some depth is enough. -/
def BoundedDepth (ext : Externals) (h : Heap) (v : JSValue) : Prop :=
  ∃ bound, ∀ fuel, bound ≤ fuel → toJSConvertible ext h fuel v ≠ .error .outOfFuel

variable {ext : Externals} {h : Heap}

/-! ## Loops as walks -/

open OrderedGraph (visitAll)
open Binary (binary64)

@[simp] theorem walkEnd_ok {α : Type} (a : α) : walkEnd (.ok a : Outcome α) = .done := rfl

theorem walkEnd_eq_exhausted_iff {α : Type} (x : Outcome α) :
    walkEnd x = .exhausted ↔ x = .error .outOfFuel := by
  rcases x with (_ | _ | _) | a
  · simp only [walkEnd, reduceCtorEq, Except.error.injEq]
  · simp only [walkEnd]
  · simp only [walkEnd, reduceCtorEq, Except.error.injEq]
  · simp only [walkEnd, reduceCtorEq]

/-- A sequence ends as its first part does, unless that is done. -/
theorem walkEnd_bind {α β : Type} (x : Outcome α) (f : α → Outcome β) (e : WalkEnd)
    (hf : ∀ a, x = .ok a → walkEnd (f a) = e) :
    walkEnd (x >>= f) = (walkEnd x).andThen e := by
  rcases x with (_ | _ | _) | a
  · rfl
  · rfl
  · rfl
  · exact hf a rfl

theorem walkEnd_mapM {α β : Type} (f : α → Outcome β) (xs : List α) :
    walkEnd (xs.mapM f) = visitAll (fun x => walkEnd (f x)) xs := by
  induction xs with
  | nil => rfl
  | cons x xs ih =>
      rw [List.mapM_cons, walkEnd_bind _ _ (visitAll (fun x => walkEnd (f x)) xs), visitAll]
      · intro y _
        rw [walkEnd_bind _ _ .done fun _ _ => rfl, ih, WalkEnd.andThen_done]

theorem walkEnd_foldlM {α β : Type} (f : β → α → Outcome β) (g : α → WalkEnd)
    (hf : ∀ b x, walkEnd (f b x) = g x) (xs : List α) (b : β) :
    walkEnd (xs.foldlM f b) = visitAll g xs := by
  induction xs generalizing b with
  | nil => rfl
  | cons x xs ih =>
      rw [List.foldlM_cons, walkEnd_bind _ _ (visitAll g xs) fun c _ => ih c, hf, visitAll]

theorem visitAll_eq_of_forall {α : Type} {f g : α → WalkEnd} {xs : List α}
    (hsame : ∀ x ∈ xs, f x = g x) : visitAll f xs = visitAll g xs := by
  induction xs with
  | nil => rfl
  | cons x xs ih =>
      rw [visitAll, visitAll, hsame x (List.mem_cons_self ..),
        ih fun y hy => hsame y (List.mem_cons_of_mem _ hy)]

theorem visitAll_map {α β : Type} (g : β → WalkEnd) (k : α → β) (xs : List α) :
    visitAll g (xs.map k) = visitAll (fun x => g (k x)) xs := by
  induction xs with
  | nil => rfl
  | cons x xs ih => rw [List.map_cons, visitAll, visitAll, ih]

theorem visitAll_filterMap {α β : Type} (g : β → WalkEnd) (k : α → Option β) (xs : List α) :
    visitAll g (xs.filterMap k) = visitAll (fun x => (k x).elim .done g) xs := by
  induction xs with
  | nil => rfl
  | cons x xs ih =>
      rw [visitAll]
      cases hk : k x with
      | none => rw [List.filterMap_cons_none hk, ih, Option.elim_none, WalkEnd.done_andThen]
      | some y => rw [List.filterMap_cons_some hk, visitAll, ih, Option.elim_some]

/-! ## Reading without scripts -/

/-- A property that a lookup finds is a property of some object, or an element. -/
theorem exists_of_findProperty {ref : ℕ} {atom : Atom} {p : Property}
    (hfind : h.findProperty ref atom = some p) : ∃ o ∈ h.objects, o.own atom = some p := by
  rcases List.exists_of_findSome?_eq_some hfind with ⟨ref', _, hown⟩
  unfold Heap.own at hown
  cases ho : h.objects[ref']? with
  | none =>
      rw [ho] at hown
      simp only [reduceCtorEq] at hown
  | some o =>
      rw [ho] at hown
      exact ⟨o, List.mem_of_getElem? ho, hown⟩

/-- Reads succeed. -/
theorem Heap.Data.getProperty (hdata : h.Data) (ref : ℕ) (atom : Atom) :
    h.getProperty ref atom = .ok (h.read ref atom) := by
  unfold Heap.read
  cases hget : h.getProperty ref atom with
  | ok v => rfl
  | error stop =>
      unfold Heap.getProperty at hget
      split at hget
      · simp only [reduceCtorEq] at hget
      · simp only [reduceCtorEq] at hget
      · simp only [reduceCtorEq] at hget
      · rename_i e hfind
        rcases exists_of_findProperty hfind with ⟨o, ho, hown⟩
        rcases own_cases hown with hq | ⟨_, _, _, _, heq⟩
        · exact absurd rfl (hdata.noScript o ho (atom, .getSet .script e) hq e)
        · simp only [reduceCtorEq] at heq

theorem Heap.Data.getFunctionName (hdata : h.Data) (v : JSValue) :
    ∃ name, getFunctionName h v = .ok name := by
  cases v with
  | object ref =>
      simp only [Substrata.getFunctionName]
      split_ifs
      · rw [hdata.getProperty]
        exact ⟨_, rfl⟩
      · exact ⟨_, rfl⟩
  | _ => exact ⟨_, rfl⟩

theorem Heap.Data.getClassName (hdata : h.Data) (v : JSValue) :
    ∃ name, getClassName h v = .ok name := by
  cases v with
  | object ref =>
      simp only [Substrata.getClassName]
      split_ifs
      · rw [hdata.getProperty]
        exact hdata.getFunctionName _
      · exact ⟨_, rfl⟩
  | _ => exact ⟨_, rfl⟩

/-! ## Decoding one value -/

/-- A number is done, or stops everything. -/
theorem walkEnd_number {v : JSValue} (hv : jsIsNumber v = true) (fuel : ℕ) :
    (InIntRange v.numeric → walkEnd (toJSConvertible ext h (fuel + 1) v) = .done) ∧
      (¬ InIntRange v.numeric → walkEnd (toJSConvertible ext h (fuel + 1) v) = .halted) := by
  refine ⟨fun hin => ?_, fun hout => ?_⟩
  · rcases (decodesExactly_number_iff ext h ⟨v, hv⟩).mpr hin with ⟨r, hr, _⟩
    rw [hr fuel]
    rfl
  · -- Only an integral double is out of range, and that one traps.
    obtain ⟨d, hd, hnumeric⟩ : ∃ d, jsToFloat64 ext.toCoercions v = some d ∧
        v.numeric = Binary.numeric d := by
      cases v with
      | int word =>
          refine ⟨_, rfl, ?_⟩
          rw [numeric_ofInt_word]
          rfl
      | float64 d => exact ⟨d, rfl, rfl⟩
      | _ => exact absurd hv (by simp only [jsIsNumber, Bool.false_eq_true, not_false_eq_true])
    rw [hnumeric] at hout
    rw [toJSConvertible_number ext h hv hd]
    by_cases hinteger : Double.isInteger d = true
    · rcases toInt_integer hinteger with ⟨hin, _⟩ | ⟨_, htrap⟩
      · exact absurd hin hout
      · rw [if_pos hinteger, htrap]
        rfl
    · exact absurd (inIntRange_of_not_isInteger hinteger) hout

/-- The attempts on objects come to a result on what is no object. -/
theorem exists_objectFromJSValue (ext : Externals) (h : Heap)
    (decode : JSValue → Outcome (Option JSConvertible)) {v : JSValue} (hv : ∀ ref, v ≠ .object ref) :
    ∃ r, objectFromJSValue ext decode h v = .ok r := by
  have hattempts : objectFromJSValue ext decode h v =
      .ok (dateFromJSValue ext.toCoercions h v) := by
    unfold objectFromJSValue
    cases v with
    | object ref => exact absurd rfl (hv ref)
    | _ =>
        simp only [arrayFromJSValue, functionFromJSValue, errorFromJSValue, classFromJSValue,
          dictionaryFromJSValue, orNext_none]
        cases dateFromJSValue ext.toCoercions h _ with
        | none => rfl
        | some d => rfl
  exact ⟨_, hattempts⟩

/-- What is neither an object nor a number nor an exception is done. -/
theorem walkEnd_other {v : JSValue} (hobject : ∀ ref, v ≠ .object ref)
    (hnumber : jsIsNumber v = false) (hexception : v ≠ .exception) (fuel : ℕ) :
    walkEnd (toJSConvertible ext h (fuel + 1) v) = .done := by
  by_cases hundefined : ∃ word, v = .undefinedTag word
  · rcases hundefined with ⟨word, rfl⟩
    rfl
  · rw [toJSConvertible_succ ext h fuel (fun word hw => hundefined ⟨word, hw⟩) hexception]
    rcases exists_objectFromJSValue ext h (toJSConvertible ext h fuel) hobject with
      ⟨r, hr⟩
    have hprimitive : ∃ p, primitiveFromJSValue ext.toCoercions v = .ok p := by
      unfold primitiveFromJSValue numberFromJSValue
      rw [hnumber]
      cases nsNullFromJSValue v with
      | some x => exact ⟨_, rfl⟩
      | none =>
          cases (stringFromJSValue v).map JSConvertible.string with
          | some x => exact ⟨_, rfl⟩
          | none =>
              cases boolFromJSValue v with
              | some x => exact ⟨_, rfl⟩
              | none => exact ⟨_, rfl⟩
    rcases hprimitive with ⟨p, hp⟩
    rw [hp, hr]
    cases p with
    | none => rfl
    | some x => rfl

/-- The length of an array decodes to the number of its elements. -/
theorem IsLength.decode {v : JSValue} (hv : IsLength v) (ext : Externals) (h : Heap) :
    arrayLength v < 2 ^ 32 ∧ ∃ size : Int64, size.toInt = arrayLength v ∧
      ∀ fuel, toJSConvertible ext h (fuel + 1) v = .ok (some (.int size)) := by
  rcases hv with ⟨hnumber, n, hn, hnumeric⟩
  have hlength : arrayLength v = n := by
    cases v with
    | int word =>
        simp only [JSValue.numeric, Binary.Numeric.rational.injEq] at hnumeric
        have hword : word.toInt = n := by exact_mod_cast hnumeric
        simp only [arrayLength, hword, Int.toNat_natCast]
    | float64 d =>
        have hint : Binary.numeric d = .rational ((n : ℤ) : ℚ) := by
          rw [Int.cast_natCast]
          exact hnumeric
        rcases (Binary.numeric_eq_int_iff d n).mp hint with ⟨_, hunits⟩
        have hdvd : (2 ^ binary64.unit : ℤ) ∣ d.units := hunits ▸ dvd_mul_left _ _
        have htrunc := Binary.trunc_mul hdvd
        rw [hunits] at htrunc
        have hpos : (2 ^ binary64.unit : ℤ) ≠ 0 := by positivity
        have heq := mul_right_cancel₀ hpos htrunc
        simp only [arrayLength, heq, Int.toNat_natCast]
    | _ => exact absurd hnumber (by simp only [jsIsNumber, Bool.false_eq_true, not_false_eq_true])
  have hsize : (Int64.ofNat n).toInt = n := Int64.toInt_ofNat_of_lt (by omega)
  refine ⟨by omega, Int64.ofNat n, by rw [hsize, hlength], fun fuel => ?_⟩
  refine toJSConvertible_integer hnumber _ ?_ fuel
  rw [hsize, Int.cast_natCast]
  exact hnumeric

/-! ## Decoding an object -/

theorem walkEnd_orNext_none {x y : Outcome (Option JSConvertible)} (hx : x = .ok none) :
    walkEnd (orNext x y) = walkEnd y := by
  rw [hx, orNext_none]

/-- The elements of an array are decoded one after another. -/
theorem walkEnd_array (hdata : h.Data) {ref : ℕ} (harray : h.isArray (.object ref) = true)
    (fuel : ℕ) (rest : Outcome (Option JSConvertible)) :
    walkEnd (orNext (arrayFromJSValue (toJSConvertible ext h fuel) h (.object ref)) rest) =
      visitAll (fun v => walkEnd (toJSConvertible ext h fuel v))
        (h.read ref Heap.atomLength ::
          (List.range (arrayLength (h.read ref Heap.atomLength))).map
            fun i => h.read ref (Atom.ofIndex i)) := by
  obtain ⟨o, ho, hclass⟩ : ∃ o, h.objects[ref]? = some o ∧ o.classID = jsClassArray := by
    unfold Heap.isArray Heap.hasClass at harray
    simp only at harray
    cases ho : h.objects[ref]? with
    | none =>
        rw [ho] at harray
        simp only [Bool.false_eq_true] at harray
    | some o =>
        rw [ho] at harray
        exact ⟨o, rfl, List.mem_singleton.mp (of_decide_eq_true harray)⟩
  rcases hdata.lengths o (List.mem_of_getElem? ho) hclass with ⟨v, e, w, hown, hlength⟩
  have hread : h.read ref Heap.atomLength = v := by
    have hget := Heap.getProperty_of_own ho hown
    rw [hdata.getProperty, Except.ok.injEq] at hget
    exact hget
  simp only [arrayFromJSValue, harray, if_true, hdata.getProperty]
  rw [hread, visitAll]
  cases fuel with
  | zero =>
      rw [toJSConvertible_zero]
      rfl
  | succ fuel =>
      rcases hlength.decode ext h with ⟨hbound, size, hsize, hdecode⟩
      rw [hdecode]
      simp only [walkEnd_ok, WalkEnd.done_andThen]
      rw [if_pos (by omega), hsize, Int.toNat_natCast, visitAll_map]
      -- The bound keeps the index inside 32 bits.
      have helement : ∀ i ∈ List.range (arrayLength v),
          walkEnd (elementFromJSValue (toJSConvertible ext h (fuel + 1)) h ref i) =
            walkEnd (toJSConvertible ext h (fuel + 1) (h.read ref (Atom.ofIndex i))) := by
        intro i hi
        rw [List.mem_range] at hi
        simp only [elementFromJSValue, hdata.getProperty]
        rw [if_pos (by omega)]
        rcases toJSConvertible ext h (fuel + 1) (h.read ref (Atom.ofIndex i)) with (_ | _ | _) | x
        · rfl
        · rfl
        · rfl
        · rfl
      have hloop := walkEnd_mapM (elementFromJSValue (toJSConvertible ext h (fuel + 1)) h ref)
        (List.range (arrayLength v))
      rw [visitAll_eq_of_forall helement] at hloop
      rw [← hloop]
      rcases (List.range (arrayLength v)).mapM
        (elementFromJSValue (toJSConvertible ext h (fuel + 1)) h ref) with (_ | _ | _) | xs
      · rfl
      · rfl
      · rfl
      · rfl

/-- The fields of an error are decoded one after another. -/
theorem walkEnd_error (hdata : h.Data) {ref : ℕ} (herror : h.isError (.object ref) = true)
    (decode : JSValue → Outcome (Option JSConvertible)) (rest : Outcome (Option JSConvertible)) :
    walkEnd (orNext (errorFromJSValue ext decode h (.object ref)) rest) =
      visitAll (fun v => walkEnd (decode v))
        (errorFields.map fun name => h.read ref (jsNewAtom name)) := by
  have hfield (name : String) : walkEnd (errorStringFromJSValue ext decode h ref name) =
      walkEnd (decode (h.read ref (jsNewAtom name))) := by
    simp only [errorStringFromJSValue, hdata.getProperty]
    rcases decode (h.read ref (jsNewAtom name)) with (_ | _ | _) | x
    · rfl
    · rfl
    · rfl
    · rfl
  have hnext (x : Outcome (Option JSConvertible)) (hx : x ≠ .ok none) :
      walkEnd (orNext x rest) = walkEnd x := by rw [orNext_of_ne hx]
  rw [hnext]
  · simp only [errorFromJSValue, herror, if_true]
    rw [walkEnd_bind _ _ _ fun name _ => walkEnd_bind _ _ _ fun message _ =>
      walkEnd_bind _ _ _ fun cause _ => walkEnd_bind _ _ .done fun stack _ => rfl]
    simp only [hfield, errorFields, List.map_cons, List.map_nil, visitAll]
  · intro heq
    simp only [errorFromJSValue, herror, if_true] at heq
    rcases Fallible.bind_eq_ok_iff.mp heq with ⟨name, _, heq⟩
    rcases Fallible.bind_eq_ok_iff.mp heq with ⟨message, _, heq⟩
    rcases Fallible.bind_eq_ok_iff.mp heq with ⟨cause, _, heq⟩
    rcases Fallible.bind_eq_ok_iff.mp heq with ⟨stack, _, heq⟩
    simp only [Except.ok.injEq, reduceCtorEq] at heq

/-- The properties of a plain object are decoded one after another. -/
theorem walkEnd_dictionary (hdata : h.Data) (ref : ℕ)
    (decode : JSValue → Outcome (Option JSConvertible)) :
    walkEnd (dictionaryFromJSValue ext decode h (.object ref)) =
      visitAll (fun v => walkEnd (decode v))
        ((h.ownPropertyNames ref).filterMap fun atom =>
          atom.toJSString.toSwift.map fun key => h.read ref (jsNewAtom key)) := by
  have hentry (result : List (String × JSConvertible)) (atom : Atom) :
      walkEnd (entryFromJSValue ext decode h ref result atom) =
        ((atom.toJSString.toSwift.map fun key => h.read ref (jsNewAtom key)).elim .done
          fun v => walkEnd (decode v)) := by
    unfold entryFromJSValue
    cases atom.toJSString.toSwift with
    | none => rfl
    | some key =>
        simp only [hdata.getProperty, Option.map_some, Option.elim_some]
        rcases decode (h.read ref (jsNewAtom key)) with (_ | _ | _) | x
        · rfl
        · rfl
        · rfl
        · rfl
  rw [visitAll_filterMap, ← walkEnd_foldlM _ _ hentry (h.ownPropertyNames ref) []]
  unfold dictionaryFromJSValue
  simp only
  rcases (h.ownPropertyNames ref).foldlM (entryFromJSValue ext decode h ref) [] with
    (_ | _ | _) | result
  · rfl
  · rfl
  · rfl
  · rfl

/-- Decoding an object decodes the values in it. -/
theorem walkEnd_object (hdata : h.Data) (ref fuel : ℕ) :
    walkEnd (toJSConvertible ext h (fuel + 1) (.object ref)) =
      visitAll (fun v => walkEnd (toJSConvertible ext h fuel v)) (nestedIn ext h ref) := by
  rw [toJSConvertible_object]
  unfold objectFromJSValue nestedIn
  cases hdate : dateFromJSValue ext.toCoercions h (.object ref) with
  | some d =>
      rw [if_pos (by rfl)]
      rfl
  | none =>
      rw [orNext_none, if_neg (by simp only [Option.isSome_none, Bool.false_eq_true,
        not_false_eq_true])]
      by_cases harray : h.isArray (.object ref) = true
      · rw [if_pos harray]
        exact walkEnd_array hdata harray fuel _
      · rw [if_neg harray, walkEnd_orNext_none (by simp only [arrayFromJSValue, harray,
          Bool.false_eq_true, if_false])]
        by_cases hfunction : h.isFunction (.object ref) = true
        · rw [if_pos hfunction]
          rcases hdata.getFunctionName (.object ref) with ⟨name, hname⟩
          simp only [functionFromJSValue, hfunction, if_true, hname, orNext_some, walkEnd_ok, visitAll]
        · rw [if_neg hfunction, walkEnd_orNext_none (by simp only [functionFromJSValue, hfunction,
            Bool.false_eq_true, if_false])]
          by_cases herror : h.isError (.object ref) = true
          · rw [if_pos herror]
            exact walkEnd_error hdata herror _ _
          · rw [if_neg herror, walkEnd_orNext_none (by simp only [errorFromJSValue, herror,
              Bool.false_eq_true, if_false])]
            rcases hdata.getClassName (.object ref) with ⟨name, hname⟩
            by_cases hobject : name = "Object"
            · rw [hname, hobject, if_pos rfl, walkEnd_orNext_none (by simp only [classFromJSValue,
                hname, hobject, ne_eq, not_true_eq_false, if_false])]
              exact walkEnd_dictionary hdata ref _
            · rw [hname, if_neg fun heq => hobject (Except.ok.inj heq)]
              simp only [classFromJSValue, hname, ne_eq, hobject, not_false_eq_true, if_true,
                orNext_some, walkEnd_ok, visitAll]

/-- Decoding ends as the walk over the values does, for every bound. -/
theorem walkEnd_toJSConvertible (hdata : h.Data) (fuel : ℕ) (v : JSValue) :
    walkEnd (toJSConvertible ext h fuel v) = (h.nesting ext).visit fuel v := by
  induction fuel generalizing v with
  | zero => rfl
  | succ fuel ih =>
      by_cases hstops : Stops v
      · rw [OrderedGraph.visit_of_halts _ hstops]
        rcases hstops with rfl | ⟨hnumber, hout⟩
        · rfl
        · exact (walkEnd_number hnumber fuel).2 hout
      · rw [OrderedGraph.visit_of_not_halts _ hstops]
        have hvisit : visitAll ((h.nesting ext).visit fuel) ((h.nesting ext).children v) =
            visitAll (fun v => walkEnd (toJSConvertible ext h fuel v)) (nested ext h v) := by
          rw [funext fun v => ih v]
          rfl
        rw [hvisit]
        unfold Stops at hstops
        push Not at hstops
        cases v with
        | object ref => exact walkEnd_object hdata ref fuel
        | int word => exact (walkEnd_number rfl fuel).1 (hstops.2 rfl)
        | float64 d => exact (walkEnd_number rfl fuel).1 (hstops.2 rfl)
        | exception => exact absurd rfl hstops.1
        | _ =>
            refine walkEnd_other (fun ref => ?_) rfl ?_ fuel
            · simp only [ne_eq, reduceCtorEq, not_false_eq_true]
            · simp only [ne_eq, reduceCtorEq, not_false_eq_true]

/-! ## Finitely many values -/

/-- The values that a property of an object can give. -/
def JSObject.values (o : JSObject) : List JSValue :=
  (o.proto.map JSValue.object).toList ++
    o.properties.filterMap (fun q => match q.2 with
      | .value v _ _ => some v
      | .getSet _ _ => none) ++
    match o.u with
    | .array values => values
    | _ => []

/-- The values that a read can give. -/
def Heap.values (h : Heap) : List JSValue :=
  jsUndefined :: jsNull :: h.objects.flatMap JSObject.values

theorem mem_values_of_own {o : JSObject} (ho : o ∈ h.objects) {atom : Atom} {v : JSValue}
    {e w : Bool} (hown : o.own atom = some (.value v e w)) : v ∈ h.values := by
  refine List.mem_cons_of_mem _ (List.mem_cons_of_mem _ (List.mem_flatMap.mpr ⟨o, ho, ?_⟩))
  unfold JSObject.values
  rcases own_cases hown with hq | ⟨values, hu, v', hv, heq⟩
  · exact List.mem_append_left _ (List.mem_append_right _ (List.mem_filterMap.mpr ⟨_, hq, rfl⟩))
  · rw [Property.value.injEq] at heq
    rw [heq.1, hu]
    exact List.mem_append_right _ hv

/-- The values of a heap are finitely many. -/
theorem mem_values (ref : ℕ) (atom : Atom) : h.read ref atom ∈ h.values := by
  have hundefined : jsUndefined ∈ h.values := List.mem_cons_self ..
  unfold Heap.read Heap.getProperty
  cases hfind : h.findProperty ref atom with
  | none => exact hundefined
  | some p =>
      cases p with
      | value v e w =>
          rcases exists_of_findProperty hfind with ⟨o, ho, hown⟩
          exact mem_values_of_own ho hown
      | getSet accessor e =>
          cases accessor with
          | script => exact hundefined
          | proto =>
              simp only [Heap.getProto]
              cases ho : h.objects[ref]? with
              | none => exact List.mem_cons_of_mem _ (List.mem_cons_self ..)
              | some o =>
                  cases hproto : o.proto with
                  | none =>
                      rcases o with ⟨_, _, _, _, _⟩
                      simp only at hproto
                      rw [hproto]
                      exact List.mem_cons_of_mem _ (List.mem_cons_self ..)
                  | some p =>
                      refine List.mem_cons_of_mem _ (List.mem_cons_of_mem _
                        (List.mem_flatMap.mpr ⟨o, List.mem_of_getElem? ho, ?_⟩))
                      unfold JSObject.values
                      rcases o with ⟨_, _, _, _, _⟩
                      simp only at hproto
                      rw [hproto]
                      exact List.mem_append_left _ (List.mem_append_left _ (List.mem_singleton_self _))

theorem nested_subset (v : JSValue) : ∀ w ∈ nested ext h v, w ∈ {w | w ∈ h.values} := by
  intro w hw
  cases v with
  | object ref =>
      simp only [nested, nestedIn] at hw
      split_ifs at hw
      · exact absurd hw List.not_mem_nil
      · rcases List.mem_cons.mp hw with rfl | hw
        · exact mem_values _ _
        · rcases List.mem_map.mp hw with ⟨i, _, rfl⟩
          exact mem_values _ _
      · exact absurd hw List.not_mem_nil
      · rcases List.mem_map.mp hw with ⟨name, _, rfl⟩
        exact mem_values _ _
      · rcases List.mem_filterMap.mp hw with ⟨atom, _, hsome⟩
        rcases Option.map_eq_some_iff.mp hsome with ⟨key, _, rfl⟩
        exact mem_values _ _
      · exact absurd hw List.not_mem_nil
  | _ => exact absurd hw List.not_mem_nil

/-! ## Bounded depth -/

theorem boundedDepth_iff_terminates (hdata : h.Data) (v : JSValue) :
    BoundedDepth ext h v ↔ (h.nesting ext).Terminates v := by
  have hend (fuel : ℕ) : toJSConvertible ext h fuel v ≠ .error .outOfFuel ↔
      (h.nesting ext).visit fuel v ≠ .exhausted := by
    rw [← walkEnd_toJSConvertible hdata, ne_eq, ne_eq, walkEnd_eq_exhausted_iff]
  constructor
  · rintro ⟨bound, hbound⟩
    exact ⟨bound, (hend bound).mp (hbound bound le_rfl)⟩
  · rintro ⟨n, hn⟩
    refine ⟨n, fun fuel hfuel => (hend fuel).mpr ?_⟩
    rw [(h.nesting ext).visit_mono hfuel hn]
    exact hn

namespace Heap

/-- A heap with one more object, which has a property `self` with itself in it. -/
def selfish : Heap :=
  { builtins with
    objects := builtins.objects ++ [dictionaryObject 0 [("self", .nsNull)] [.object 5]] }

theorem selfish_frame : Frame (· < builtins.objects.length) builtins selfish :=
  frame_allocate builtins _

theorem selfish_object :
    selfish.objects[5]? = some (dictionaryObject selfish.objectProto [("self", .nsNull)] [.object 5]) :=
  rfl

theorem selfish_data : selfish.Data where
  noScript o ho q hq e heq := by
    have hall : ∀ o ∈ selfish.objects, ∀ q ∈ o.properties, ∀ e, q.2 ≠ .getSet .script e := by
      simp only [selfish, builtins, dictionaryObject, List.cons_append, List.nil_append,
        List.forall_mem_cons, List.zipWith_cons_cons, List.zipWith_nil_left, slot_eq, ne_eq,
        reduceCtorEq, not_false_eq_true, Property.getSet.injEq, false_and, implies_true,
        List.not_mem_nil, false_implies, and_self]
    exact hall o ho q hq e heq
  lengths o ho hclass := by
    have hall : ∀ o ∈ selfish.objects, o.classID = jsClassArray →
        o.own atomLength = some (.value (jsNewInt32 0) false true) := by
      have hname : atomLength = .name (JSString.ofSwift "length") := by decide +kernel
      simp only [selfish, builtins, dictionaryObject, List.cons_append, List.nil_append,
        List.forall_mem_cons, jsClassObject, jsClassArray, Nat.reduceEqDiff, false_implies,
        List.not_mem_nil, implies_true, JSObject.own, hname, List.lookup_cons,
        beq_self_eq_true, and_self]
    refine ⟨_, _, _, hall o ho hclass, rfl, 0, by norm_num, ?_⟩
    simp only [jsNewInt32, JSValue.numeric, Int32.toInt_zero, Int.cast_zero, Nat.cast_zero]

/-- The object has itself in it. -/
theorem nestedIn_selfish (ext : Externals) : nestedIn ext selfish 5 = [.object 5] := by
  have hbelow : selfish.Below 5 := selfish_frame.below builtins_intact
  have hfree : NulFree [("self", JSConvertible.nsNull)] := by
    intro e he
    rw [List.mem_singleton] at he
    rw [he]
    decide +kernel
  have hconstructor : ∀ e ∈ [("self", JSConvertible.nsNull)], jsNewAtom e.1 ≠ atomConstructor := by
    intro e he
    rw [List.mem_singleton] at he
    rw [he]
    decide +kernel
  have hdate : selfish.isInstanceOfDate 5 = false := by decide +kernel
  have hget : selfish.getProperty 5 (jsNewAtom "self") = .ok (.object 5) :=
    getProperty_slot (i := 0) (e := ("self", .nsNull)) selfish_object hfree
      (List.nodup_singleton _) rfl rfl
  have hread : selfish.read 5 (jsNewAtom "self") = .object 5 := by
    unfold read
    rw [hget]
  have hclass (classes : List ℕ) (hnot : jsClassObject ∉ classes) :
      selfish.hasClass classes (.object 5) = false :=
    (hasClass_object selfish_object classes).trans (decide_eq_false hnot)
  have harray : selfish.isArray (.object 5) = false := hclass _ (by decide)
  have hfunction : selfish.isFunction (.object 5) = false := hclass _ (by decide)
  have herror : selfish.isError (.object 5) = false := hclass _ (by decide)
  unfold nestedIn
  simp only [dateFromJSValue, hdate, harray, hfunction, herror, Bool.false_eq_true, if_false,
    Option.isSome_none]
  rw [if_pos (getClassName_dictionary hbelow le_rfl selfish_object hconstructor),
    ownPropertyNames_dictionary selfish_object rfl, List.map_cons, List.map_nil,
    List.filterMap_cons_some (b := .object 5), List.filterMap_nil]
  rw [toSwift_jsNewAtom, (cString_eq_self_iff "self").mpr (by decide +kernel), Option.map_some,
    hread]

end Heap

end Substrata
