import Substrata.Core.Calls

/-!
# Accounts of native code

What native code owes after each call of the engine, and that it pays.

A scheme gives an amount to each reference and to each exception. A call that returns a
reference adds its amount, and `JSValue.free` takes it away; an exception adds its amount
where it comes up in a place that is looked at, and the exception handler takes it away.
For every function of the native code there is one statement: over all its runs, the
amounts add up to those of the wrappers in the result. It is shown once for every scheme.
One scheme counts references, another counts exceptions.

The place matters. A reference that the code gives up on adds nothing, and neither does an
exception where none is looked for. What has been given up on, and what has been missed, is
the difference between these accounts and a full count.

An exception is taken from the engine with `JS_GetException`, so it has to be pending then.
`Outstanding` says of a world that the exception of a value is, and that without one none
is pending, unless one was missed.

## Main definitions

* `Scheme`: An amount for each reference and each exception.
* `Scheme.net`: What an event adds.
* `Outstanding`, `Idle`: What is pending.
* `Quiet`: What happens meanwhile adds nothing.
* `Decodes`: A decoder accounts for what it returns.

## Theorems

* `toJSConvertible_spec`: `toJSConvertible` at every depth.
* `toJSValue_spec`: `toJSValue`.
* `code_spec`: The operations.
-/

namespace Substrata

namespace Calls

open Interaction (Accounts Run Code)

/-- An amount for each reference and each exception, on several accounts. -/
structure Scheme (κ : Type) where
  cell : Cell → κ → ℤ
  exception : ℕ → κ → ℤ

namespace Scheme

variable {κ : Type} (S : Scheme κ)

/-- The amount of a value that native code has. -/
def held (v : Handle) : κ → ℤ := v.owned.elim 0 S.cell

/-- The amount of an exception that a value stands for. -/
def raised (v : Handle) : κ → ℤ := v.exception?.elim 0 S.exception

/-- The amount of some wrappers. -/
def wrapping (refs : List ℕ) : κ → ℤ := (refs.map fun ref => S.cell (.object ref)).sum

/-- The amount of the wrappers in a value. -/
def wrapped (x : Option JSConvertible) : κ → ℤ := S.wrapping (x.elim [] wrappers)

/-- What an event adds. -/
def net : Event → κ → ℤ
  | .got site c => if site.leaks then 0 else S.cell c
  | .took c => S.cell c
  | .gave c => -S.cell c
  | .raised site n => if site.isChecked then S.exception n else 0
  | .handled n => -S.exception n

/-- What a value adds where it comes up. -/
def worth (site : Site) (v : Handle) : κ → ℤ :=
  (if site.leaks then 0 else S.held v) + if site.isChecked then S.raised v else 0

@[simp] theorem wrapping_nil : S.wrapping [] = 0 := rfl

@[simp] theorem wrapping_append (refs refs' : List ℕ) :
    S.wrapping (refs ++ refs') = S.wrapping refs + S.wrapping refs' := by
  unfold wrapping
  rw [List.map_append, List.sum_append]

@[simp] theorem wrapped_none : S.wrapped none = 0 := rfl

theorem held_of_owned {v : Handle} (h : v.owned = none) : S.held v = 0 := by
  unfold held
  rw [h]
  rfl

theorem raised_of_exception {v : Handle} (h : v.exception? = none) : S.raised v = 0 := by
  unfold raised
  rw [h]
  rfl

/-- A reference adds or takes away its amount. -/
theorem sum_took (v : Handle) :
    ((v.owned.toList.map Event.took).map S.net).sum = S.held v := by
  unfold held
  cases v.owned with
  | none => rfl
  | some c => exact add_zero _

theorem sum_gave (v : Handle) :
    ((v.owned.toList.map Event.gave).map S.net).sum = -S.held v := by
  unfold held
  cases v.owned with
  | none => exact neg_zero.symm
  | some c => exact add_zero _

end Scheme

/-- An exception has no reference. -/
theorem Handle.owned_of_exception {v : Handle} {n : ℕ} (h : v.exception? = some n) :
    v.owned = none := by
  unfold Handle.exception? at h
  unfold Handle.owned
  split at h
  · next hv => rw [hv]
  · exact absurd h (by simp only [reduceCtorEq, not_false_eq_true])

/-! ## What is pending -/

/-- Nothing is pending, unless an exception was missed. -/
def Idle (s : World) : Prop := s.clean = true → s.pending = none

/-- The exception of a value is pending. -/
def Outstanding (v : Handle) (s : World) : Prop :=
  match v.exception? with
  | some n => s.pending = some n
  | none => Idle s

/-- What is pending after a value came up. -/
def After (site : Site) (v : Handle) (s : World) : Prop :=
  if site.isChecked then Outstanding v s else Idle s

theorem Outstanding.idle {v : Handle} {s : World} (h : Outstanding v s)
    (hv : v.exception? = none) : Idle s := by
  unfold Outstanding at h
  rw [hv] at h
  exact h

theorem Idle.outstanding {v : Handle} {s : World} (h : Idle s) (hv : v.exception? = none) :
    Outstanding v s := by
  unfold Outstanding
  rw [hv]
  exact h

/-- What happens meanwhile adds nothing, and leaves nothing pending. -/
def Quiet {κ : Type} (S : Scheme κ) (meanwhile : Meanwhile) : Prop :=
  ∀ s es t, meanwhile s es t → Idle s → (es.map S.net).sum = 0 ∧ Idle t

section Accounts

variable {κ : Type} {S : Scheme κ} {meanwhile : Meanwhile}

/-- An account of native code. -/
abbrev Books (S : Scheme κ) (meanwhile : Meanwhile) {β : Type} (pre : World → Prop)
    (x : NativeCode β) (amount : β → κ → ℤ) (post : β → World → Prop) : Prop :=
  Accounts (engine meanwhile) S.net pre x amount post

/-! ## Single calls -/

/-- A call in which nothing else runs. -/
theorem books_still {r : Request} (hr : r.runsCode = false) {pre : World → Prop}
    {amount : r.Answer → κ → ℤ} {post : r.Answer → World → Prop}
    (h : ∀ s es a t, pre s → Replies s r es a t → (es.map S.net).sum = amount a ∧ post a t) :
    Books S meanwhile pre (request r) amount post := by
  refine Accounts.request fun s es a t hs henv => ?_
  rcases henv with ⟨fs, u, gs, hmeanwhile, hreplies, rfl⟩
  rw [hr] at hmeanwhile
  rcases hmeanwhile with ⟨rfl, rfl⟩
  exact h _ _ _ _ hs hreplies

/-- A call in which operations may run. -/
theorem books_running (hquiet : Quiet S meanwhile) {r : Request} (hr : r.runsCode = true)
    {amount : r.Answer → κ → ℤ} {post : r.Answer → World → Prop}
    (h : ∀ s es a t, Idle s → Replies s r es a t → (es.map S.net).sum = amount a ∧ post a t) :
    Books S meanwhile Idle (request r) amount post := by
  refine Accounts.request fun s es a t hs henv => ?_
  rcases henv with ⟨fs, u, gs, hmeanwhile, hreplies, rfl⟩
  rw [if_pos hr] at hmeanwhile
  rcases hquiet s fs u hmeanwhile hs with ⟨hsum, hu⟩
  rcases h u gs a t hu hreplies with ⟨hreply, ht⟩
  refine ⟨?_, ht⟩
  rw [List.map_append, List.sum_append, hsum, hreply, zero_add]

theorem returns_spec {site : Site} {s t : World} {es : List Event} {v : Handle}
    (h : s.Returns site es v t) (hs : Idle s) :
    (es.map S.net).sum = S.worth site v ∧ After site v t := by
  unfold World.Returns at h
  unfold Scheme.worth After
  cases hv : v.exception? with
  | none =>
      rw [hv] at h
      rcases h with ⟨rfl, rfl⟩
      have houtstanding := hs.outstanding hv
      refine ⟨?_, ?_⟩
      · rw [S.raised_of_exception hv]
        unfold Scheme.held
        cases v.owned with
        | none => simp
        | some c => simp [Scheme.net]
      · split
        · exact houtstanding
        · exact hs
  | some n =>
      rw [hv] at h
      rcases h with ⟨rfl, rfl, rfl⟩
      refine ⟨?_, ?_⟩
      · rw [S.held_of_owned (Handle.owned_of_exception hv)]
        unfold Scheme.raised
        rw [hv]
        simp [Scheme.net]
      · unfold World.raise
        by_cases hsite : site.isChecked = true
        · rw [if_pos hsite]
          unfold Outstanding
          rw [hv]
        · rw [if_neg hsite]
          intro hclean
          simp [hsite] at hclean

/-- Where no exception is looked for, a failure adds nothing. -/
theorem answers_spec {α : Type} {site : Site} {s t : World} {es : List Event} {a : Option α}
    (hsite : site.isChecked = false) (h : s.Answers site es a t) (hs : Idle s) :
    (es.map S.net).sum = 0 ∧ Idle t := by
  unfold World.Answers at h
  cases a with
  | some x =>
      rcases h with ⟨rfl, rfl⟩
      exact ⟨rfl, hs⟩
  | none =>
      rcases h with ⟨rfl, rfl⟩
      refine ⟨?_, fun hclean => ?_⟩
      · simp [Scheme.net, hsite]
      · unfold World.raise at hclean
        simp [hsite] at hclean

theorem consumes_spec {α : Type} {site : Site} {val : Handle} {s t : World} {es : List Event}
    {a : Option α} (hsite : site.isChecked = false) (h : s.Consumes site val es a t)
    (hs : Idle s) : (es.map S.net).sum = -S.held val ∧ Idle t := by
  rcases h with ⟨fs, rfl, hanswers⟩
  rcases answers_spec (S := S) hsite hanswers hs with ⟨hsum, ht⟩
  refine ⟨?_, ht⟩
  rw [List.map_append, List.sum_append, S.sum_gave, hsum, add_zero]

section Calls

variable (hquiet : Quiet S meanwhile)

include hquiet

theorem jsEval_spec (site : Site) (script : String) :
    Books S meanwhile Idle (jsEval site script) (S.worth site) (After site) :=
  books_running hquiet rfl fun _ _ _ _ hs h => returns_spec h hs

theorem jsCall_spec (site : Site) (func thisObj : Handle) (argv : List Handle) :
    Books S meanwhile Idle (jsCall site func thisObj argv) (S.worth site) (After site) :=
  books_running hquiet rfl fun _ _ _ _ hs h => returns_spec h hs

theorem jsGetPropertyStr_spec (site : Site) (thisObj : Handle) (prop : String) :
    Books S meanwhile Idle (jsGetPropertyStr site thisObj prop) (S.worth site) (After site) :=
  books_running hquiet rfl fun _ _ _ _ hs h => returns_spec h hs

theorem jsGetPropertyUint32_spec (site : Site) (thisObj : Handle) (idx : ℕ) :
    Books S meanwhile Idle (jsGetPropertyUint32 site thisObj idx) (S.worth site) (After site) :=
  books_running hquiet rfl fun _ _ _ _ hs h => returns_spec h hs

theorem jsSetPropertyStr_spec (thisObj : Handle) (prop : String) (val : Handle) :
    Books S meanwhile Idle (jsSetPropertyStr thisObj prop val) (fun _ => -S.held val)
      fun _ => Idle :=
  books_running hquiet rfl fun _ _ _ _ hs h => consumes_spec rfl h hs

theorem jsSetPropertyUint32_spec (thisObj : Handle) (idx : ℕ) (val : Handle) :
    Books S meanwhile Idle (jsSetPropertyUint32 thisObj idx val) (fun _ => -S.held val)
      fun _ => Idle :=
  books_running hquiet rfl fun _ _ _ _ hs h => consumes_spec rfl h hs

theorem jsHasProperty_spec (thisObj : Handle) (prop : String) :
    Books S meanwhile Idle (jsHasProperty thisObj prop) (fun _ => 0) fun _ => Idle :=
  books_running hquiet rfl fun _ _ _ _ hs h => answers_spec rfl h hs

theorem native_spec : Books S meanwhile Idle (request .native) (fun _ => 0) fun _ => Idle :=
  books_running hquiet rfl fun _ _ _ _ hs h => by
    rcases h with ⟨rfl, rfl⟩
    exact ⟨rfl, hs⟩

theorem closure_spec (args : List JSConvertible) :
    Books S meanwhile Idle (request (.closure args)) (fun _ => 0) fun _ => Idle :=
  books_running hquiet rfl fun _ _ _ _ hs h => by
    rcases h with ⟨rfl, rfl⟩
    exact ⟨rfl, hs⟩

theorem defineProperty_spec (thisObj : Handle) (prop : String) :
    Books S meanwhile Idle (request (.defineProperty thisObj prop)) (fun _ => 0) fun _ => Idle :=
  books_running hquiet rfl fun _ _ _ _ hs h => answers_spec rfl h hs

omit hquiet

theorem jsIsFunction_spec {pre : World → Prop} (v : Handle) :
    Books S meanwhile pre (jsIsFunction v) (fun _ => 0) fun _ => pre :=
  books_still rfl fun _ _ _ _ hs h => by
    rcases h with ⟨rfl, rfl⟩
    exact ⟨rfl, hs⟩

theorem jsDupValue_spec {pre : World → Prop} (v : Handle) :
    Books S meanwhile pre (jsDupValue v) (fun _ => S.held v) fun _ => pre :=
  books_still rfl fun _ _ _ _ hs h => by
    rcases h with ⟨rfl, rfl⟩
    exact ⟨S.sum_took v, hs⟩

theorem jsFreeValue_spec {pre : World → Prop} (v : Handle) :
    Books S meanwhile pre (jsFreeValue v) (fun _ => -S.held v) fun _ => pre :=
  books_still rfl fun _ _ _ _ hs h => by
    rcases h with ⟨rfl, rfl⟩
    exact ⟨S.sum_gave v, hs⟩

theorem jsNewObject_spec {pre : World → Prop} :
    Books S meanwhile pre jsNewObject S.held fun v s => v.exception? = none ∧ pre s := by
  have hnew : Books S meanwhile pre (request .newObject) (fun ref => S.cell (.object ref))
      fun _ => pre := books_still rfl fun _ _ _ _ hs h => by
    rcases h with ⟨rfl, rfl⟩
    exact ⟨add_zero _, hs⟩
  exact hnew.bind fun ref => Accounts.ret (sub_self _) fun s hs => ⟨rfl, hs⟩

theorem jsNewString_spec {pre : World → Prop} (s : String) :
    Books S meanwhile pre (jsNewString s) S.held fun v s => v.exception? = none ∧ pre s := by
  have hnew : Books S meanwhile pre (request (.newString s)) (fun n => S.cell (.leaf n))
      fun _ => pre := books_still rfl fun _ _ _ _ hs h => by
    rcases h with ⟨rfl, rfl⟩
    exact ⟨add_zero _, hs⟩
  exact hnew.bind fun n => Accounts.ret (sub_self _) fun s hs => ⟨rfl, hs⟩

end Calls

/-! ## Wrappers -/

theorem release_spec {pre : World → Prop} (refs : List ℕ) :
    Books S meanwhile pre (release refs) (fun _ => -S.wrapping refs) fun _ => pre := by
  refine (Accounts.each refs fun ref _ => jsFreeValue_spec (Handle.object ref)).congr fun _ => ?_
  unfold Scheme.wrapping
  induction refs with
  | nil => exact neg_zero.symm
  | cons ref refs ih =>
      rw [List.map_cons, List.sum_cons, ih, List.map_cons, List.sum_cons, neg_add]
      rfl

theorem drop_spec {pre : World → Prop} (x : Option JSConvertible) :
    Books S meanwhile pre (drop x) (fun _ => -S.wrapped x) fun _ => pre := release_spec _

/-- `nil` becomes `NSNull`. -/
theorem wrapped_getD (x : Option JSConvertible) :
    S.wrapped (some (x.getD .nsNull)) = S.wrapped x := by
  cases x with
  | none => rfl
  | some x => rfl

theorem wrapping_elements (xs : List JSConvertible) :
    S.wrapping (wrappersOfElements xs) = (xs.map fun x => S.wrapped (some x)).sum := by
  induction xs with
  | nil => rfl
  | cons x xs ih =>
      rw [wrappersOfElements, S.wrapping_append, ih, List.map_cons, List.sum_cons]
      rfl

/-- What was converted is no integer, and nothing is pending. -/
def NoInteger (x : Option JSConvertible) (s : World) : Prop :=
  (∀ n, x ≠ some (.int n)) ∧ Idle s

theorem Idle.noInteger {x : Option JSConvertible} {s : World} (hs : Idle s)
    (h : ∀ n, x ≠ some (.int n)) : NoInteger x s := ⟨h, hs⟩

/-- A decoder accounts for the wrappers in what it returns, and settles the exception. What
    decodes to an integer has no reference. -/
def Decodes (S : Scheme κ) (meanwhile : Meanwhile)
    (decode : Handle → NativeCode (Option JSConvertible)) : Prop :=
  ∀ v, Books S meanwhile (Outstanding v) (decode v) (fun x => S.wrapped x - S.raised v)
    fun x s => (∀ n, x = some (.int n) → v.owned = none) ∧ Idle s

section Decode

variable (hquiet : Quiet S meanwhile) {decode : Handle → NativeCode (Option JSConvertible)}

include hquiet

theorem getFunctionName_spec (v : Handle) :
    Books S meanwhile Idle (getFunctionName v) (fun _ => 0) fun _ => Idle := by
  refine (jsIsFunction_spec v).bind fun b => ?_
  by_cases hb : b = true
  · rw [if_pos hb]
    refine (jsGetPropertyStr_spec hquiet .name v "name").bind fun str => ?_
    refine (jsFreeValue_spec str).bind fun _ => ?_
    refine Accounts.ret ?_ fun s hs => hs
    simp [Scheme.worth, Site.leaks, Site.isChecked]
  · rw [if_neg hb]
    exact Accounts.ret (sub_zero _) fun s hs => hs

theorem functionInit_spec (context : ℕ) (v : Handle) :
    Books S meanwhile Idle (functionInit context v) S.wrapped NoInteger := by
  refine (jsIsFunction_spec v).bind fun b => ?_
  by_cases hb : b = true
  · rw [if_pos hb]
    cases hv : v.value with
    | object ref =>
        refine (jsDupValue_spec v).bind fun _ => ?_
        refine (getFunctionName_spec hquiet v).bind fun name => ?_
        refine Accounts.ret ?_ fun s hs => hs.noInteger nofun
        have hheld : S.held v = S.cell (.object ref) := by
          unfold Scheme.held Handle.owned
          rw [hv]
          rfl
        simp [hheld, Scheme.wrapped, Scheme.wrapping, wrappers]
    | _ => exact Accounts.ret (sub_zero _) fun s hs => hs.noInteger nofun
  · rw [if_neg hb]
    exact Accounts.ret (sub_zero _) fun s hs => hs.noInteger nofun

theorem functionFromJSValue_spec (context : ℕ) (v : Handle) :
    Books S meanwhile Idle (functionFromJSValue context v) S.wrapped NoInteger := by
  refine (jsIsFunction_spec v).bind fun b => ?_
  by_cases hb : b = true
  · rw [if_pos hb]
    exact (functionInit_spec hquiet context v).congr fun _ => (sub_zero _).symm
  · rw [if_neg hb]
    exact Accounts.ret (sub_zero _) fun s hs => hs.noInteger nofun

theorem getClassName_spec (v : Handle) :
    Books S meanwhile Idle (getClassName v) (fun _ => 0) fun _ => Idle := by
  unfold getClassName
  by_cases hv : v.isObject = true
  · rw [if_pos hv]
    refine (jsHasProperty_spec hquiet v "constructor").bind fun found => ?_
    by_cases hfound : found = some true
    · rw [if_pos hfound]
      refine (jsGetPropertyStr_spec hquiet .constructor v "constructor").bind fun const => ?_
      refine (getFunctionName_spec hquiet const).bind fun name => ?_
      refine (jsFreeValue_spec const).bind fun _ => ?_
      refine Accounts.ret ?_ fun s hs => hs
      simp [Scheme.worth, Site.leaks, Site.isChecked]
    · rw [if_neg hfound]
      exact Accounts.ret (sub_zero _) fun s hs => hs
  · rw [if_neg hv]
    exact Accounts.ret rfl fun s hs => hs

theorem classInit_spec (context : ℕ) (v : Handle) :
    Books S meanwhile Idle (classInit context v) S.wrapped NoInteger := by
  unfold classInit
  cases hv : v.value with
  | object ref =>
      have hheld : S.held v = S.cell (.object ref) := by
        unfold Scheme.held Handle.owned
        rw [hv]
        rfl
      refine (jsDupValue_spec v).bind fun _ => ?_
      refine (getClassName_spec hquiet v).bind fun className => ?_
      by_cases hname : className ≠ "Object"
      · rw [if_pos hname]
        refine Accounts.ret ?_ fun s hs => hs.noInteger nofun
        simp [hheld, Scheme.wrapped, Scheme.wrapping, wrappers]
      · rw [if_neg hname]
        refine (jsFreeValue_spec v).bind fun _ => ?_
        refine Accounts.ret ?_ fun s hs => hs.noInteger nofun
        simp
  | _ => exact Accounts.ret rfl fun s hs => hs.noInteger nofun

theorem dateFromNumber_spec (v : Handle) :
    Books S meanwhile Idle (dateFromNumber v) S.wrapped NoInteger := by
  have hask : Books S meanwhile Idle (request (.toFloat64 v)) (fun _ => 0) fun _ => Idle :=
    books_running hquiet rfl fun _ _ _ _ hs h => answers_spec rfl h hs
  refine hask.bind fun ms => ?_
  cases ms with
  | none => exact Accounts.ret (sub_zero _) fun s hs => hs.noInteger nofun
  | some ms =>
      dsimp only
      by_cases hms : Binary.isFinite ms = true
      · rw [if_pos hms]
        exact Accounts.ret (sub_zero _) fun s hs => hs.noInteger nofun
      · rw [if_neg hms]
        exact Accounts.ret (sub_zero _) fun s hs => hs.noInteger nofun

theorem dateFromJSValue_spec (v : Handle) :
    Books S meanwhile Idle (dateFromJSValue v) S.wrapped NoInteger := by
  unfold dateFromJSValue
  by_cases hv : v.isObject = true
  · rw [if_pos hv]
    have hglobal : Books S meanwhile Idle jsGetGlobalObject S.held fun _ => Idle := by
      have hask : Books S meanwhile Idle (request .getGlobalObject)
          (fun ref => S.cell (.object ref)) fun _ => Idle := books_still rfl fun _ _ _ _ hs h => by
        rcases h with ⟨rfl, rfl⟩
        exact ⟨add_zero _, hs⟩
      exact hask.bind fun ref => Accounts.ret (sub_self _) fun s hs => hs
    refine hglobal.bind fun globalObj => ?_
    refine (jsGetPropertyStr_spec hquiet .dateConstructor globalObj "Date").bind fun dateCtor => ?_
    have hask : Books S meanwhile Idle (request (.isInstanceOf v dateCtor)) (fun _ => 0)
        fun _ => Idle := books_running hquiet rfl fun _ _ _ _ hs h => answers_spec rfl h hs
    refine hask.bind fun isDate => ?_
    refine (jsFreeValue_spec dateCtor).bind fun _ => ?_
    refine (jsFreeValue_spec globalObj).bind fun _ => ?_
    -- both references were given back
    have hpaid : ∀ x, S.wrapped x = S.wrapped x - S.held globalObj - S.worth .dateConstructor
        dateCtor - 0 - -S.held dateCtor - -S.held globalObj := by
      intro x
      simp [Scheme.worth, Site.leaks, Site.isChecked]
    by_cases hdate : isDate = some true
    · rw [if_pos hdate]
      exact (dateFromNumber_spec hquiet v).congr hpaid
    · rw [if_neg hdate]
      exact Accounts.ret (hpaid none).symm fun s hs => hs.noInteger nofun
  · rw [if_neg hv]
    exact dateFromNumber_spec hquiet v

theorem errorStringFromJSValue_spec (ext : Externals) (hdecode : Decodes S meanwhile decode)
    (object : Handle) (name : String) :
    Books S meanwhile Idle (errorStringFromJSValue ext decode object name) (fun _ => 0)
      fun _ => Idle := by
  refine (jsGetPropertyStr_spec hquiet .errorField object name).bind fun v => ?_
  refine (hdecode v).bind fun x => Accounts.of_and fun _ => ?_
  refine (jsFreeValue_spec v).bind fun _ => ?_
  refine (drop_spec x).bind fun _ => ?_
  refine Accounts.ret ?_ fun s hs => hs
  have hworth : S.worth .errorField v = S.held v + S.raised v := rfl
  rw [hworth]
  abel

/-- An error has no wrappers. -/
def NoWrappers (x : Option JSConvertible) (s : World) : Prop :=
  x.elim [] wrappers = [] ∧ NoInteger x s

omit hquiet in
theorem NoWrappers.wrapped_eq {x : Option JSConvertible} {s : World} (h : NoWrappers x s) :
    S.wrapped x = 0 := by
  unfold Scheme.wrapped
  rw [h.1, S.wrapping_nil]

theorem errorInit_spec (ext : Externals) (hdecode : Decodes S meanwhile decode) (v : Handle) :
    Books S meanwhile Idle (errorInit ext decode v) (fun e => S.wrapped (some e))
      fun e s => NoWrappers (some e) s := by
  have hfield := errorStringFromJSValue_spec hquiet ext hdecode v
  refine (hfield "name").bind fun name => ?_
  refine (hfield "message").bind fun message => ?_
  refine (hfield "cause").bind fun cause => ?_
  refine (hfield "stack").bind fun stack => ?_
  refine Accounts.ret ?_ fun s hs => ⟨rfl, hs.noInteger nofun⟩
  simp [Scheme.wrapped, wrappers]

/-- The exception that is outstanding is the one that is handled. -/
theorem handlePossibleException_spec (ext : Externals) (hdecode : Decodes S meanwhile decode)
    (v : Handle) :
    Books S meanwhile (Outstanding v) (handlePossibleException ext decode v)
      (fun x => S.wrapped x - S.raised v) NoWrappers := by
  unfold handlePossibleException
  cases hv : v.exception? with
  | none =>
      refine Accounts.ret ?_ fun s hs => ⟨rfl, (hs.idle hv).noInteger nofun⟩
      rw [S.raised_of_exception hv, S.wrapped_none, sub_zero]
  | some n =>
      have hask : Books S meanwhile (Outstanding v) (request .getException)
          (fun a => S.held a.1) fun a s => (a.2 = n) ∧ Idle s := by
        refine books_still rfl fun s es a t hs h => ?_
        rcases h with ⟨hpending, _, rfl, rfl⟩
        unfold Outstanding at hs
        rw [hv, hpending] at hs
        exact ⟨S.sum_took a.1, Option.some.inj hs, fun _ => rfl⟩
      refine hask.bind fun exception => Accounts.of_and fun hn => ?_
      refine (errorInit_spec hquiet ext hdecode exception.1).bind fun e =>
        Accounts.of_and fun hwrappers => Accounts.of_and fun hinteger => ?_
      have hhandler : Books S meanwhile Idle (request (.exceptionHandler exception.2 e))
          (fun _ => -S.exception n) fun _ => Idle := by
        refine books_running hquiet rfl fun s es a t hs h => ?_
        rcases h with ⟨rfl, rfl⟩
        rw [hn]
        exact ⟨add_zero _, hs⟩
      refine hhandler.bind fun _ => ?_
      refine (jsFreeValue_spec exception.1).bind fun _ => ?_
      refine Accounts.ret ?_ fun s hs => ⟨hwrappers, hs.noInteger hinteger⟩
      have hraised : S.raised v = S.exception n := by
        unfold Scheme.raised
        rw [hv]
        rfl
      rw [hraised]
      abel

theorem elementFromJSValue_spec (hdecode : Decodes S meanwhile decode) (v : Handle) (i : ℕ) :
    Books S meanwhile Idle (elementFromJSValue decode v i) (fun x => S.wrapped (some x))
      fun _ => Idle := by
  unfold elementFromJSValue
  by_cases hi : i < 2 ^ 32
  · rw [if_pos hi]
    refine (jsGetPropertyUint32_spec hquiet .element v i).bind fun w => ?_
    refine (hdecode w).bind fun x => Accounts.of_and fun _ => ?_
    refine (jsFreeValue_spec w).bind fun _ => ?_
    refine Accounts.ret ?_ fun s hs => hs
    rw [wrapped_getD]
    simp [Scheme.worth, Site.leaks, Site.isChecked]
  · rw [if_neg hi]
    exact Accounts.stop

theorem arrayFromJSValue_spec (hdecode : Decodes S meanwhile decode) (v : Handle) :
    Books S meanwhile Idle (arrayFromJSValue decode v) S.wrapped NoInteger := by
  have hask : Books S meanwhile Idle (request (.isArray v)) (fun _ => 0) fun _ => Idle :=
    books_still rfl fun _ _ _ _ hs h => answers_spec rfl h hs
  refine hask.bind fun isArray => ?_
  by_cases harray : isArray = some true
  · rw [if_pos harray]
    refine (jsGetPropertyStr_spec hquiet .length v "length").bind fun sizeV => ?_
    refine (hdecode sizeV).bind fun x => Accounts.of_and fun hsize => ?_
    have hworth : S.worth .length sizeV = S.raised sizeV := zero_add _
    -- a length that is no integer is dropped, and its reference with it
    have hother : Books S meanwhile Idle (do drop x; pure none)
        (fun y => S.wrapped y - 0 - S.worth .length sizeV - (S.wrapped x - S.raised sizeV))
        NoInteger := by
      refine (drop_spec x).bind fun _ => ?_
      refine Accounts.ret ?_ fun s hs => hs.noInteger nofun
      rw [hworth, S.wrapped_none]
      abel
    split
    · next size =>
      by_cases hneg : 0 ≤ size.toInt
      · rw [if_pos hneg]
        refine (Accounts.collect _ fun i _ => elementFromJSValue_spec hquiet hdecode v i).bind
          fun result => ?_
        refine (jsFreeValue_spec sizeV).bind fun _ => ?_
        refine Accounts.ret ?_ fun s hs => hs.noInteger nofun
        have hresult : S.wrapped (some (.array result))
            = (result.map fun x => S.wrapped (some x)).sum := wrapping_elements result
        have hint : S.wrapped (some (.int size)) = 0 := rfl
        rw [hworth, hresult, hint, S.held_of_owned (hsize size rfl)]
        abel
      · rw [if_neg hneg]
        exact Accounts.stop
    · exact hother
  · rw [if_neg harray]
    exact Accounts.ret (sub_zero _) fun s hs => hs.noInteger nofun

theorem errorFromJSValue_spec (ext : Externals) (hdecode : Decodes S meanwhile decode)
    (v : Handle) : Books S meanwhile Idle (errorFromJSValue ext decode v) S.wrapped NoInteger := by
  have hask : Books S meanwhile Idle (request (.isError v)) (fun _ => 0) fun _ => Idle :=
    books_still rfl fun _ _ _ _ hs h => by
      rcases h with ⟨rfl, rfl⟩
      exact ⟨rfl, hs⟩
  refine hask.bind fun isError => ?_
  by_cases herror : isError = true
  · rw [if_pos herror]
    refine (errorInit_spec hquiet ext hdecode v).bind fun e => ?_
    refine Accounts.ret ?_ fun s hs => hs.2
    rw [sub_zero, sub_self]
  · rw [if_neg herror]
    exact Accounts.ret (sub_zero _) fun s hs => hs.noInteger nofun

end Decode

/-! ## Primitive values -/

/-- A number is a number, or traps. -/
theorem numberFromJSValue_cases {c : Coercions} {v : JSValue} {x : JSConvertible}
    (h : numberFromJSValue c v = .ok (some x)) :
    jsIsNumber v = true ∧ ((∃ n, x = .int n) ∨ ∃ d, x = .double d) := by
  unfold numberFromJSValue at h
  by_cases hv : jsIsNumber v = true
  · refine ⟨hv, ?_⟩
    rw [if_pos hv] at h
    split at h
    · exact absurd h (by simp)
    · split at h
      · split at h
        · exact absurd h (by simp)
        · next n _ =>
          simp only [Except.ok.injEq, Option.some.injEq] at h
          exact Or.inl ⟨n, h.symm⟩
      · next d _ =>
        simp only [Except.ok.injEq, Option.some.injEq] at h
        exact Or.inr ⟨_, h.symm⟩
  · rw [if_neg hv] at h
    exact absurd h (by simp)

theorem primitiveFromJSValue_cases {c : Coercions} {v : JSValue} {x : JSConvertible}
    (h : primitiveFromJSValue c v = .ok (some x)) :
    x = .nsNull ∨ (∃ s, x = .string s) ∨ (∃ b, x = .bool b) ∨
      jsIsNumber v = true ∧ ((∃ n, x = .int n) ∨ ∃ d, x = .double d) := by
  unfold primitiveFromJSValue at h
  cases v with
  | nullTag word =>
      simp only [nsNullFromJSValue, orNext_some, Except.ok.injEq, Option.some.injEq] at h
      exact Or.inl h.symm
  | string s =>
      cases hs : s.toSwift with
      | some t =>
          simp only [nsNullFromJSValue, stringFromJSValue, hs, orNext_none, Option.map_some,
            orNext_some, Except.ok.injEq, Option.some.injEq] at h
          exact Or.inr (Or.inl ⟨t, h.symm⟩)
      | none =>
          simp only [nsNullFromJSValue, stringFromJSValue, hs, orNext_none, Option.map_none,
            boolFromJSValue] at h
          exact Or.inr (Or.inr (Or.inr (numberFromJSValue_cases h)))
  | bool word =>
      simp only [nsNullFromJSValue, stringFromJSValue, orNext_none, Option.map_none,
        boolFromJSValue, orNext_some, Except.ok.injEq, Option.some.injEq] at h
      exact Or.inr (Or.inr (Or.inl ⟨_, h.symm⟩))
  | _ =>
      simp only [nsNullFromJSValue, stringFromJSValue, boolFromJSValue, orNext_none,
        Option.map_none] at h
      exact Or.inr (Or.inr (Or.inr (numberFromJSValue_cases h)))

theorem wrappers_of_primitive {c : Coercions} {v : JSValue} {x : JSConvertible}
    (h : primitiveFromJSValue c v = .ok (some x)) : wrappers x = [] := by
  rcases primitiveFromJSValue_cases h with rfl | ⟨s, rfl⟩ | ⟨b, rfl⟩ | ⟨-, ⟨n, rfl⟩ | ⟨d, rfl⟩⟩
  · rfl
  · rfl
  · rfl
  · rfl
  · rfl

/-- What decodes to an integer at once is a number, and no reference. -/
theorem owned_of_primitive {c : Coercions} {v : Handle} {n : Int64}
    (h : primitiveFromJSValue c v.value = .ok (some (.int n))) : v.owned = none := by
  have hnumber : jsIsNumber v.value = true := by
    rcases primitiveFromJSValue_cases h with h | ⟨s, h⟩ | ⟨b, h⟩ | ⟨h, -⟩
    · exact absurd h nofun
    · exact absurd h nofun
    · exact absurd h nofun
    · exact h
  unfold Handle.owned
  unfold jsIsNumber at hnumber
  split at hnumber
  · next hv => rw [hv]
  · next hv => rw [hv]
  · exact absurd hnumber Bool.false_ne_true

/-! ## Dictionaries -/

theorem wrapping_entries (es : List (String × JSConvertible)) :
    S.wrapping (wrappersOfEntries es) = (es.map fun e => S.wrapped (some e.2)).sum := by
  induction es with
  | nil => rfl
  | cons e es ih =>
      rcases e with ⟨key, x⟩
      rw [wrappersOfEntries, S.wrapping_append, ih, List.map_cons, List.sum_cons]
      rfl

/-- A dictionary has each key once, as Swift compares keys. -/
def Distinct (canonical : String → String) (result : List (String × JSConvertible)) : Prop :=
  (result.map fun e => canonical e.1).Nodup

/-- Entries are those with a key and the others. -/
theorem wrapping_filter (p : String × JSConvertible → Bool) (es : List (String × JSConvertible)) :
    S.wrapping (wrappersOfEntries (es.filter p))
      + S.wrapping (wrappersOfEntries (es.filter fun e => !p e))
      = S.wrapping (wrappersOfEntries es) := by
  simp only [wrapping_entries]
  induction es with
  | nil => exact add_zero _
  | cons e es ih =>
      rw [List.filter_cons, List.filter_cons, List.map_cons, List.sum_cons, ← ih]
      by_cases hp : p e = true
      · simp only [hp, if_true, Bool.not_true, Bool.false_eq_true, if_false, List.map_cons,
          List.sum_cons]
        abel
      · simp only [hp, if_false, Bool.not_false, if_true, Bool.false_eq_true, List.map_cons,
          List.sum_cons]
        abel

section SetKey

variable {canonical : String → String} {result : List (String × JSConvertible)} {key : String}

/-- No entry has the key. -/
theorem filter_key_eq_nil (hkey : ∀ e ∈ result, canonical e.1 ≠ canonical key) :
    (result.filter fun e => decide (canonical e.1 = canonical key)) = [] :=
  List.filter_eq_nil_iff.mpr fun e he => by simpa using hkey e he

/-- Writing a key that is there writes one entry. -/
theorem wrapping_replace (hdistinct : Distinct canonical result) (x : JSConvertible)
    (hkey : ∃ e ∈ result, canonical e.1 = canonical key) :
    S.wrapping (wrappersOfEntries (result.map fun e =>
          if canonical e.1 = canonical key then (e.1, x) else e))
        + S.wrapping (wrappersOfEntries
          (result.filter fun e => decide (canonical e.1 = canonical key)))
      = S.wrapping (wrappersOfEntries result) + S.wrapped (some x) := by
  simp only [wrapping_entries]
  induction result with
  | nil =>
      rcases hkey with ⟨e, he, _⟩
      exact absurd he List.not_mem_nil
  | cons e es ih =>
      rcases List.nodup_cons.mp hdistinct with ⟨hnew, hrest⟩
      rw [List.map_cons, List.map_cons, List.sum_cons, List.filter_cons]
      by_cases he : canonical e.1 = canonical key
      · -- the others have other keys
        have hothers : ∀ f ∈ es, canonical f.1 ≠ canonical key := fun f hf heq =>
          hnew (List.mem_map.mpr ⟨f, hf, heq.trans he.symm⟩)
        have hsame : (es.map fun f => if canonical f.1 = canonical key then (f.1, x) else f) = es :=
          (List.map_congr_left fun f hf => if_neg (hothers f hf)).trans (List.map_id es)
        rw [if_pos he, if_pos (decide_eq_true he), hsame, filter_key_eq_nil hothers, List.map_cons,
          List.map_nil, List.sum_cons, List.sum_nil, List.map_cons, List.sum_cons]
        abel
      · have hexists : ∃ f ∈ es, canonical f.1 = canonical key := by
          rcases hkey with ⟨f, hf, heq⟩
          rcases List.mem_cons.mp hf with rfl | hmem
          · exact absurd heq he
          · exact ⟨f, hmem, heq⟩
        rw [if_neg he, if_neg (by simpa using he), List.map_cons, List.sum_cons, add_assoc,
          ih hrest hexists]
        abel

/-- The value that a key had is replaced, or removed. -/
theorem wrapping_setKey (hdistinct : Distinct canonical result) (key : String)
    (x : Option JSConvertible) :
    S.wrapping (wrappersOfEntries (setKey canonical result key x))
        + S.wrapping (wrappersOfEntries
          (result.filter fun e => decide (canonical e.1 = canonical key)))
      = S.wrapping (wrappersOfEntries result) + S.wrapped x := by
  unfold setKey
  cases x with
  | none =>
      have hfilter := wrapping_filter (S := S)
        (fun e => decide (canonical e.1 = canonical key)) result
      simp only [← decide_not] at hfilter
      rw [S.wrapped_none, add_zero, ← hfilter]
      exact add_comm _ _
  | some x =>
      dsimp only
      by_cases hany : (result.any fun e => decide (canonical e.1 = canonical key)) = true
      · rw [if_pos hany]
        refine wrapping_replace hdistinct x ?_
        rcases List.any_eq_true.mp hany with ⟨e, he, heq⟩
        exact ⟨e, he, of_decide_eq_true heq⟩
      · rw [if_neg hany]
        have hnone : ∀ e ∈ result, canonical e.1 ≠ canonical key := fun e he heq =>
          hany (List.any_eq_true.mpr ⟨e, he, decide_eq_true heq⟩)
        rw [filter_key_eq_nil hnone]
        simp only [wrapping_entries, List.map_append, List.sum_append, List.map_cons, List.map_nil,
          List.sum_cons, List.sum_nil, add_zero]

theorem Distinct.setKey (hdistinct : Distinct canonical result) (x : Option JSConvertible) :
    Distinct canonical (setKey canonical result key x) := by
  unfold Substrata.setKey
  cases x with
  | none =>
      exact hdistinct.sublist (List.filter_sublist.map _)
  | some x =>
      dsimp only
      by_cases hany : (result.any fun e => decide (canonical e.1 = canonical key)) = true
      · rw [if_pos hany]
        have hkeys : ∀ e : String × JSConvertible, canonical
            (if canonical e.1 = canonical key then (e.1, x) else e).1 = canonical e.1 := by
          intro e
          split <;> rfl
        unfold Distinct
        rw [List.map_map]
        exact (List.map_congr_left fun e _ => hkeys e) ▸ hdistinct
      · rw [if_neg hany]
        have hnone : canonical key ∉ result.map fun e => canonical e.1 := fun hmem => by
          rcases List.mem_map.mp hmem with ⟨e, he, heq⟩
          exact hany (List.any_eq_true.mpr ⟨e, he, decide_eq_true heq⟩)
        unfold Distinct
        rw [List.map_append]
        refine List.nodup_append.mpr ⟨hdistinct, List.nodup_singleton _, fun a ha b hb heq => ?_⟩
        have hb' : b = canonical key := List.mem_singleton.mp hb
        exact hnone (hb' ▸ heq ▸ ha)

end SetKey

section Decode

variable (hquiet : Quiet S meanwhile) {decode : Handle → NativeCode (Option JSConvertible)}

include hquiet

theorem entryFromJSValue_spec (ext : Externals) (hdecode : Decodes S meanwhile decode)
    (v : Handle) {result : List (String × JSConvertible)}
    (hdistinct : Distinct ext.canonical result) (key : Option String) :
    Books S meanwhile Idle (entryFromJSValue ext decode v result key)
      (fun result' => S.wrapping (wrappersOfEntries result')
        - S.wrapping (wrappersOfEntries result))
      fun result' s => Distinct ext.canonical result' ∧ Idle s := by
  cases key with
  | none => exact Accounts.ret (sub_self _) fun s hs => ⟨hdistinct, hs⟩
  | some key =>
      refine (jsGetPropertyStr_spec hquiet .entry v key).bind fun w => ?_
      refine (hdecode w).bind fun x => Accounts.of_and fun _ => ?_
      refine (jsFreeValue_spec w).bind fun _ => ?_
      refine (release_spec _).bind fun _ => ?_
      refine Accounts.ret ?_ fun s hs => ⟨hdistinct.setKey x, hs⟩
      have hset := wrapping_setKey (S := S) hdistinct key x
      have hworth : S.worth .entry w = S.held w + S.raised w := rfl
      rw [hworth, eq_sub_of_add_eq hset]
      abel

theorem dictionaryFromJSValue_spec (ext : Externals) (hdecode : Decodes S meanwhile decode)
    (v : Handle) :
    Books S meanwhile Idle (dictionaryFromJSValue ext decode v) S.wrapped NoInteger := by
  unfold dictionaryFromJSValue
  by_cases hv : v.isObject = true
  · rw [if_pos hv]
    have hask : Books S meanwhile Idle (request (.getOwnPropertyNames v)) (fun _ => 0)
        fun _ => Idle := books_running hquiet rfl fun _ _ _ _ hs h => answers_spec rfl h hs
    refine hask.bind fun names => ?_
    cases names with
    | none => exact Accounts.ret (sub_zero _) fun s hs => hs.noInteger nofun
    | some names =>
        have hnil : Distinct ext.canonical [] := List.nodup_nil
        refine (Accounts.fold (fun result key hdistinct =>
          entryFromJSValue_spec hquiet ext hdecode v hdistinct key) hnil names).bind
          fun result => Accounts.of_and fun _ => ?_
        refine Accounts.ret ?_ fun s hs => hs.noInteger nofun
        have hresult : S.wrapped (some (.dictionary result))
            = S.wrapping (wrappersOfEntries result) := rfl
        rw [hresult, wrappersOfEntries, S.wrapping_nil]
        abel
  · rw [if_neg hv]
    exact Accounts.ret rfl fun s hs => hs.noInteger nofun

omit hquiet in
/-- The first attempt that succeeds. -/
theorem orElse_spec {pre : World → Prop} {owed : κ → ℤ} {P : Option JSConvertible → Prop}
    {x y : NativeCode (Option JSConvertible)}
    (hx : Books S meanwhile pre x (fun a => S.wrapped a - owed) fun a s => P a ∧ Idle s)
    (hy : Books S meanwhile Idle y S.wrapped fun a s => P a ∧ Idle s) :
    Books S meanwhile pre (orElse x y) (fun a => S.wrapped a - owed) fun a s => P a ∧ Idle s := by
  refine hx.bind fun a => Accounts.of_and fun ha => ?_
  cases a with
  | none =>
      refine hy.congr fun b => ?_
      rw [S.wrapped_none]
      abel
  | some a => exact Accounts.ret (sub_self _) fun s hs => ⟨ha, hs⟩

theorem objectFromJSValue_spec (ext : Externals) (context : ℕ)
    (hdecode : Decodes S meanwhile decode) (v : Handle) :
    Books S meanwhile Idle (objectFromJSValue ext context decode v) S.wrapped NoInteger := by
  have hor {x y : NativeCode (Option JSConvertible)}
      (hx : Books S meanwhile Idle x S.wrapped NoInteger)
      (hy : Books S meanwhile Idle y S.wrapped NoInteger) :
      Books S meanwhile Idle (orElse x y) S.wrapped NoInteger :=
    (orElse_spec (hx.congr fun _ => (sub_zero _).symm) hy).congr fun _ => sub_zero _
  exact hor (dateFromJSValue_spec hquiet v) <| hor (arrayFromJSValue_spec hquiet hdecode v) <|
    hor (functionFromJSValue_spec hquiet context v) <|
    hor (errorFromJSValue_spec hquiet ext hdecode v) <|
    hor (classInit_spec hquiet context v) <| dictionaryFromJSValue_spec hquiet ext hdecode v

/-- The attempts after the exception. -/
theorem attemptsFromJSValue_spec (ext : Externals) (context : ℕ)
    (hdecode : Decodes S meanwhile decode) (v : Handle) :
    Books S meanwhile Idle (attemptsFromJSValue ext context decode v) S.wrapped
      fun x s => (∀ n, x = some (.int n) → v.owned = none) ∧ Idle s := by
  unfold attemptsFromJSValue
  split
  · exact Accounts.stop
  · next x hx =>
    refine Accounts.ret ?_ fun s hs => ⟨fun n hn => ?_, hs⟩
    · show S.wrapping (wrappers x) = 0
      rw [wrappers_of_primitive hx, S.wrapping_nil]
    · rw [hn] at hx
      exact owned_of_primitive hx
  · exact (objectFromJSValue_spec hquiet ext context hdecode v).mono (fun _ hs => hs)
      (fun _ => rfl) fun x s hs => ⟨fun n hn => absurd hn (hs.1 n), hs.2⟩

end Decode

/-- `toJSConvertible` accounts for what it returns, at every depth. -/
theorem toJSConvertible_spec (hquiet : Quiet S meanwhile) (ext : Externals) (context fuel : ℕ) :
    Decodes S meanwhile (toJSConvertible ext context fuel) := by
  induction fuel with
  | zero => exact fun v => Accounts.stop
  | succ fuel ih =>
      intro v
      unfold toJSConvertible
      split
      · next word hv =>
        have hexception : v.exception? = none := by
          unfold Handle.exception?
          rw [hv]
        refine Accounts.ret ?_ fun s hs => ⟨nofun, hs.idle hexception⟩
        rw [S.wrapped_none, S.raised_of_exception hexception, sub_zero]
      · have hhandle := handlePossibleException_spec hquiet ext ih v
        exact orElse_spec (hhandle.mono (fun _ hs => hs) (fun _ => rfl)
          fun x s hs => ⟨fun n hn => absurd hn (hs.2.1 n), hs.2.2⟩)
          (attemptsFromJSValue_spec hquiet ext context ih v)

/-! ## Encoding -/

/-- An encoded value is no exception, and nothing is pending. -/
def Encoded (v : Option Handle) (s : World) : Prop :=
  (∀ w, v = some w → w.exception? = none) ∧ Idle s

section Encode

variable (hquiet : Quiet S meanwhile) (context : ℕ)

include hquiet

theorem setErrorString_spec (errorValue : Handle) (field : String × Option String) :
    Books S meanwhile Idle (setErrorString errorValue field) (fun _ => 0) fun _ => Idle := by
  rcases field with ⟨name, _ | s⟩
  · exact Accounts.ret rfl fun s hs => hs
  · refine (jsNewString_spec s).bind fun v => Accounts.of_and fun _ => ?_
    refine (jsSetPropertyStr_spec hquiet errorValue name v).bind fun _ => ?_
    refine Accounts.ret ?_ fun s hs => hs
    abel

omit hquiet in
/-- A new value. -/
theorem fresh_spec {x : NativeCode Handle}
    (hx : Books S meanwhile Idle x S.held fun v s => v.exception? = none ∧ Idle s) :
    Books S meanwhile Idle
      (do
        let v ← x
        pure (some v))
      (fun v => v.elim 0 S.held) Encoded := by
  refine hx.bind fun v => Accounts.of_and fun hv => ?_
  refine Accounts.ret (sub_self _) fun s hs => ⟨fun w hw => ?_, hs⟩
  rw [← Option.some.inj hw]
  exact hv

omit hquiet in
/-- A new object that is filled. -/
theorem newObject_spec {fill : Handle → NativeCode Unit}
    (hfill : ∀ v, Books S meanwhile Idle (fill v) (fun _ => 0) fun _ => Idle) :
    Books S meanwhile Idle
      (do
        let v ← jsNewObject
        fill v
        pure (some v))
      (fun v => v.elim 0 S.held) Encoded := by
  refine jsNewObject_spec.bind fun v => Accounts.of_and fun hv => ?_
  refine (hfill v).bind fun _ => ?_
  refine Accounts.ret ?_ fun s hs => ⟨fun w hw => ?_, hs⟩
  · show S.held v - S.held v - 0 = 0
    abel
  · rw [← Option.some.inj hw]
    exact hv

omit hquiet in
/-- The reference of a wrapper is duplicated in its own context. -/
theorem dupWrapper_spec (ref owner : ℕ) :
    Books S meanwhile Idle
      (if owner = context then do
        jsDupValue (Handle.object ref)
        pure (some (Handle.object ref))
      else
        pure none)
      (fun v => v.elim 0 S.held) Encoded := by
  by_cases howner : owner = context
  · rw [if_pos howner]
    refine (jsDupValue_spec _).bind fun _ => ?_
    refine Accounts.ret (sub_self _) fun s hs => ⟨fun w hw => ?_, hs⟩
    rw [← Option.some.inj hw]
    rfl
  · rw [if_neg howner]
    exact Accounts.ret rfl fun s hs => ⟨nofun, hs⟩

omit hquiet in
/-- A value without a reference. -/
theorem plain_spec {v : Handle} (howned : v.owned = none) (hexception : v.exception? = none) :
    Books S meanwhile Idle (pure (some v)) (fun v => v.elim 0 S.held) Encoded := by
  refine Accounts.ret (S.held_of_owned howned) fun s hs => ⟨fun w hw => ?_, hs⟩
  rw [← Option.some.inj hw]
  exact hexception

omit hquiet in
theorem jsNewInt64_spec (n : Int64) :
    Books S meanwhile Idle (pure (some { value := jsNewInt64 n })) (fun v => v.elim 0 S.held)
      Encoded := by
  by_cases hn : -2 ^ 31 ≤ n.toInt ∧ n.toInt ≤ 2 ^ 31 - 1
  · have hint : jsNewInt64 n = .int n.toInt32 := if_pos hn
    rw [hint]
    exact plain_spec rfl rfl
  · have hdouble : jsNewInt64 n = .float64 (Binary.ofInt Binary.binary64 n.toInt) := if_neg hn
    rw [hdouble]
    exact plain_spec rfl rfl

mutual

/-- `toJSValue` accounts for the value that it returns. -/
theorem toJSValue_spec : ∀ x : JSConvertible,
    Books S meanwhile Idle (toJSValue context x) (fun v => v.elim 0 S.held) Encoded
  | .string s => by
      unfold toJSValue
      exact fresh_spec (jsNewString_spec s)
  | .bool b => by
      unfold toJSValue
      exact plain_spec rfl rfl
  | .nsNull => by
      unfold toJSValue
      exact plain_spec rfl rfl
  | .int n => by
      unfold toJSValue
      exact jsNewInt64_spec n
  | .double d => by
      unfold toJSValue
      exact plain_spec rfl rfl
  | .date ms => by
      unfold toJSValue
      exact fresh_spec jsNewObject_spec
  | .array elements => by
      unfold toJSValue
      exact newObject_spec fun v => setElements_spec elements 0 v
  | .dictionary entries => by
      unfold toJSValue
      exact newObject_spec fun v => setEntries_spec entries v
  | .jsFunction value owner name => by
      unfold toJSValue
      exact dupWrapper_spec context value owner
  | .jsClass value owner className => by
      unfold toJSValue
      exact dupWrapper_spec context value owner
  | .jsError name message cause stack => by
      unfold toJSValue
      refine newObject_spec fun v => ?_
      refine (Accounts.each _ fun field _ => setErrorString_spec hquiet v field).congr fun _ => ?_
      rfl

theorem setElements_spec : ∀ (elements : List JSConvertible) (i : ℕ) (array : Handle),
    Books S meanwhile Idle (setElements context elements i array) (fun _ => 0) fun _ => Idle
  | [], i, array => Accounts.ret rfl fun s hs => hs
  | x :: elements, i, array => by
      unfold setElements
      refine (toJSValue_spec x).bind fun v => Accounts.of_and fun hv => ?_
      by_cases hi : i < 2 ^ 32
      · rw [if_pos hi]
        refine (jsSetPropertyUint32_spec hquiet array i _).bind fun _ => ?_
        refine (setElements_spec elements (i + 1) array).congr fun _ => ?_
        cases v with
        | none => simp [S.held_of_owned (rfl : Handle.undefined.owned = none)]
        | some v => simp
      · rw [if_neg hi]
        exact Accounts.stop

theorem setEntries_spec : ∀ (entries : List (String × JSConvertible)) (obj : Handle),
    Books S meanwhile Idle (setEntries context entries obj) (fun _ => 0) fun _ => Idle
  | [], obj => Accounts.ret rfl fun s hs => hs
  | (key, x) :: entries, obj => by
      unfold setEntries
      refine (toJSValue_spec x).bind fun v => Accounts.of_and fun hv => ?_
      cases v with
      | none => exact (setEntries_spec entries obj).congr fun _ => (sub_zero _).symm
      | some v =>
          refine (jsSetPropertyStr_spec hquiet obj key v).bind fun _ => ?_
          refine (setEntries_spec entries obj).congr fun _ => ?_
          simp

end

theorem encode_spec {fallback : Handle} (howned : fallback.owned = none)
    (hexception : fallback.exception? = none) (x : Option JSConvertible) :
    Books S meanwhile Idle (encode context fallback x) S.held
      fun v s => v.exception? = none ∧ Idle s := by
  cases x with
  | none => exact Accounts.ret (S.held_of_owned howned) fun s hs => ⟨hexception, hs⟩
  | some x =>
      refine (toJSValue_spec hquiet context x).bind fun v => Accounts.of_and fun hv => ?_
      cases v with
      | none =>
          refine Accounts.ret ?_ fun s hs => ⟨hexception, hs⟩
          rw [Option.getD_none, S.held_of_owned howned]
          exact sub_self _
      | some v => exact Accounts.ret (sub_self _) fun s hs => ⟨hv v rfl, hs⟩

end Encode

/-! ## Operations -/

namespace Scheme

variable (S)

/-- The amount of a method cache. -/
def cached (methods : Option (List (String × JSConvertible))) : κ → ℤ :=
  S.wrapped (methods.map .dictionary)

/-- What an operation accounts for: the wrappers in its result and those that are new in the
    method cache, or the value that it hands over. -/
def kept (op : Operation) : Returned → κ → ℤ
  | .value x => S.wrapped x
  | .called x methods => S.wrapped x + S.cached methods - S.cached op.cache
  | .handle v => S.held v
  | _ => 0

end Scheme

section Operations

variable (hquiet : Quiet S meanwhile) (ext : Externals) (context fuel : ℕ)

include hquiet

theorem decode_spec (v : Handle) :
    Books S meanwhile (Outstanding v) (toJSConvertible ext context fuel v)
      (fun x => S.wrapped x - S.raised v) fun _ => Idle :=
  (toJSConvertible_spec hquiet ext context fuel v).mono (fun _ hs => hs) (fun _ => rfl)
    fun _ _ hs => hs.2

/-- A value that comes up where it is looked at is converted and freed. -/
theorem converted_spec {site : Site} (hchecked : site.isChecked = true)
    (hleaks : site.leaks = false) {x : NativeCode Handle}
    (hx : Books S meanwhile Idle x (S.worth site) (After site)) :
    Books S meanwhile Idle
      (do
        let r ← x
        let y ← toJSConvertible ext context fuel r
        jsFreeValue r
        pure y)
      S.wrapped fun _ => Idle := by
  refine hx.bind fun r => ?_
  have hafter : After site r = Outstanding r := by
    funext s
    exact if_pos hchecked
  rw [hafter]
  refine (decode_spec hquiet ext context fuel r).bind fun y => ?_
  refine (jsFreeValue_spec r).bind fun _ => ?_
  refine Accounts.ret ?_ fun s hs => hs
  unfold Scheme.worth
  rw [hchecked, hleaks, if_neg Bool.false_ne_true, if_pos rfl]
  abel

theorem evaluate_spec (script : String) :
    Books S meanwhile Idle (evaluate ext context fuel script) S.wrapped fun _ => Idle :=
  converted_spec hquiet ext context fuel rfl rfl (jsEval_spec hquiet .evaluate script)

theorem value_spec (keyPath : String) :
    Books S meanwhile Idle (value ext context fuel keyPath) S.wrapped fun _ => Idle := by
  unfold value
  by_cases hempty : keyPath.isEmpty = true
  · rw [if_pos hempty]
    exact Accounts.ret rfl fun s hs => hs
  · rw [if_neg hempty]
    exact evaluate_spec hquiet ext context fuel keyPath

/-- The values of a list are encoded. -/
theorem encodeAll_spec (args : List JSConvertible) :
    Books S meanwhile Idle (Code.collect (fun x => encode context Handle.null (some x)) args)
      (fun vs => (vs.map S.held).sum) fun _ => Idle :=
  Accounts.collect args fun x _ =>
    (encode_spec hquiet context rfl rfl (some x)).mono (fun _ hs => hs) (fun _ => rfl)
      fun _ _ hs => hs.2

omit hquiet in
theorem freeAll_spec (vs : List Handle) :
    Books S meanwhile Idle (Code.each jsFreeValue vs) (fun _ => -(vs.map S.held).sum)
      fun _ => Idle := by
  refine (Accounts.each vs fun v _ => jsFreeValue_spec v).congr fun _ => ?_
  induction vs with
  | nil => exact neg_zero.symm
  | cons v vs ih => rw [List.map_cons, List.sum_cons, ih, List.map_cons, List.sum_cons, neg_add]

theorem functionCall_spec (func thisObj : Handle) (args : Option (List JSConvertible)) :
    Books S meanwhile Idle (functionCall ext context fuel func thisObj args) S.wrapped
      fun _ => Idle := by
  unfold functionCall
  cases args with
  | none =>
      exact converted_spec hquiet ext context fuel rfl rfl
        (jsCall_spec hquiet .call func thisObj [])
  | some args =>
      refine (encodeAll_spec hquiet context args).bind fun valuesArray => ?_
      refine (jsCall_spec hquiet .call func thisObj valuesArray).bind fun jsResult => ?_
      refine (decode_spec hquiet ext context fuel jsResult).bind fun result => ?_
      refine (freeAll_spec valuesArray).bind fun _ => ?_
      refine (jsFreeValue_spec jsResult).bind fun _ => ?_
      refine Accounts.ret ?_ fun s hs => hs
      have hworth : S.worth .call jsResult = S.held jsResult + S.raised jsResult := rfl
      rw [hworth]
      abel

/-- What `JSClass.value(for:)` reads is a reference that is given up on. -/
theorem classValue_spec (object : Handle) (key : String) :
    Books S meanwhile Idle (classValue ext context fuel object key) S.wrapped fun _ => Idle := by
  refine (jsGetPropertyStr_spec hquiet .classValue object key).bind fun r => ?_
  refine (decode_spec hquiet ext context fuel r).congr fun x => ?_
  have hworth : S.worth .classValue r = S.raised r := zero_add _
  rw [hworth]

theorem classSetValue_spec (object : Handle) (x : Option JSConvertible) (key : String) :
    Books S meanwhile Idle (classSetValue context object x key) (fun _ => 0) fun _ => Idle := by
  refine (encode_spec hquiet context rfl rfl x).bind fun jsv => Accounts.of_and fun _ => ?_
  refine (jsSetPropertyStr_spec hquiet object key jsv).bind fun _ => ?_
  refine Accounts.ret ?_ fun s hs => hs
  abel

omit hquiet in
theorem eq_of_asMethods {x : Option JSConvertible} {methods : List (String × JSConvertible)}
    (h : asMethods x = some methods) : x = some (.dictionary methods) := by
  unfold asMethods at h
  split at h
  · split at h
    · rw [Option.some.inj h]
    · exact absurd h nofun
  · exact absurd h nofun

/-- The method cache is filled, or what was read is dropped. -/
theorem populateMethods_spec (builtIn : Option Handle) (globalRef object : Handle)
    (methods : Option (List (String × JSConvertible))) :
    Books S meanwhile Idle (populateMethods ext context fuel builtIn globalRef object methods)
      (fun methods' => S.cached methods' - S.cached methods) fun _ => Idle := by
  unfold populateMethods
  cases methods with
  | some methods => exact Accounts.ret (sub_self _) fun s hs => hs
  | none =>
      cases builtIn with
      | none => exact Accounts.ret (sub_self _) fun s hs => hs
      | some function =>
          refine (jsCall_spec hquiet .instanceMethodNames function globalRef [object]).bind
            fun r => ?_
          refine (decode_spec hquiet ext context fuel r).bind fun x => ?_
          refine (jsFreeValue_spec r).bind fun _ => ?_
          have hworth : S.worth .instanceMethodNames r = S.held r + S.raised r := rfl
          have hnone : S.cached none = 0 := rfl
          split
          · next methods hmethods =>
            refine Accounts.ret ?_ fun s hs => hs
            have hcached : S.cached (some methods) = S.wrapped x := by
              rw [eq_of_asMethods hmethods]
              rfl
            rw [hcached, hworth, hnone]
            abel
          · refine (drop_spec x).bind fun _ => ?_
            refine Accounts.ret ?_ fun s hs => hs
            rw [hworth, hnone]
            abel

theorem classCall_spec (builtIn : Option Handle) (globalRef object : Handle)
    (methods : Option (List (String × JSConvertible))) (method : String)
    (args : Option (List JSConvertible)) :
    Books S meanwhile Idle
      (classCall ext context fuel builtIn globalRef object methods method args)
      (fun x => S.wrapped x.1 + S.cached x.2 - S.cached methods) fun _ => Idle := by
  refine (populateMethods_spec hquiet ext context fuel builtIn globalRef object methods).bind
    fun methods' => ?_
  split
  · next function _ _ _ =>
    refine (functionCall_spec hquiet ext context fuel (Handle.object function) object args).bind
      fun result => ?_
    refine Accounts.ret ?_ fun s hs => hs
    abel
  · refine Accounts.ret ?_ fun s hs => hs
    rw [S.wrapped_none]
    abel

/-- An exception is handled, and the error dropped. -/
theorem handled_spec (v : Handle) :
    Books S meanwhile (Outstanding v)
      (handlePossibleException ext (toJSConvertible ext context fuel) v) (fun _ => -S.raised v)
      fun _ => Idle := by
  have hdecode := toJSConvertible_spec hquiet ext context fuel
  refine ((handlePossibleException_spec hquiet ext hdecode v).congr_of_post
    fun x _ hs => ?_).mono (fun _ hs => hs) (fun _ => rfl) fun _ _ hs => hs.2.2
  rw [hs.wrapped_eq, zero_sub]

theorem setValue_spec (globalRef : Handle) (x : Option JSConvertible) (keyPath : String) :
    Books S meanwhile Idle (setValue ext context fuel globalRef x keyPath) (fun _ => 0)
      fun _ => Idle := by
  unfold setValue
  by_cases hempty : keyPath.isEmpty = true
  · rw [if_pos hempty]
    exact Accounts.ret rfl fun s hs => hs
  · rw [if_neg hempty]
    refine (encode_spec hquiet context rfl rfl x).bind fun v => Accounts.of_and fun _ => ?_
    by_cases hpath : (splitKeyPath keyPath).1.isEmpty = true
    · rw [if_pos hpath]
      refine (jsSetPropertyStr_spec hquiet globalRef _ v).bind fun _ => ?_
      refine Accounts.ret ?_ fun s hs => hs
      abel
    · rw [if_neg hpath]
      refine (jsEval_spec hquiet .path (splitKeyPath keyPath).1).bind fun pathValue => ?_
      refine (handled_spec hquiet ext context fuel pathValue).bind fun error => ?_
      refine (jsSetPropertyStr_spec hquiet pathValue _ v).bind fun _ => ?_
      refine (jsFreeValue_spec pathValue).bind fun _ => ?_
      refine Accounts.ret ?_ fun s hs => hs
      have hworth : S.worth .path pathValue = S.held pathValue + S.raised pathValue := rfl
      rw [hworth]
      abel

/-! ## Exports -/

theorem isExported_spec (globalRef : Handle) (name : String) :
    Books S meanwhile Idle (isExported globalRef name) (fun _ => 0) fun _ => Idle :=
  (jsHasProperty_spec hquiet globalRef name).bind fun _ =>
    Accounts.ret (sub_zero _) fun _ hs => hs

theorem exportMethod_spec (owner : Handle) (key : String) :
    Books S meanwhile Idle (exportMethod owner key) (fun _ => 0) fun _ => Idle := by
  refine jsNewObject_spec.bind fun method => Accounts.of_and fun _ => ?_
  refine (jsSetPropertyStr_spec hquiet owner key method).bind fun _ => ?_
  refine Accounts.ret ?_ fun s hs => hs
  abel

omit hquiet in
theorem newSetter_spec (settable : Bool) :
    Books S meanwhile Idle (newSetter settable) S.held fun _ => Idle := by
  unfold newSetter
  by_cases hset : settable = true
  · rw [if_pos hset]
    exact jsNewObject_spec.mono (fun _ hs => hs) (fun _ => rfl) fun _ _ hs => hs.2
  · rw [if_neg hset]
    exact Accounts.ret (S.held_of_owned rfl) fun s hs => hs

theorem exportProperty_spec (owner : Handle) (property : String × Bool) :
    Books S meanwhile Idle (exportProperty owner property) (fun _ => 0) fun _ => Idle := by
  refine jsNewObject_spec.bind fun getter => Accounts.of_and fun _ => ?_
  refine (newSetter_spec property.2).bind fun setter => ?_
  refine (defineProperty_spec hquiet owner property.1).bind fun _ => ?_
  refine (jsFreeValue_spec getter).bind fun _ => ?_
  refine (jsFreeValue_spec setter).congr fun _ => ?_
  abel

omit hquiet in
/-- A loop in which each round comes out even. -/
theorem even_spec {α : Type} {f : α → NativeCode Unit} (xs : List α)
    (h : ∀ x, Books S meanwhile Idle (f x) (fun _ => 0) fun _ => Idle) :
    Books S meanwhile Idle (Code.each f xs) (fun _ => 0) fun _ => Idle := by
  refine (Accounts.each xs fun x _ => h x).congr fun _ => ?_
  induction xs with
  | nil => rfl
  | cons x xs ih => rw [List.map_cons, List.sum_cons, ih, add_zero]

theorem exportType_spec (globalRef : Handle) (names : TypeNames) (className : String) :
    Books S meanwhile Idle (exportType globalRef names className) (fun _ => 0) fun _ => Idle := by
  refine (isExported_spec hquiet globalRef className).bind fun exported => ?_
  by_cases hexported : exported = true
  · rw [if_pos hexported]
    exact Accounts.ret (sub_zero _) fun s hs => hs
  · rw [if_neg hexported]
    refine jsNewObject_spec.bind fun instanceProto => Accounts.of_and fun _ => ?_
    refine jsNewObject_spec.bind fun constructor => Accounts.of_and fun _ => ?_
    have hdefine : Books S meanwhile Idle
        (request (.definePropertyValueStr globalRef className constructor))
        (fun _ => -S.held constructor) fun _ => Idle :=
      books_running hquiet rfl fun _ _ _ _ hs h => consumes_spec rfl h hs
    refine hdefine.bind fun _ => ?_
    refine (defineProperty_spec hquiet constructor "prototype").bind fun _ => ?_
    refine (defineProperty_spec hquiet instanceProto "constructor").bind fun _ => ?_
    refine (native_spec hquiet).bind fun _ => ?_
    refine (even_spec _ (exportMethod_spec hquiet instanceProto)).bind fun _ => ?_
    have hproto : Books S meanwhile Idle (request (.setClassProto instanceProto))
        (fun _ => -S.held instanceProto) fun _ => Idle := by
      refine books_still rfl fun s es a t hs h => ?_
      rcases h with ⟨rfl, rfl⟩
      exact ⟨S.sum_gave instanceProto, hs⟩
    refine hproto.bind fun _ => ?_
    refine (native_spec hquiet).bind fun _ => ?_
    refine (even_spec _ (exportMethod_spec hquiet constructor)).bind fun _ => ?_
    refine (even_spec _ (exportProperty_spec hquiet constructor)).congr fun _ => ?_
    abel

theorem ensureExported_spec (globalRef : Handle) (names : TypeNames) (className : String) :
    Books S meanwhile Idle (ensureExported globalRef names className) (fun _ => 0)
      fun _ => Idle := by
  refine (isExported_spec hquiet globalRef className).bind fun exported => ?_
  by_cases hexported : exported = true
  · rw [if_pos hexported]
    exact Accounts.ret (sub_zero _) fun s hs => hs
  · rw [if_neg hexported]
    exact (exportType_spec hquiet globalRef names className).congr fun _ => (sub_zero _).symm

theorem exportInstance_spec (globalRef : Handle) (names : TypeNames)
    (className variableName : String) (found : Bool) :
    Books S meanwhile Idle
      (exportInstance ext context fuel globalRef names className variableName found) S.wrapped
      fun _ => Idle := by
  refine (ensureExported_spec hquiet globalRef names className).bind fun _ => ?_
  by_cases hfound : found = true
  · rw [if_pos hfound]
    refine (jsEval_spec hquiet .letNew _).bind fun r => ?_
    refine (handled_spec hquiet ext context fuel r).bind fun error => ?_
    refine (classInit_spec hquiet context r).bind fun result => ?_
    refine (jsFreeValue_spec r).bind fun _ => ?_
    refine Accounts.ret ?_ fun s hs => hs.2
    have hworth : S.worth .letNew r = S.held r + S.raised r := rfl
    rw [hworth]
    abel
  · rw [if_neg hfound]
    exact Accounts.ret (sub_zero _) fun s hs => hs

/-- `export(name:function:)` frees the function once more than it owns it. -/
theorem exportFunction_spec (hcell : S.cell = 0) (globalRef : Handle) (name : String) :
    Books S meanwhile Idle (exportFunction context globalRef name) S.wrapped fun _ => Idle := by
  refine (isExported_spec hquiet globalRef name).bind fun exported => ?_
  by_cases hexported : exported = true
  · rw [if_pos hexported]
    exact Accounts.ret (sub_zero _) fun s hs => hs
  · rw [if_neg hexported]
    refine jsNewObject_spec.bind fun newFunction => Accounts.of_and fun _ => ?_
    refine (jsSetPropertyStr_spec hquiet globalRef name newFunction).bind fun _ => ?_
    refine (functionInit_spec hquiet context newFunction).bind fun result => ?_
    refine (jsFreeValue_spec newFunction).bind fun _ => ?_
    refine Accounts.ret ?_ fun s hs => hs.2
    have hheld : S.held newFunction = 0 := by
      unfold Scheme.held
      rw [hcell]
      cases newFunction.owned with
      | none => rfl
      | some c => rfl
    rw [hheld]
    abel

/-! ## Callbacks -/

/-- A value is handed over, or its exception is pending. -/
def Handed (v : Handle) (s : World) : Prop := v.exception? = none → Idle s

omit hquiet in
theorem Handed.caught {v : Handle} {s : World} (h : Handed v s) :
    Idle (s.caught (.handle v)) := by
  have hcaught : s.caught (.handle v)
      = if v.exception?.isSome then { s with pending := none } else s := rfl
  rw [hcaught]
  by_cases hv : v.exception?.isSome = true
  · rw [if_pos hv]
    exact fun _ => rfl
  · rw [if_neg hv]
    exact h (Option.not_isSome_iff_eq_none.mp hv)

theorem jsArgsToTypes_spec {argv : List Handle} (hargv : ∀ v ∈ argv, v.exception? = none) :
    Books S meanwhile Idle (jsArgsToTypes ext context fuel argv)
      (fun args => S.wrapping (wrappersOfElements args)) fun _ => Idle := by
  have hone : ∀ v ∈ argv, Books S meanwhile Idle
      (do
        let x ← toJSConvertible ext context fuel v
        pure (x.getD .nsNull))
      (fun x => S.wrapped (some x)) fun _ => Idle := by
    intro v hv
    have hdecode := (decode_spec hquiet ext context fuel v).mono
      (fun _ hs => Idle.outstanding hs (hargv v hv)) (fun _ => rfl) fun _ _ hs => hs
    refine hdecode.bind fun x => ?_
    refine Accounts.ret ?_ fun s hs => hs
    rw [S.raised_of_exception (hargv v hv), wrapped_getD]
    abel
  refine (Accounts.collect argv hone).congr fun args => ?_
  exact (wrapping_elements args).symm

theorem throwJSError_spec (localizedDescription : String) :
    Books S meanwhile Idle (throwJSError context localizedDescription) S.held Handed := by
  refine (toJSValue_spec hquiet context _).bind fun errorValue => Accounts.of_and fun _ => ?_
  refine books_still rfl fun s es v t _ h => ?_
  rcases h with ⟨hexception, rfl, rfl⟩
  refine ⟨?_, fun hnone => ?_⟩
  · rw [S.sum_gave, S.held_of_owned (Handle.owned_of_exception hexception), zero_sub]
    cases errorValue with
    | none => exact congrArg _ (S.held_of_owned rfl)
    | some errorValue => rfl
  · rw [hexception] at hnone
    exact absurd hnone nofun

theorem returnJSValueRef_spec (args : List JSConvertible) :
    Books S meanwhile Idle (returnJSValueRef context args) S.held Handed := by
  refine (closure_spec hquiet args).bind fun a => ?_
  cases a with
  | ok x =>
      exact (encode_spec hquiet context rfl rfl x).mono (fun _ hs => hs)
        (fun _ => (sub_zero _).symm) fun _ _ hs _ => hs.2
  | error localizedDescription =>
      exact (throwJSError_spec hquiet context localizedDescription).congr
        fun _ => (sub_zero _).symm

theorem returnSetterRef_spec (arg : Option JSConvertible) :
    Books S meanwhile Idle (returnSetterRef context arg) S.held Handed := by
  refine (closure_spec hquiet arg.toList).bind fun a => ?_
  cases a with
  | ok x =>
      refine Accounts.ret ?_ fun s hs _ => hs
      rw [S.held_of_owned rfl, sub_zero]
  | error localizedDescription =>
      exact (throwJSError_spec hquiet context localizedDescription).congr
        fun _ => (sub_zero _).symm

omit hquiet in
theorem guardFound_spec {found : Bool} {code : NativeCode Handle}
    (h : Books S meanwhile Idle code S.held Handed) :
    Books S meanwhile Idle (guardFound found code) S.held Handed := by
  unfold guardFound
  by_cases hfound : found = true
  · rw [if_pos hfound]
    exact h
  · rw [if_neg hfound]
    exact Accounts.ret (S.held_of_owned rfl) fun s hs _ => hs

/-- The arguments are released when the callback is done. -/
theorem withArguments_spec {argv : List Handle} (hargv : ∀ v ∈ argv, v.exception? = none)
    {code : List JSConvertible → NativeCode Handle}
    (hcode : ∀ args, Books S meanwhile Idle (code args) S.held Handed) :
    Books S meanwhile Idle
      (do
        let args ← jsArgsToTypes ext context fuel argv
        let result ← code args
        release (wrappersOfElements args)
        pure result)
      S.held Handed := by
  refine (jsArgsToTypes_spec hquiet ext context fuel hargv).bind fun args => ?_
  refine (hcode args).bind fun result => ?_
  refine (release_spec _).bind fun _ => ?_
  refine Accounts.ret ?_ fun s hs => hs
  abel

theorem typedCall_spec (found : Bool) {argv : List Handle}
    (hargv : ∀ v ∈ argv, v.exception? = none) :
    Books S meanwhile Idle (typedCall ext context fuel found argv) S.held Handed :=
  withArguments_spec hquiet ext context fuel hargv fun args =>
    guardFound_spec (returnJSValueRef_spec hquiet context args)

theorem typedGetter_spec (found : Bool) :
    Books S meanwhile Idle (typedGetter context found) S.held Handed :=
  guardFound_spec (returnJSValueRef_spec hquiet context [])

theorem typedSetter_spec (found : Bool) {arg : Handle} (harg : arg.exception? = none) :
    Books S meanwhile Idle (typedSetter ext context fuel found arg) S.held Handed := by
  have hdecode := (decode_spec hquiet ext context fuel arg).mono
    (fun _ hs => Idle.outstanding hs harg) (fun _ => rfl) fun _ _ hs => hs
  refine hdecode.bind fun x => ?_
  refine (guardFound_spec (returnSetterRef_spec hquiet context x)).bind fun result => ?_
  refine (drop_spec x).bind fun _ => ?_
  refine Accounts.ret ?_ fun s hs => hs
  rw [S.raised_of_exception harg]
  abel

theorem construct_spec (waiting : Bool) (args : List JSConvertible) :
    Books S meanwhile Idle (construct waiting args) (fun _ => 0) fun _ => Idle := by
  unfold construct
  by_cases hwaiting : waiting = true
  · rw [if_pos hwaiting]
    exact Accounts.ret rfl fun s hs => hs
  · rw [if_neg hwaiting]
    exact closure_spec hquiet args

theorem constructInstance_spec (waiting : Bool) (exportedProperties : List (String × Bool))
    (thisObj : Handle) (args : List JSConvertible) :
    Books S meanwhile Idle (constructInstance context waiting exportedProperties thisObj args)
      S.held Handed := by
  have hcreate : Books S meanwhile Idle (jsCreateFromCtor thisObj) S.held fun _ => Idle :=
    books_running hquiet rfl fun s es v t hs h => by
      rcases returns_spec (S := S) h hs with ⟨hsum, ht⟩
      exact ⟨hsum.trans (add_zero _), ht⟩
  refine hcreate.bind fun result => ?_
  refine (native_spec hquiet).bind fun _ => ?_
  refine (jsSetPropertyStr_spec hquiet result "__instanceAtom" _).bind fun _ => ?_
  refine (construct_spec hquiet waiting args).bind fun a => ?_
  have hint : S.held { value := .int 0 } = 0 := S.held_of_owned rfl
  rw [hint]
  cases a with
  | error localizedDescription =>
      refine (jsFreeValue_spec result).bind fun _ => ?_
      refine (throwJSError_spec hquiet context localizedDescription).congr fun v => ?_
      abel
  | ok x =>
      refine (even_spec _ (exportProperty_spec hquiet result)).bind fun _ => ?_
      refine Accounts.ret ?_ fun s hs _ => hs
      abel

theorem typedConstruct_spec (found waiting : Bool) (exportedProperties : List (String × Bool))
    (thisObj : Handle) {argv : List Handle} (hargv : ∀ v ∈ argv, v.exception? = none) :
    Books S meanwhile Idle
      (typedConstruct ext context fuel found waiting exportedProperties thisObj argv)
      S.held Handed :=
  withArguments_spec hquiet ext context fuel hargv fun args =>
    guardFound_spec (constructInstance_spec hquiet context waiting exportedProperties thisObj args)

/-- The number of the instance is given up on. -/
theorem typedInstanceMethod_spec (named found : Bool) (thisObj : Handle) {argv : List Handle}
    (hargv : ∀ v ∈ argv, v.exception? = none) :
    Books S meanwhile Idle (typedInstanceMethod ext context fuel named found thisObj argv)
      S.held Handed := by
  refine guardFound_spec ?_
  refine (jsGetPropertyStr_spec hquiet .instanceAtom thisObj "__instanceAtom").bind
    fun classIDValue => ?_
  have hask : Books S meanwhile Idle (request (.toInt32 classIDValue)) (fun _ => 0)
      fun _ => Idle := books_running hquiet rfl fun _ _ _ _ hs h => answers_spec rfl h hs
  refine hask.bind fun _ => ?_
  refine (guardFound_spec (withArguments_spec hquiet ext context fuel hargv fun args =>
    returnJSValueRef_spec hquiet context args)).congr fun v => ?_
  have hworth : S.worth .instanceAtom classIDValue = 0 := zero_add _
  rw [hworth]
  abel

end Operations

/-! ## All operations -/

/-- What the result of an operation is made of. -/
theorem returned_spec {op : Operation} {α : Type} (wrap : α → Returned) {x : NativeCode α}
    {amount : α → κ → ℤ} {post : α → World → Prop} (hx : Books S meanwhile Idle x amount post)
    (hamount : ∀ a, amount a = S.kept op (wrap a))
    (hpost : ∀ a s, post a s → Idle (s.caught (wrap a))) :
    Books S meanwhile Idle
      (do
        let a ← x
        pure (wrap a))
      (S.kept op) fun r s => Idle (s.caught r) := by
  refine hx.bind fun a => ?_
  refine Accounts.ret ?_ fun s hs => hpost a s hs
  rw [hamount, sub_self]

/-- Each operation accounts for what it keeps, and leaves nothing pending. -/
theorem code_spec (hquiet : Quiet S meanwhile) (e : Setting) (op : Operation)
    (hop : ∀ name, op = .exportFunction name → S.cell = 0) :
    Books S meanwhile Idle (op.code e) (S.kept op) fun r s => Idle (s.caught r) := by
  have hargs (argv : List Argument) : ∀ v ∈ argv.map Subtype.val, v.exception? = none := by
    intro v hv
    rcases List.mem_map.mp hv with ⟨a, _, rfl⟩
    exact a.2
  cases op with
  | evaluate script =>
      have hcode := evaluate_spec hquiet e.ext e.context e.fuel script
      exact returned_spec .value hcode (fun _ => rfl) fun _ _ hs => hs
  | value keyPath =>
      have hcode := value_spec hquiet e.ext e.context e.fuel keyPath
      exact returned_spec .value hcode (fun _ => rfl) fun _ _ hs => hs
  | setValue x keyPath =>
      have hcode := setValue_spec hquiet e.ext e.context e.fuel e.globalRef x keyPath
      exact returned_spec .bool hcode (fun _ => rfl) fun _ _ hs => hs
  | exportInstance names className variableName found =>
      have hcode := exportInstance_spec hquiet e.ext e.context e.fuel e.globalRef names className
        variableName found
      exact returned_spec .value hcode (fun _ => rfl) fun _ _ hs => hs
  | functionCall func thisObj args =>
      have hcode := functionCall_spec hquiet e.ext e.context e.fuel func thisObj args
      exact returned_spec .value hcode (fun _ => rfl) fun _ _ hs => hs
  | classValue object key =>
      have hcode := classValue_spec hquiet e.ext e.context e.fuel object key
      exact returned_spec .value hcode (fun _ => rfl) fun _ _ hs => hs
  | classSetValue object x key =>
      have hcode := classSetValue_spec hquiet e.context object x key
      exact returned_spec (fun _ => .void) hcode (fun _ => rfl) fun _ _ hs => hs
  | classCall builtIn object methods method args =>
      have hcode := classCall_spec hquiet e.ext e.context e.fuel builtIn e.globalRef object methods
        method args
      refine returned_spec (fun x => .called x.1 x.2) hcode (fun _ => ?_) fun _ _ hs => hs
      rfl
  | exportFunction name =>
      have hcode := exportFunction_spec hquiet e.context (hop name rfl) e.globalRef name
      exact returned_spec .value hcode (fun _ => rfl) fun _ _ hs => hs
  | exportType names className =>
      have hcode := exportType_spec hquiet e.globalRef names className
      exact returned_spec (fun _ => .void) hcode (fun _ => rfl) fun _ _ hs => hs
  | typedCall found argv =>
      have hcode := typedCall_spec hquiet e.ext e.context e.fuel found (hargs argv)
      exact returned_spec .handle hcode (fun _ => rfl) fun _ _ hs => hs.caught
  | typedGetter found =>
      have hcode := typedGetter_spec hquiet e.context found
      exact returned_spec .handle hcode (fun _ => rfl) fun _ _ hs => hs.caught
  | typedSetter found arg =>
      have hcode := typedSetter_spec hquiet e.ext e.context e.fuel found arg.2
      exact returned_spec .handle hcode (fun _ => rfl) fun _ _ hs => hs.caught
  | typedConstruct found waiting exportedProperties thisObj argv =>
      have hcode := typedConstruct_spec hquiet e.ext e.context e.fuel found waiting
        exportedProperties thisObj (hargs argv)
      exact returned_spec .handle hcode (fun _ => rfl) fun _ _ hs => hs.caught
  | typedInstanceMethod named found thisObj argv =>
      have hcode := typedInstanceMethod_spec hquiet e.ext e.context e.fuel named found thisObj
        (hargs argv)
      exact returned_spec .handle hcode (fun _ => rfl) fun _ _ hs => hs.caught

end Accounts

end Calls

end Substrata
