import Substrata.Theory.Accounting
import Substrata.Theory.RoundTrip
import Mathlib.Data.List.Perm.Basic

/-!
# Which exceptions are delivered

An exception that reaches native code should be handed to the exception handler, once, and
not stay pending. It does where the code looks at the value: `toJSConvertible` and
`handlePossibleException` take it from the engine and call the handler. In other places the
code passes over the failure. The exception is then handed to nobody, and stays pending
after the operation.

Each exception has a number, and an account of its own: it is opened where the exception
comes up and is looked for, and closed by the handler. The accounts of native code come out
even over every run, so the handler is called for those that are looked for, once each. The
rest follows from what was not looked for. `tracks_of_nested` says that the world keeps
record of that, however deep operations are nested.

## Main definitions

* `exceptions`, `handled`, `missed`: What came up, what the handler was called for, and what
  came up where it is not looked for.
* `Delivered`: The handler was called once for each exception, and none is pending.
* `perException`: An account for each exception.

## Theorems

* `quiet_perException`: What happens meanwhile is settled, at every depth.
* `count_handled`: The handler is called for what is looked for.
* `delivered_iff_checked`: Exceptions are delivered exactly when all of them come up where
  they are looked for.
* `exists_undelivered`: The value of `Symbol()`, as the result of a script.
-/

namespace Substrata

namespace Calls

open Interaction (Accounts Run Code)

/-! ## What came up, and what was handled -/

/-- The exceptions that reached native code. -/
def exceptions (es : List Event) : List ℕ :=
  es.filterMap fun event => match event with
    | .raised _ n => some n
    | _ => none

/-- What the exception handler was called for. -/
def handled (es : List Event) : List ℕ :=
  es.filterMap fun event => match event with
    | .handled n => some n
    | _ => none

/-- The exceptions that came up where one is looked for. -/
def looked (es : List Event) : List ℕ :=
  es.filterMap fun event => match event with
    | .raised site n => if site.isChecked then some n else none
    | _ => none

/-- The exceptions that came up where none is looked for. -/
def missed (es : List Event) : List ℕ :=
  es.filterMap fun event => match event with
    | .raised site n => if site.isChecked then none else some n
    | _ => none

/-- The handler was called once for each exception and for nothing else, and no exception
    is pending. -/
structure Delivered (es : List Event) (t : World) : Prop where
  once : (handled es).Perm (exceptions es)
  idle : t.pending = none

theorem missed_append (es fs : List Event) : missed (es ++ fs) = missed es ++ missed fs :=
  List.filterMap_append

theorem length_exceptions (es : List Event) :
    (exceptions es).length = (looked es).length + (missed es).length := by
  induction es with
  | nil => rfl
  | cons event es ih =>
      unfold exceptions looked missed at ih ⊢
      cases event with
      | raised site n =>
          by_cases hsite : site.isChecked = true
          · simp only [List.filterMap_cons, hsite, if_true, List.length_cons]
            omega
          · simp only [List.filterMap_cons, hsite, if_false, Bool.false_eq_true,
              List.length_cons]
            omega
      | _ => exact ih

/-- Nothing was missed when every exception came up where one is looked for. -/
theorem missed_eq_nil_iff (es : List Event) :
    missed es = [] ↔ ∀ site n, Event.raised site n ∈ es → site.isChecked = true := by
  unfold missed
  rw [List.filterMap_eq_nil_iff]
  constructor
  · intro h site n hmem
    by_contra hsite
    have hnone : (if site.isChecked = true then none else some n) = none := h _ hmem
    rw [if_neg hsite] at hnone
    exact absurd hnone nofun
  · intro h event hmem
    cases event with
    | raised site n => exact if_pos (h site n hmem)
    | _ => rfl

/-- Where nothing was missed, what came up was looked for. -/
theorem exceptions_eq_looked {es : List Event} (h : missed es = []) :
    exceptions es = looked es := by
  unfold exceptions looked
  refine List.filterMap_congr fun event hmem => ?_
  cases event with
  | raised site n => exact (if_pos ((missed_eq_nil_iff es).mp h site n hmem)).symm
  | _ => rfl

/-! ## The accounts -/

/-- An account for each exception. -/
def perException : Scheme ℕ where
  cell _ := 0
  exception n k := if n = k then 1 else 0

/-- Values are on no account. -/
theorem perException_wrapping (refs : List ℕ) : perException.wrapping refs = 0 := by
  unfold Scheme.wrapping
  induction refs with
  | nil => rfl
  | cons ref refs ih =>
      rw [List.map_cons, List.sum_cons, ih]
      rfl

theorem perException_held (v : Handle) : perException.held v = 0 := by
  unfold Scheme.held
  cases v.owned with
  | none => rfl
  | some c => rfl

theorem perException_kept (op : Operation) (r : Returned) : perException.kept op r = 0 := by
  cases r with
  | value x => exact perException_wrapping _
  | called x methods =>
      show perException.wrapping _ + perException.wrapping _ - perException.wrapping _ = 0
      rw [perException_wrapping, perException_wrapping, perException_wrapping]
      rfl
  | handle v => exact perException_held v
  | _ => rfl

/-- An account moves with what is looked for and what is handled. -/
theorem sum_perException (es : List Event) (k : ℕ) :
    (es.map perException.net).sum k = ((looked es).count k : ℤ) - (handled es).count k := by
  induction es with
  | nil => rfl
  | cons event es ih =>
      rw [List.map_cons, List.sum_cons, Pi.add_apply, ih]
      unfold looked handled
      cases event with
      | got site c =>
          have hnet : perException.net (.got site c) = 0 := by
            show (if site.leaks = true then 0 else perException.cell c) = 0
            by_cases hsite : site.leaks = true
            · exact if_pos hsite
            · exact if_neg hsite
          rw [hnet, Pi.zero_apply, zero_add]
          rfl
      | took c => exact zero_add _
      | gave c => exact zero_add _
      | raised site n =>
          by_cases hsite : site.isChecked = true
          · by_cases hn : n = k
            · simp [Scheme.net, hsite, perException, hn]
              omega
            · simp [Scheme.net, hsite, perException, hn]
          · simp [Scheme.net, hsite]
      | handled n =>
          by_cases hn : n = k
          · simp [Scheme.net, perException, hn]
            omega
          · simp [Scheme.net, perException, hn]

/-- Operations one after another come out even. -/
theorem quiet_activity {e : Setting} {meanwhile : Meanwhile}
    (hquiet : Quiet perException meanwhile) : Quiet perException (Activity e meanwhile) := by
  intro s es t h
  induction h with
  | nil s => exact fun hs => ⟨rfl, hs⟩
  | cons hrun _ ih =>
      intro hs
      rcases code_spec hquiet e _ (fun _ _ => rfl) _ _ _ _ hs hrun with ⟨hsum, ht⟩
      rcases ih ht with ⟨hrest, hu⟩
      refine ⟨?_, hu⟩
      rw [List.map_append, List.sum_append, hsum, hrest, perException_kept, add_zero]

/-- What happens meanwhile is settled, at every depth. -/
theorem quiet_perException (e : Setting) (depth : ℕ) : Quiet perException (nested e depth) := by
  induction depth with
  | zero =>
      rintro s es t ⟨rfl, rfl⟩ hs
      exact ⟨rfl, hs⟩
  | succ depth ih => exact quiet_activity ih

/-- The handler is called for what is looked for. -/
theorem count_handled {e : Setting} {depth : ℕ} {op : Operation} {s t : World}
    {es : List Event} {r : Returned} (hs : Idle s)
    (h : Run (engine (nested e depth)) (op.code e) s es r t) :
    (handled es).Perm (looked es) := by
  rcases code_spec (quiet_perException e depth) e op (fun _ _ => rfl) s es r t hs h with ⟨hsum, -⟩
  refine List.perm_iff_count.mpr fun k => ?_
  have hk := sum_perException es k
  rw [hsum, perException_kept, Pi.zero_apply] at hk
  omega

/-! ## What is missed -/

/-- The world keeps record of whether an exception was missed. -/
def Tracks (es : List Event) (s t : World) : Prop :=
  t.clean = true ↔ s.clean = true ∧ missed es = []

theorem tracks_nil (s : World) : Tracks [] s s := ⟨fun h => ⟨h, rfl⟩, fun h => h.1⟩

theorem Tracks.append {es fs : List Event} {s t u : World} (h : Tracks es s t)
    (h' : Tracks fs t u) : Tracks (es ++ fs) s u := by
  unfold Tracks at *
  rw [h', h, missed_append, List.append_eq_nil_iff]
  exact and_assoc

/-- Nothing came up. -/
theorem tracks_of_missed {es : List Event} {s t : World} (hes : missed es = [])
    (ht : t.clean = s.clean) : Tracks es s t := by
  unfold Tracks
  rw [hes, ht]
  exact ⟨fun h => ⟨h, rfl⟩, fun h => h.1⟩

theorem missed_map {ev : Cell → Event} (hev : ∀ c, missed [ev c] = []) (o : Option Cell) :
    missed (o.toList.map ev) = [] := by
  cases o with
  | none => rfl
  | some c => exact hev c

theorem tracks_raise (site : Site) (s : World) :
    Tracks [.raised site s.next] s (s.raise site) := by
  unfold Tracks World.raise missed
  by_cases hsite : site.isChecked = true
  · simp [hsite]
  · simp [hsite]

theorem tracks_returns {site : Site} {s t : World} {es : List Event} {v : Handle}
    (h : s.Returns site es v t) : Tracks es s t := by
  unfold World.Returns at h
  split at h
  · rcases h with ⟨-, rfl, rfl⟩
    exact tracks_raise site s
  · rcases h with ⟨rfl, rfl⟩
    exact tracks_of_missed (missed_map (fun _ => rfl) _) rfl

theorem tracks_answers {α : Type} {site : Site} {s t : World} {es : List Event} {a : Option α}
    (h : s.Answers site es a t) : Tracks es s t := by
  unfold World.Answers at h
  split at h
  · rcases h with ⟨rfl, rfl⟩
    exact tracks_nil t
  · rcases h with ⟨rfl, rfl⟩
    exact tracks_raise site s

theorem tracks_consumes {α : Type} {site : Site} {val : Handle} {s t : World} {es : List Event}
    {a : Option α} (h : s.Consumes site val es a t) : Tracks es s t := by
  rcases h with ⟨fs, rfl, hanswers⟩
  have hgave : missed (val.owned.toList.map Event.gave) = [] := missed_map (fun _ => rfl) _
  exact (tracks_of_missed hgave rfl).append (tracks_answers hanswers)

/-- What an answer does to the record. -/
theorem tracks_replies {s t : World} {r : Request} {es : List Event} {a : r.Answer}
    (h : Replies s r es a t) : Tracks es s t := by
  have hstill {es : List Event} {s t : World} (hes : missed es = []) (ht : t = s) :
      Tracks es s t := tracks_of_missed hes (congrArg World.clean ht)
  cases r with
  | eval site script => exact tracks_returns h
  | call site func thisObj argv => exact tracks_returns h
  | getProperty site thisObj prop => exact tracks_returns h
  | getPropertyUint32 site thisObj idx => exact tracks_returns h
  | createFromCtor ctor => exact tracks_returns h
  | setProperty thisObj prop val => exact tracks_consumes h
  | setPropertyUint32 thisObj idx val => exact tracks_consumes h
  | definePropertyValueStr thisObj prop val => exact tracks_consumes h
  | defineProperty thisObj prop => exact tracks_answers h
  | hasProperty thisObj prop => exact tracks_answers h
  | isInstanceOf val obj => exact tracks_answers h
  | isArray v => exact tracks_answers h
  | toFloat64 v => exact tracks_answers h
  | toInt32 v => exact tracks_answers h
  | getOwnPropertyNames obj => exact tracks_answers h
  | getGlobalObject => exact hstill (h.1 ▸ rfl) h.2
  | newString str => exact hstill (h.1 ▸ rfl) h.2
  | newObject => exact hstill (h.1 ▸ rfl) h.2
  | dupValue v => exact hstill (h.1 ▸ missed_map (fun _ => rfl) _) h.2
  | freeValue v => exact hstill (h.1 ▸ missed_map (fun _ => rfl) _) h.2
  | setClassProto obj => exact hstill (h.1 ▸ missed_map (fun _ => rfl) _) h.2
  | isFunction v => exact hstill (h.1 ▸ rfl) h.2
  | isError v => exact hstill (h.1 ▸ rfl) h.2
  | exceptionHandler n x => exact hstill (h.1 ▸ rfl) h.2
  | closure args => exact hstill (h.1 ▸ rfl) h.2
  | native => exact hstill (h.1 ▸ rfl) h.2
  | getException =>
      rcases h with ⟨-, -, rfl, rfl⟩
      exact tracks_of_missed (missed_map (fun _ => rfl) _) rfl
  | throw obj =>
      rcases h with ⟨-, rfl, rfl⟩
      exact tracks_of_missed (missed_map (fun _ => rfl) _) rfl

/-- A run keeps the record when what happens meanwhile does. -/
theorem tracks_of_run {meanwhile : Meanwhile}
    (hmeanwhile : ∀ s es t, meanwhile s es t → Tracks es s t) {β : Type} {x : NativeCode β}
    {s t : World} {es : List Event} {b : β}
    (h : Run (engine meanwhile) x s es b t) : Tracks es s t := by
  refine Run.keeps (P := Tracks) tracks_nil Tracks.append ?_ h
  rintro s r es a t ⟨fs, u, gs, hbefore, hreplies, rfl⟩
  refine Tracks.append ?_ (tracks_replies hreplies)
  split at hbefore
  · exact hmeanwhile _ _ _ hbefore
  · rcases hbefore with ⟨rfl, rfl⟩
    exact tracks_nil u

theorem caught_clean (r : Returned) (s : World) : (s.caught r).clean = s.clean := by
  unfold World.caught
  split
  · split <;> rfl
  · rfl

theorem tracks_of_nested (e : Setting) (depth : ℕ) {s t : World} {es : List Event}
    (h : nested e depth s es t) : Tracks es s t := by
  induction depth generalizing s es t with
  | zero =>
      rcases h with ⟨rfl, rfl⟩
      exact tracks_nil t
  | succ depth ih =>
      have hactivity : Activity e (nested e depth) s es t := h
      induction hactivity with
      | nil s => exact tracks_nil s
      | @cons op s t u es fs r hrun _ ihrest =>
          have hfirst := tracks_of_run (fun _ _ _ => ih) hrun
          have hcaught : Tracks [] t (t.caught r) := tracks_of_missed rfl (caught_clean r t)
          have hrest := ihrest ‹_›
          rw [← List.nil_append fs]
          exact hfirst.append (hcaught.append hrest)

/-! ## Public operations -/

/-- What the host application calls. -/
def Operation.isPublic : Operation → Bool
  | .typedCall .. => false
  | .typedGetter _ => false
  | .typedSetter .. => false
  | .typedConstruct .. => false
  | .typedInstanceMethod .. => false
  | _ => true

/-- A public operation hands nothing to the engine. -/
theorem caught_of_isPublic {e : Setting} {depth : ℕ} {op : Operation} (hop : op.isPublic = true)
    {s t : World} {es : List Event} {r : Returned}
    (h : Run (engine (nested e depth)) (op.code e) s es r t) (u : World) : u.caught r = u := by
  cases op with
  | typedCall found argv => exact absurd hop Bool.false_ne_true
  | typedGetter found => exact absurd hop Bool.false_ne_true
  | typedSetter found arg => exact absurd hop Bool.false_ne_true
  | typedConstruct found waiting exportedProperties thisObj argv =>
      exact absurd hop Bool.false_ne_true
  | typedInstanceMethod named found thisObj argv => exact absurd hop Bool.false_ne_true
  | _ =>
      rcases Run.bind_iff.mp h with ⟨_, _, _, _, _, hret, _⟩
      cases hret
      rfl

/-- Exceptions are delivered exactly when each comes up where it is looked for. -/
theorem delivered_iff_checked (e : Setting) (depth : ℕ) {op : Operation}
    (hop : op.isPublic = true) {n : ℕ} {es : List Event} {r : Returned} {t : World}
    (h : Run (engine (nested e depth)) (op.code e) { next := n } es r t) :
    Delivered es t ↔ ∀ site k, Event.raised site k ∈ es → site.isChecked = true := by
  have hidle : Idle { next := n } := fun _ => rfl
  have hperm := count_handled hidle h
  rw [← missed_eq_nil_iff]
  constructor
  · intro hdelivered
    -- as many were looked for as came up
    have hlength := (hperm.symm.trans hdelivered.once).length_eq
    rw [length_exceptions] at hlength
    exact List.length_eq_zero_iff.mp (by omega)
  · intro hmissed
    have hclean := (tracks_of_run (fun _ _ _ => tracks_of_nested e depth) h).mpr ⟨rfl, hmissed⟩
    have hquiet := quiet_perException e depth
    rcases code_spec hquiet e op (fun _ _ => rfl) _ es r t hidle h with ⟨-, ht⟩
    rw [caught_of_isPublic hop h] at ht
    refine ⟨?_, ht hclean⟩
    rw [exceptions_eq_looked hmissed]
    exact hperm

/-- An engine for examples, with values that are not deep. -/
def Setting.simple : Setting where
  ext := Externals.simple
  context := 0
  globalRef := Handle.object 0
  fuel := 2

/-- A call during which nothing else runs. -/
theorem run_ask {meanwhile : Meanwhile} (hnil : ∀ s, meanwhile s [] s) {β : Type} {r : Request}
    {next : r.Answer → NativeCode β} (a : r.Answer) {s t u : World} {es fs gs : List Event} {b : β}
    (hreplies : Replies s r es a t) (h : Run (engine meanwhile) (next a) t fs b u)
    (hes : gs = es ++ fs) : Run (engine meanwhile) (.ask r next) s gs b u := by
  rw [hes]
  refine .ask ⟨[], s, es, ?_, hreplies, rfl⟩ h
  split
  · exact hnil s
  · exact ⟨rfl, rfl⟩

theorem nested_nil (e : Setting) (depth : ℕ) (s : World) : nested e depth s [] s := by
  cases depth with
  | zero => exact ⟨rfl, rfl⟩
  | succ depth => exact .nil s

/-- A script throws `true`, which has no name, no message, no cause and no stack. -/
theorem run_evaluate_throw :
    Run (engine (nested Setting.simple 0))
      ((Operation.evaluate "throw true").code Setting.simple) {}
      [.raised .evaluate 0, .handled 0] (.value (some (.jsError none none none none)))
      { next := 1 } := by
  have hnil := nested_nil Setting.simple 0
  refine run_ask hnil (r := Request.eval .evaluate "throw true") { value := .exception, cell := 0 }
    ⟨rfl, rfl, rfl⟩ ?_ rfl
  refine run_ask hnil (r := Request.getException) ({ value := jsNewBool true }, 0)
    ⟨rfl, rfl, rfl, rfl⟩ ?_ rfl
  -- the four properties
  iterate 4
    refine run_ask hnil (r := Request.getProperty .errorField { value := jsNewBool true } _)
      Handle.undefined ⟨rfl, rfl⟩ ?_ rfl
    refine run_ask hnil (r := Request.freeValue Handle.undefined) () ⟨rfl, rfl⟩ ?_ rfl
  refine run_ask hnil (r := Request.exceptionHandler 0 (.jsError none none none none)) ()
    ⟨rfl, rfl⟩ ?_ rfl
  refine run_ask hnil (r := Request.freeValue { value := jsNewBool true }) () ⟨rfl, rfl⟩ ?_ rfl
  refine run_ask hnil (r := Request.freeValue { value := .exception, cell := 0 }) ()
    ⟨rfl, rfl⟩ ?_ rfl
  exact .ret _ _

/-- What a script throws is delivered. -/
theorem delivered_iff_checked_throw :
    Delivered [.raised .evaluate 0, .handled 0] { next := 1 } ↔
      ∀ site k, Event.raised site k ∈ [.raised .evaluate 0, .handled 0] → site.isChecked = true :=
  have hop : (Operation.evaluate "throw true").isPublic = true := rfl
  delivered_iff_checked Setting.simple 0 hop run_evaluate_throw

/-- The value of `Symbol()` has no number, and the failure to convert it to one is passed
    over. -/
theorem run_evaluate_symbol :
    Run (engine (nested Setting.simple 0)) ((Operation.evaluate "Symbol()").code Setting.simple) {}
      [.got .evaluate (.leaf 7), .raised .toFloat64 0, .gave (.leaf 7)] (.value none)
      (World.raise .toFloat64 {}) := by
  have hnil := nested_nil Setting.simple 0
  refine run_ask hnil (r := Request.eval .evaluate "Symbol()") { value := .symbol 7, cell := 7 }
    ⟨rfl, rfl⟩ ?_ rfl
  refine run_ask hnil (r := Request.toFloat64 { value := .symbol 7, cell := 7 }) none
    ⟨rfl, rfl⟩ ?_ rfl
  refine run_ask hnil (r := Request.isArray { value := .symbol 7, cell := 7 }) (some false)
    ⟨rfl, rfl⟩ ?_ rfl
  refine run_ask hnil (r := Request.isFunction { value := .symbol 7, cell := 7 }) false
    ⟨rfl, rfl⟩ ?_ rfl
  refine run_ask hnil (r := Request.isError { value := .symbol 7, cell := 7 }) false
    ⟨rfl, rfl⟩ ?_ rfl
  refine run_ask hnil (r := Request.freeValue { value := .symbol 7, cell := 7 }) ()
    ⟨rfl, rfl⟩ ?_ rfl
  exact .ret _ _

theorem exists_undelivered :
    ∃ (e : Setting) (depth : ℕ) (op : Operation) (es : List Event) (r : Returned) (t : World),
      op.isPublic = true ∧ Run (engine (nested e depth)) (op.code e) {} es r t ∧
        ¬ Delivered es t :=
  ⟨Setting.simple, 0, .evaluate "Symbol()", _, _, _, rfl, run_evaluate_symbol,
    fun h => absurd h.idle nofun⟩

end Calls

end Substrata
