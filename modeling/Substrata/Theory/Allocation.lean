import Substrata.Basis.Run
import Substrata.Core.Allocation

/-!
# IDs are not confused

However the threads take turns, no two exports get in each other's way: IDs handed out by
one counter differ, nothing is registered under an ID that is taken, and what has been found
under an ID is found again.

An allocation and its registration are two sections of `exportLock`, so the tables alone do
not say that the next ID is free. The invariant is about three things: the counters, the
tables, and the IDs in flight between the two sections. An ID in flight is below its counter,
it is on one thread once, and no table that its counter feeds has an entry for it. A property
counter feeds two tables, so the last of these is about both, and keeps getters and setters
apart.

## Main definitions

* `Unconfused`: IDs are distinct, below their counters, and nothing was ignored.
* `Allocation.Orderly`: The invariant.

## Theorems

* `newID_spec`, `addExport_spec`: The two sections.
* `Orderly.step`: What a step keeps.
* `Orderly.finds`: What is found stays.
* `unconfused_of_run`: What holds of every run.
-/

namespace Substrata

open Transition (Run)

variable {ι Fn Get Set : Type}

/-! ## The two sections -/

/-- An allocation from one counter. -/
theorem newID_of {c c' : JSContext Fn Get Set} {k : Counter} {id next : Int32}
    (halloc : allocate (c.counter k) = some (id, next))
    (hcounter : ∀ k', c'.counter k' = if k' = k then next else c.counter k')
    (hfind : ∀ callback i, c'.findExport callback i = c.findExport callback i) :
    id = c.counter k ∧
      (∀ k', (c'.counter k').toInt = (c.counter k').toInt + if k' = k then 1 else 0) ∧
      ∀ callback i, c'.findExport callback i = c.findExport callback i := by
  rcases allocate_spec halloc with ⟨hid, hnext⟩
  refine ⟨hid, fun k' => ?_, hfind⟩
  rw [hcounter]
  by_cases hk : k' = k
  · rw [if_pos hk, if_pos hk, hnext, hk]
  · rw [if_neg hk, if_neg hk, add_zero]

/-- An allocation. -/
theorem newID_spec {c c' : JSContext Fn Get Set} {k : Counter} {id : Int32}
    (h : c.newID k = some (id, c')) :
    id = c.counter k ∧
      (∀ k', (c'.counter k').toInt = (c.counter k').toInt + if k' = k then 1 else 0) ∧
      ∀ callback i, c'.findExport callback i = c.findExport callback i := by
  cases k with
  | classCounter =>
      rcases Option.map_eq_some_iff.mp h with ⟨⟨new, next⟩, halloc, heq⟩
      rcases Prod.mk.inj heq with ⟨rfl, rfl⟩
      exact newID_of halloc (fun k' => by cases k' <;> rfl) fun callback _ => by
        cases callback <;> rfl
  | functionCounter =>
      rcases Option.map_eq_some_iff.mp h with ⟨⟨new, next⟩, halloc, heq⟩
      rcases Prod.mk.inj heq with ⟨rfl, rfl⟩
      exact newID_of halloc (fun k' => by cases k' <;> rfl) fun callback _ => by
        cases callback <;> rfl
  | methodCounter =>
      rcases Option.map_eq_some_iff.mp h with ⟨⟨new, next⟩, halloc, heq⟩
      rcases Prod.mk.inj heq with ⟨rfl, rfl⟩
      exact newID_of halloc (fun k' => by cases k' <;> rfl) fun callback _ => by
        cases callback <;> rfl
  | propertyCounter =>
      rcases Option.map_eq_some_iff.mp h with ⟨⟨new, next⟩, halloc, heq⟩
      rcases Prod.mk.inj heq with ⟨rfl, rfl⟩
      exact newID_of halloc (fun k' => by cases k' <;> rfl) fun callback _ => by
        cases callback <;> rfl

/-- A registration under an ID that is free. -/
theorem addExport_spec {c : JSContext Fn Get Set} {value : Export Fn Get Set} {id : Int32}
    (hfree : c.findExport value.callback id = none) :
    (∀ k, (c.addExport (value.entry id)).counter k = c.counter k) ∧
      ∀ callback i, (c.addExport (value.entry id)).findExport callback i
        = if callback = value.callback ∧ i = id then some value else c.findExport callback i := by
  cases value with
  | function value =>
      refine ⟨fun k => by cases k <;> rfl, fun callback i => ?_⟩
      cases callback with
      | typedCall =>
          simp only [Export.callback, true_and]
          exact JSContext.map_lookup_insertNew .function hfree i value
      | _ => exact (if_neg fun hc => absurd hc.1 nofun).symm
  | getter value =>
      refine ⟨fun k => by cases k <;> rfl, fun callback i => ?_⟩
      cases callback with
      | typedGetter =>
          simp only [Export.callback, true_and]
          exact JSContext.map_lookup_insertNew .getter hfree i value
      | _ => exact (if_neg fun hc => absurd hc.1 nofun).symm
  | setter value =>
      refine ⟨fun k => by cases k <;> rfl, fun callback i => ?_⟩
      cases callback with
      | typedSetter =>
          simp only [Export.callback, true_and]
          exact JSContext.map_lookup_insertNew .setter hfree i value
      | _ => exact (if_neg fun hc => absurd hc.1 nofun).symm
  | constructor name type classID =>
      refine ⟨fun k => by cases k <;> rfl, fun callback i => ?_⟩
      cases callback with
      | typedConstruct =>
          simp only [Export.callback, true_and]
          exact JSContext.map_lookup_insertNew JSClassInfo.toExport hfree i
            { name := name, type := type, classID := classID }
      | _ => exact (if_neg fun hc => absurd hc.1 nofun).symm
  | method name =>
      refine ⟨fun k => by cases k <;> rfl, fun callback i => ?_⟩
      cases callback with
      | typedInstanceMethod =>
          simp only [Export.callback, true_and]
          show ((c.methodIDs.insert id name).lookup i).map Export.method = _
          rw [Dict.lookup_insert]
          by_cases hi : i = id
          · rw [if_pos hi, if_pos hi, Option.map_some]
          · rw [if_neg hi, if_neg hi]
            rfl
      | _ => exact (if_neg fun hc => absurd hc.1 nofun).symm

namespace Allocation

/-- IDs handed out by one counter are distinct, the keys of each table are below its counter,
    no ID has a getter and a setter, and no registration found its ID taken. -/
structure Unconfused (s : Allocation ι Fn Get Set) : Prop where
  distinct : s.issued.Nodup
  below : ∀ callback id value, s.context.findExport callback id = some value →
    0 ≤ id.toInt ∧ id.toInt < (s.context.counter callback.counter).toInt
  apart : ∀ id, s.context.findExport .typedGetter id = none ∨
    s.context.findExport .typedSetter id = none
  heeded : s.ignored = false

/-- An ID that was handed out, and has no entry yet. -/
def Free (c : JSContext Fn Get Set) (flight : Flight Fn Get Set) : Prop :=
  (0 ≤ flight.id.toInt ∧
    flight.id.toInt < (c.counter flight.value.callback.counter).toInt) ∧
    ∀ callback : Callback, callback.counter = flight.value.callback.counter →
      c.findExport callback flight.id = none

/-- What every step keeps. -/
structure Orderly (s : Allocation ι Fn Get Set) : Prop where
  unconfused : s.Unconfused
  nonneg : ∀ k, 0 ≤ (s.context.counter k).toInt
  issued_below : ∀ p ∈ s.issued, p.2.toInt < (s.context.counter p.1).toInt
  free : ∀ i, ∀ flight ∈ (s.workers i).flights, Free s.context flight
  once : ∀ i, ((s.workers i).flights.map Flight.key).Nodup
  alone : ∀ i j, ∀ flight ∈ (s.workers i).flights, ∀ flight' ∈ (s.workers j).flights,
    flight.key = flight'.key → i = j

theorem orderly_start (code : ι → Issuing Fn Get Set) : (start code).Orderly where
  unconfused :=
    { distinct := List.nodup_nil
      below := JSContext.numbered_empty.below
      apart := fun _ => Or.inl rfl
      heeded := rfl }
  nonneg := JSContext.numbered_empty.nonneg
  issued_below _ hp := absurd hp List.not_mem_nil
  free _ _ hflight := absurd hflight List.not_mem_nil
  once _ := List.nodup_nil
  alone _ _ _ hflight := absurd hflight List.not_mem_nil

variable [DecidableEq ι] {s : Allocation ι Fn Get Set} {i : ι}

theorem workers_setWorker (s : Allocation ι Fn Get Set) (i : ι) (worker : Worker Fn Get Set)
    (j : ι) : (s.setWorker i worker).workers j = if j = i then worker else s.workers j :=
  Function.update_apply s.workers i worker j

/-- What is in flight after a step. -/
theorem mem_flights_setWorker {worker : Worker Fn Get Set} {j : ι} {flight : Flight Fn Get Set}
    (h : flight ∈ ((s.setWorker i worker).workers j).flights) :
    j = i ∧ flight ∈ worker.flights ∨ j ≠ i ∧ flight ∈ (s.workers j).flights := by
  rw [workers_setWorker] at h
  by_cases hj : j = i
  · rw [if_pos hj] at h
    exact Or.inl ⟨hj, h⟩
  · rw [if_neg hj] at h
    exact Or.inr ⟨hj, h⟩

/-- A free ID stays free while other IDs are handed out. -/
theorem Free.mono {c c' : JSContext Fn Get Set} {flight : Flight Fn Get Set} (h : Free c flight)
    (hcounter : ∀ k, (c.counter k).toInt ≤ (c'.counter k).toInt)
    (hfind : ∀ callback id, c'.findExport callback id = c.findExport callback id) :
    Free c' flight := by
  refine ⟨⟨h.1.1, lt_of_lt_of_le h.1.2 (hcounter _)⟩, fun callback hcallback => ?_⟩
  rw [hfind]
  exact h.2 callback hcallback

/-- A lookup changes only what comes next. -/
theorem Orderly.lookup (h : s.Orderly) {worker : Worker Fn Get Set}
    (hworker : worker.flights = (s.workers i).flights) : (s.setWorker i worker).Orderly := by
  have hflights (j : ι) : ((s.setWorker i worker).workers j).flights = (s.workers j).flights := by
    rw [workers_setWorker]
    by_cases hj : j = i
    · rw [if_pos hj, hworker, hj]
    · rw [if_neg hj]
  refine ⟨⟨h.unconfused.distinct, h.unconfused.below, h.unconfused.apart, h.unconfused.heeded⟩,
    h.nonneg, h.issued_below, fun j flight hflight => ?_, fun j => ?_,
    fun j k flight hflight flight' hflight' => ?_⟩
  · rw [hflights] at hflight
    exact h.free j flight hflight
  · rw [hflights]
    exact h.once j
  · rw [hflights] at hflight hflight'
    exact h.alone j k flight hflight flight' hflight'

omit [DecidableEq ι] in
/-- A new ID is not in flight. -/
theorem Orderly.key_ne (h : s.Orderly) {flight : Flight Fn Get Set}
    (hid : flight.id = s.context.counter flight.value.callback.counter) {j : ι}
    {other : Flight Fn Get Set} (hother : other ∈ (s.workers j).flights) :
    other.key ≠ flight.key := by
  intro heq
  have hbelow := (h.free j other hother).1.2
  rcases Prod.mk.inj heq with ⟨hcounter, hsame⟩
  rw [hcounter, hsame, hid] at hbelow
  exact absurd hbelow (lt_irrefl _)

/-- An ID is handed out. -/
theorem Orderly.allocate (h : s.Orderly) (flight : Flight Fn Get Set)
    {c : JSContext Fn Get Set} {code : Issuing Fn Get Set}
    (halloc : s.context.newID flight.value.callback.counter = some (flight.id, c)) :
    Orderly { s.setWorker i { code := code, flights := flight :: (s.workers i).flights } with
      context := c
      issued := s.issued ++ [flight.key] } := by
  rcases newID_spec halloc with ⟨hid, hcounter, hfind⟩
  have hle (k : Counter) : (s.context.counter k).toInt ≤ (c.counter k).toInt := by
    rw [hcounter]
    split
    · omega
    · omega
  have hnext : flight.id.toInt < (c.counter flight.value.callback.counter).toInt := by
    rw [hcounter, if_pos rfl, hid]
    omega
  have hfree : Free c flight := by
    refine ⟨⟨hid ▸ h.nonneg _, hnext⟩, fun callback hcallback => ?_⟩
    rw [hfind, hid, ← hcallback]
    cases hfound : s.context.findExport callback (s.context.counter callback.counter) with
    | none => rfl
    | some value => exact absurd (h.unconfused.below _ _ _ hfound).2 (lt_irrefl _)
  refine ⟨⟨?_, ?_, ?_, h.unconfused.heeded⟩, fun k => (h.nonneg k).trans (hle k), ?_, ?_, ?_, ?_⟩
  · -- the IDs handed out before are below the counter
    refine List.nodup_append.mpr ⟨h.unconfused.distinct, List.nodup_singleton _, ?_⟩
    intro p hp q hq heq
    rw [List.mem_singleton.mp hq] at heq
    have hbelow := h.issued_below p hp
    rw [heq] at hbelow
    have hkey : flight.key = (flight.value.callback.counter, flight.id) := rfl
    rw [hkey, hid] at hbelow
    exact absurd hbelow (lt_irrefl _)
  · intro callback id value hfound
    rw [hfind] at hfound
    have hbelow := h.unconfused.below callback id value hfound
    exact ⟨hbelow.1, lt_of_lt_of_le hbelow.2 (hle _)⟩
  · intro id
    show c.findExport _ _ = none ∨ c.findExport _ _ = none
    rw [hfind, hfind]
    exact h.unconfused.apart id
  · intro p hp
    rcases List.mem_append.mp hp with hp | hp
    · exact lt_of_lt_of_le (h.issued_below p hp) (hle _)
    · rw [List.mem_singleton.mp hp]
      exact hnext
  · intro j other hother
    rcases mem_flights_setWorker hother with ⟨rfl, hmem⟩ | ⟨hj, hmem⟩
    · rcases List.mem_cons.mp hmem with rfl | hmem
      · exact hfree
      · exact (h.free j other hmem).mono hle hfind
    · exact (h.free j other hmem).mono hle hfind
  · intro j
    show (((s.setWorker i _).workers j).flights.map Flight.key).Nodup
    rw [workers_setWorker]
    by_cases hj : j = i
    · rw [if_pos hj]
      refine List.nodup_cons.mpr ⟨fun hmem => ?_, h.once i⟩
      rcases List.mem_map.mp hmem with ⟨other, hother, heq⟩
      exact h.key_ne hid hother heq
    · rw [if_neg hj]
      exact h.once j
  · intro j k f hf g hg heq
    rcases mem_flights_setWorker hf with ⟨hj, hf'⟩ | ⟨-, hf'⟩
    · rcases mem_flights_setWorker hg with ⟨hk, -⟩ | ⟨-, hg'⟩
      · exact hj.trans hk.symm
      · rcases List.mem_cons.mp hf' with hnew | hf'
        · rw [hnew] at heq
          exact absurd heq.symm (h.key_ne hid hg')
        · rw [hj]
          exact h.alone i k f hf' g hg' heq
    · rcases mem_flights_setWorker hg with ⟨hk, hg'⟩ | ⟨-, hg'⟩
      · rcases List.mem_cons.mp hg' with hnew | hg'
        · rw [hnew] at heq
          exact absurd heq (h.key_ne hid hf')
        · rw [hk]
          exact h.alone j i f hf' g hg' heq
      · exact h.alone j k f hf' g hg' heq

/-- What is still in flight was in flight before. -/
theorem mem_flights_of_pop {flight : Flight Fn Get Set} {flights : List (Flight Fn Get Set)}
    (hflights : (s.workers i).flights = flight :: flights) {code : Issuing Fn Get Set} {j : ι}
    {other : Flight Fn Get Set}
    (h : other ∈ ((s.setWorker i { code := code, flights := flights }).workers j).flights) :
    other ∈ (s.workers j).flights ∧ (j = i → other ∈ flights) := by
  rcases mem_flights_setWorker h with ⟨rfl, hmem⟩ | ⟨hj, hmem⟩
  · rw [hflights]
    exact ⟨List.mem_cons_of_mem _ hmem, fun _ => hmem⟩
  · exact ⟨hmem, fun hc => absurd hc hj⟩

/-- An export is registered. -/
theorem Orderly.register (h : s.Orderly) {flight : Flight Fn Get Set}
    {flights : List (Flight Fn Get Set)} (hflights : (s.workers i).flights = flight :: flights)
    {code : Issuing Fn Get Set} :
    Orderly { s.setWorker i { code := code, flights := flights } with
      context := s.context.addExport (flight.value.entry flight.id)
      ignored := s.ignored || (s.context.findExport flight.value.callback flight.id).isSome } := by
  have hmem : flight ∈ (s.workers i).flights := hflights ▸ List.mem_cons_self
  have hfree := h.free i flight hmem
  have habsent : s.context.findExport flight.value.callback flight.id = none := hfree.2 _ rfl
  rcases addExport_spec habsent with ⟨hcounter, hfind⟩
  have honce := h.once i
  rw [hflights, List.map_cons, List.nodup_cons] at honce
  -- the other IDs in flight are other IDs
  have hother {code : Issuing Fn Get Set} {j : ι} {other : Flight Fn Get Set}
      (ho : other ∈ ((s.setWorker i { code := code, flights := flights }).workers j).flights) :
      other.key ≠ flight.key := by
    rcases mem_flights_of_pop hflights ho with ⟨hbefore, hrest⟩
    intro heq
    have hj := h.alone j i other hbefore flight hmem heq
    exact honce.1 (List.mem_map.mpr ⟨other, hrest hj, heq⟩)
  refine ⟨⟨h.unconfused.distinct, ?_, ?_, ?_⟩, ?_, ?_, ?_, ?_, ?_⟩
  · intro callback id value hfound
    show 0 ≤ id.toInt ∧ id.toInt < ((s.context.addExport _).counter _).toInt
    rw [hcounter]
    rw [hfind] at hfound
    by_cases hnew : callback = flight.value.callback ∧ id = flight.id
    · rw [hnew.1, hnew.2]
      exact hfree.1
    · rw [if_neg hnew] at hfound
      exact h.unconfused.below callback id value hfound
  · intro id
    show (s.context.addExport _).findExport _ _ = none ∨
      (s.context.addExport _).findExport _ _ = none
    rw [hfind, hfind]
    -- a counter feeds both tables, and neither had an entry
    by_cases hget : Callback.typedGetter = flight.value.callback ∧ id = flight.id
    · have hset : ¬ (Callback.typedSetter = flight.value.callback ∧ id = flight.id) :=
        fun hc => absurd (hget.1.trans hc.1.symm) nofun
      right
      rw [if_neg hset, hget.2]
      exact hfree.2 _ (by rw [← hget.1]; rfl)
    · rw [if_neg hget]
      by_cases hset : Callback.typedSetter = flight.value.callback ∧ id = flight.id
      · left
        rw [hset.2]
        exact hfree.2 _ (by rw [← hset.1]; rfl)
      · rw [if_neg hset]
        exact h.unconfused.apart id
  · show (s.ignored || _) = false
    rw [h.unconfused.heeded, habsent]
    rfl
  · intro k
    show 0 ≤ ((s.context.addExport _).counter k).toInt
    rw [hcounter]
    exact h.nonneg k
  · intro p hp
    show p.2.toInt < ((s.context.addExport _).counter p.1).toInt
    rw [hcounter]
    exact h.issued_below p hp
  · intro j other ho
    have hbefore := h.free j other (mem_flights_of_pop hflights ho).1
    refine ⟨?_, fun callback hcallback => ?_⟩
    · show 0 ≤ other.id.toInt ∧ other.id.toInt < ((s.context.addExport _).counter _).toInt
      rw [hcounter]
      exact hbefore.1
    · show (s.context.addExport _).findExport callback other.id = none
      rw [hfind, if_neg, hbefore.2 callback hcallback]
      rintro ⟨hsame, hid⟩
      refine hother ho (Prod.ext ?_ hid)
      rw [hsame] at hcallback
      exact hcallback.symm
  · intro j
    show (((s.setWorker i _).workers j).flights.map Flight.key).Nodup
    rw [workers_setWorker]
    by_cases hj : j = i
    · rw [if_pos hj]
      exact honce.2
    · rw [if_neg hj]
      exact h.once j
  · intro j k f hf g hg heq
    exact h.alone j k f (mem_flights_of_pop hflights hf).1 g (mem_flights_of_pop hflights hg).1 heq

/-- A step keeps order, and what was found before is found after. -/
theorem Orderly.step (h : s.Orderly) {s' : Allocation ι Fn Get Set} (hstep : Step s i s') :
    s'.Orderly ∧ ∀ callback id value, s.context.findExport callback id = some value →
      s'.context.findExport callback id = some value := by
  unfold Step Allocation.step at hstep
  dsimp only at hstep
  split at hstep
  · next value meanwhile next hcode =>
    rcases Option.bind_eq_some_iff.mp hstep with ⟨⟨id, c⟩, halloc, heq⟩
    have hs' := Option.some.inj heq
    rw [← hs']
    refine ⟨h.allocate { value := value, id := id, next := next } halloc, ?_⟩
    intro callback id' value' hfound
    exact ((newID_spec halloc).2.2 callback id').trans hfound
  · next callback id next hcode =>
    rw [← Option.some.inj hstep]
    exact ⟨h.lookup rfl, fun _ _ _ hfound => hfound⟩
  · split at hstep
    · exact absurd hstep nofun
    · next flight flights hflights =>
      have hmem : flight ∈ (s.workers i).flights := hflights ▸ List.mem_cons_self
      have habsent : s.context.findExport flight.value.callback flight.id = none :=
        (h.free i flight hmem).2 _ rfl
      rw [← Option.some.inj hstep]
      refine ⟨h.register hflights, fun callback id value hfound => ?_⟩
      show (s.context.addExport _).findExport callback id = some value
      rw [(addExport_spec habsent).2, if_neg, hfound]
      rintro ⟨rfl, rfl⟩
      rw [habsent] at hfound
      exact absurd hfound nofun

theorem orderly_of_run {s' : Allocation ι Fn Get Set} {is : List ι} (h : s.Orderly)
    (hrun : Run Step s is s') : s'.Orderly :=
  hrun.invariant (fun _ _ _ hs hstep => (hs.step hstep).1) h

/-- What is found stays. -/
theorem finds_of_run {s' : Allocation ι Fn Get Set} {is : List ι} (h : s.Orderly)
    (hrun : Run Step s is s') {callback : Callback} {id : Int32} {value : Export Fn Get Set}
    (hfound : s.context.findExport callback id = some value) :
    s'.context.findExport callback id = some value := by
  induction hrun with
  | nil => exact hfound
  | snoc hrun hstep ih => exact ((orderly_of_run h hrun).step hstep).2 callback id value ih

/-- Whatever the threads do and however they take turns, IDs are not confused, and what is
    found under an ID is found under it from then on. -/
theorem unconfused_of_run {code : ι → Issuing Fn Get Set} {s : Allocation ι Fn Get Set}
    {is : List ι} (hrun : Run Step (start code) is s) :
    s.Unconfused ∧ ∀ js s', Run Step s js s' → ∀ callback id value,
      s.context.findExport callback id = some value →
      s'.context.findExport callback id = some value := by
  have horderly := orderly_of_run (orderly_start code) hrun
  exact ⟨horderly.unconfused, fun js s' hrest callback id value hfound =>
    finds_of_run horderly hrest hfound⟩

/-- Two threads export a function each, and take turns. -/
theorem unconfused_of_run_turns :
    ∃ s : Allocation Bool Bool Empty Empty,
      Run Step (start fun name => .exportFunction name .done) [true, false, false, true] s ∧
        s.Unconfused := by
  have hturns : ∃ s : Allocation Bool Bool Empty Empty,
      Run Step (start fun name => .exportFunction name .done) [true, false, false, true] s :=
    ⟨_, Run.cons rfl (Run.cons rfl (Run.cons rfl (Run.cons rfl Run.nil)))⟩
  rcases hturns with ⟨s, hrun⟩
  exact ⟨s, hrun, (unconfused_of_run hrun).1⟩

end Allocation

end Substrata
