import Mathlib.Logic.Function.Basic
import Substrata.Basis.Run
import Substrata.Core.Native

/-!
# Native code on several threads

Threads that run native code on one engine, step by step. The steps are those that
the locks make: a look at the flag is one step, under `exportLock`; taking and
releasing `executionLock` are steps; and so is every call and closure in between,
and every step of `JSContext.shutdown`. Any thread that is not waiting for the
execution lock may be next.

The execution lock is recursive. It is free, or held by one thread, which may take
it again.

A thread that runs a closure of `performThreadSafe` has a frame for what comes
after it, where the lock is released. `late` records that such a closure took a
step after the context had been released; nothing in the code reads it.

## Main definitions

* `Frame`: What a thread comes back to.
* `Control`: What a thread does next.
* `Machine`: An engine and its threads.
* `Machine.step`: One step of a thread.
* `Machine.start`: Threads at the beginning of their code.

## Theorems

* `Machine.run_of_foldlM`: A schedule gives a run.
* `Machine.goes_exec`, `Machine.run_exec`: A thread that has the engine to itself
  does what `exec` says.
-/

namespace Substrata

open Transition (Run)
open Session (ShutdownStep shutdownSteps)

variable {ι Fn Get Set : Type}

/-- What a thread comes back to: the end of a closure, where the execution lock is
    released, or the end of a public operation. -/
inductive Frame (Fn Get Set : Type)
  | closure (next : Option Answer → Native Fn Get Set)
  | operation (next : Answer → Native Fn Get Set)

def Frame.resume (answer : Answer) : Frame Fn Get Set → Native Fn Get Set
  | .closure next => next (some answer)
  | .operation next => next answer

def Frame.isClosure : Frame Fn Get Set → Bool
  | .closure _ => true
  | .operation _ => false

/-- What a thread does next. -/
inductive Control (Fn Get Set : Type)
  | run (code : Native Fn Get Set)
  /-- In `performThreadSafe`, past the check. -/
  | acquire (body : Native Fn Get Set) (next : Option Answer → Native Fn Get Set)
  /-- In `shutdown`, with the flag set. -/
  | acquireShutdown (next : Native Fn Get Set)
  /-- In `shutdown`, with the execution lock. -/
  | shutdown (steps : List ShutdownStep) (next : Native Fn Get Set)

structure Thread (Fn Get Set : Type) where
  control : Control Fn Get Set
  frames : List (Frame Fn Get Set)

/-- The execution lock: the thread that holds it, and how often it has taken it
    again. -/
abbrev RecursiveLock (ι : Type) := Option (ι × ℕ)

namespace RecursiveLock

variable [DecidableEq ι]

/-- `lock()`; `none` is to wait. -/
def acquire (i : ι) : RecursiveLock ι → Option (RecursiveLock ι)
  | none => some (some (i, 0))
  | some (j, again) => if j = i then some (some (i, again + 1)) else none

/-- `unlock()`. -/
def release : RecursiveLock ι → RecursiveLock ι
  | some (i, again + 1) => some (i, again)
  | _ => none

/-- A lock that was taken can be taken again, and is given back as it was. -/
theorem acquire_spec {i : ι} {lock lock' : RecursiveLock ι} (h : lock.acquire i = some lock') :
    lock'.release = lock ∧ ∃ again, lock' = some (i, again) := by
  cases lock with
  | none =>
      rw [← Option.some.inj h]
      exact ⟨rfl, 0, rfl⟩
  | some held =>
      rcases held with ⟨j, again⟩
      simp only [acquire] at h
      by_cases hj : j = i
      · rw [if_pos hj] at h
        rw [← Option.some.inj h, hj]
        exact ⟨rfl, again + 1, rfl⟩
      · rw [if_neg hj] at h
        simp only [reduceCtorEq] at h

theorem acquire_held (i : ι) (again : ℕ) :
    acquire i (some (i, again)) = some (some (i, again + 1)) := by
  simp only [acquire, if_true]

end RecursiveLock

/-- An engine and the threads that use it. -/
structure Machine (ι Fn Get Set : Type) where
  session : Session Fn Get Set
  executionLock : RecursiveLock ι
  threads : ι → Thread Fn Get Set
  late : Bool

namespace Machine

variable [DecidableEq ι]

/-- The context has been released. -/
def freed (m : Machine ι Fn Get Set) : Bool := .freeContext ∈ m.session.trace

def setThread (i : ι) (thread : Thread Fn Get Set) (m : Machine ι Fn Get Set) :
    Machine ι Fn Get Set :=
  { m with threads := Function.update m.threads i thread }

/-- A call or another step of native code, on what there is of the engine. -/
def act (i : ι) (f : Session Fn Get Set → Session Fn Get Set) (next : Native Fn Get Set)
    (m : Machine ι Fn Get Set) : Machine ι Fn Get Set :=
  { m.setThread i { m.threads i with control := .run next } with
    session := f m.session
    late := m.late || (m.freed && (m.threads i).frames.any Frame.isClosure) }

/-- One step of a thread. A thread at the end of its code takes none, and neither
    does one that waits for the lock. -/
def step (m : Machine ι Fn Get Set) (i : ι) : Option (Machine ι Fn Get Set) :=
  let frames := (m.threads i).frames
  match (m.threads i).control with
  | .run (.js name next) => some (m.act i (Session.emit (.js name)) next)
  | .run (.closure next) => some (m.act i (Session.emit .closure) next)
  | .run (.addExport entry next) => some (m.act i (Session.addExport entry) next)
  | .run (.performThreadSafe body next) =>
    if m.session.shuttingDown then
      some (m.setThread i { control := .run (next none), frames := frames })
    else
      some (m.setThread i { control := .acquire body next, frames := frames })
  | .acquire body next => do
    let lock ← m.executionLock.acquire i
    some { m.setThread i { control := .run body, frames := .closure next :: frames } with
      executionLock := lock }
  | .run (.operation code next) =>
    some { m.setThread i { control := .run code, frames := .operation next :: frames } with
      session := m.session.emit .called }
  | .run (.ret answer) =>
    match frames with
    | [] => none
    | .closure next :: frames =>
      some { m.setThread i { control := .run (next (some answer)), frames := frames } with
        executionLock := m.executionLock.release }
    | .operation next :: frames =>
      some { m.setThread i { control := .run (next answer), frames := frames } with
        session := m.session.emit (.answered answer m.session.context.isEmpty) }
  | .run (.shutdown next) =>
    some { m.setThread i { control := .acquireShutdown next, frames := frames } with
      session := m.session.beginShutdown }
  | .acquireShutdown next => do
    let lock ← m.executionLock.acquire i
    some { m.setThread i { control := .shutdown shutdownSteps next, frames := frames } with
      executionLock := lock }
  | .shutdown (step :: steps) next =>
    some { m.setThread i { control := .shutdown steps next, frames := frames } with
      session := step.apply m.session }
  | .shutdown [] next =>
    some { m.setThread i { control := .run next, frames := frames } with
      session := m.session.emit .shutDown
      executionLock := m.executionLock.release }

/-- A thread takes a step. -/
def Step (m : Machine ι Fn Get Set) (i : ι) (m' : Machine ι Fn Get Set) : Prop :=
  m.step i = some m'

/-- Threads at the beginning of their code. -/
def start (s : Session Fn Get Set) (code : ι → Native Fn Get Set) : Machine ι Fn Get Set :=
  { session := s
    executionLock := none
    threads := fun i => { control := .run (code i), frames := [] }
    late := false }

/-! ## Runs -/

/-- A schedule gives a run. -/
theorem run_of_foldlM {m m' : Machine ι Fn Get Set} {schedule : List ι}
    (h : schedule.foldlM step m = some m') : Run Step m schedule m' := by
  induction schedule generalizing m with
  | nil =>
      rw [List.foldlM_nil] at h
      rw [Option.some.inj h]
      exact Run.nil
  | cons i schedule ih =>
      rw [List.foldlM_cons] at h
      rcases Option.bind_eq_some_iff.mp h with ⟨m₁, hstep, hrest⟩
      exact Run.cons hstep (ih hrest)

/-- What a thread sees of a machine. -/
structure View (ι Fn Get Set : Type) where
  session : Session Fn Get Set
  executionLock : RecursiveLock ι
  control : Control Fn Get Set
  frames : List (Frame Fn Get Set)

/-- A machine with another view of it for one thread. -/
def withView (m : Machine ι Fn Get Set) (i : ι) (v : View ι Fn Get Set) (late : Bool) :
    Machine ι Fn Get Set :=
  { session := v.session
    executionLock := v.executionLock
    threads := Function.update m.threads i { control := v.control, frames := v.frames }
    late := late }

@[simp] theorem withView_threads (m : Machine ι Fn Get Set) (i : ι) (v : View ι Fn Get Set)
    (late : Bool) :
    (m.withView i v late).threads i = { control := v.control, frames := v.frames } :=
  Function.update_self ..

@[simp] theorem withView_setThread (m : Machine ι Fn Get Set) (i : ι) (v : View ι Fn Get Set)
    (late : Bool) (thread : Thread Fn Get Set) :
    (m.withView i v late).setThread i thread =
      m.withView i { v with control := thread.control, frames := thread.frames } late := by
  unfold setThread withView
  rw [Function.update_idem]

/-- Steps of one thread take it from one view to another. -/
def Goes (m : Machine ι Fn Get Set) (i : ι) (v v' : View ι Fn Get Set) : Prop :=
  ∀ late, ∃ as late', (∀ a ∈ as, a = i) ∧ Run Step (m.withView i v late) as (m.withView i v' late')

theorem Goes.refl (m : Machine ι Fn Get Set) (i : ι) (v : View ι Fn Get Set) : m.Goes i v v :=
  fun late => ⟨[], late, fun _ ha => absurd ha List.not_mem_nil, Run.nil⟩

theorem Goes.trans {m : Machine ι Fn Get Set} {i : ι} {v v'' : View ι Fn Get Set}
    (v' : View ι Fn Get Set) (h₁ : m.Goes i v v') (h₂ : m.Goes i v' v'') : m.Goes i v v'' := by
  intro late
  rcases h₁ late with ⟨as, late', has, hrun⟩
  rcases h₂ late' with ⟨bs, late'', hbs, hrun'⟩
  refine ⟨as ++ bs, late'', fun a ha => ?_, hrun.trans hrun'⟩
  rcases List.mem_append.mp ha with ha | ha
  · exact has a ha
  · exact hbs a ha

theorem Goes.single {m : Machine ι Fn Get Set} {i : ι} {v v' : View ι Fn Get Set}
    (h : ∀ late, ∃ late', (m.withView i v late).step i = some (m.withView i v' late')) :
    m.Goes i v v' := by
  intro late
  rcases h late with ⟨late', hstep⟩
  exact ⟨[i], late', fun a ha => List.mem_singleton.mp ha, Run.single hstep⟩

/-- Alone with the engine, a thread does what `exec` says, and gives back the lock
    as it found it. -/
theorem goes_exec (m : Machine ι Fn Get Set) (i : ι) (n : Native Fn Get Set)
    (s : Session Fn Get Set) {lock : RecursiveLock ι}
    (hlock : ∃ lock', lock.acquire i = some lock') (frames : List (Frame Fn Get Set)) :
    m.Goes i ⟨s, lock, .run n, frames⟩ ⟨(n.exec s).1, lock, .run (.ret (n.exec s).2), frames⟩ := by
  induction n generalizing s lock frames with
  | ret answer => exact Goes.refl m i _
  | js name next ih =>
      refine Goes.trans _ (Goes.single fun late => ?_) (ih (s.emit (.js name)) hlock frames)
      simp only [step, withView_threads, act, withView_setThread]
      exact ⟨_, rfl⟩
  | closure next ih =>
      refine Goes.trans _ (Goes.single fun late => ?_) (ih (s.emit .closure) hlock frames)
      simp only [step, withView_threads, act, withView_setThread]
      exact ⟨_, rfl⟩
  | addExport entry next ih =>
      refine Goes.trans _ (Goes.single fun late => ?_) (ih (s.addExport entry) hlock frames)
      simp only [step, withView_threads, act, withView_setThread]
      exact ⟨_, rfl⟩
  | performThreadSafe body next ihbody ihnext =>
      by_cases hflag : s.shuttingDown = true
      · rw [Native.exec, if_pos hflag]
        refine Goes.trans _ (Goes.single fun late => ?_) (ihnext none s hlock frames)
        simp only [step, withView_threads, withView_setThread]
        refine ⟨late, ?_⟩
        rw [if_pos (by exact hflag)]
      · rw [Native.exec, if_neg hflag]
        rcases hlock with ⟨lock', hacquire⟩
        rcases RecursiveLock.acquire_spec hacquire with ⟨hrelease, again, rfl⟩
        -- The check passes, the lock is taken, and the closure runs with it.
        refine Goes.trans ⟨s, lock, .acquire body next, frames⟩
          (Goes.single fun late => ?_) ?_
        · simp only [step, withView_threads, withView_setThread]
          refine ⟨late, ?_⟩
          rw [if_neg (by exact hflag)]
        refine Goes.trans ⟨s, some (i, again), .run body, .closure next :: frames⟩
          (Goes.single fun late => ?_) ?_
        · simp only [step, withView_threads, withView_setThread]
          refine ⟨late, ?_⟩
          rw [show (m.withView i ⟨s, lock, .acquire body next, frames⟩ late).executionLock = lock
            from rfl, hacquire]
          rfl
        refine Goes.trans _ (ihbody s ⟨_, RecursiveLock.acquire_held i again⟩ _) ?_
        refine Goes.trans _ (Goes.single fun late => ?_)
          (ihnext (some (body.exec s).2) (body.exec s).1 ⟨_, hacquire⟩ frames)
        simp only [step, withView_threads, withView_setThread]
        refine ⟨late, ?_⟩
        rw [← hrelease]
        rfl
  | operation code next ihcode ihnext =>
      refine Goes.trans ⟨s.emit .called, lock, .run code, .operation next :: frames⟩
        (Goes.single fun late => ?_) ?_
      · simp only [step, withView_threads, withView_setThread]
        exact ⟨late, rfl⟩
      refine Goes.trans _ (ihcode _ hlock _) ?_
      refine Goes.trans _ (Goes.single fun late => ?_) (ihnext _ _ hlock frames)
      simp only [step, withView_threads, withView_setThread]
      exact ⟨late, rfl⟩
  | shutdown next ih =>
      rcases hlock with ⟨lock', hacquire⟩
      rcases RecursiveLock.acquire_spec hacquire with ⟨hrelease, again, rfl⟩
      refine Goes.trans ⟨s.beginShutdown, lock, .acquireShutdown next, frames⟩
        (Goes.single fun late => ?_) ?_
      · simp only [step, withView_threads, withView_setThread]
        exact ⟨late, rfl⟩
      refine Goes.trans ⟨s.beginShutdown, some (i, again), .shutdown shutdownSteps next,
        frames⟩ (Goes.single fun late => ?_) ?_
      · simp only [step, withView_threads, withView_setThread]
        refine ⟨late, ?_⟩
        rw [show (m.withView i ⟨s.beginShutdown, lock, .acquireShutdown next, frames⟩
          late).executionLock = lock from rfl, hacquire]
        rfl
      have hsteps (steps : List ShutdownStep) (t : Session Fn Get Set) :
          m.Goes i ⟨t, some (i, again), .shutdown steps next, frames⟩
            ⟨steps.foldl (fun s step => step.apply s) t, some (i, again), .shutdown [] next,
              frames⟩ := by
        induction steps generalizing t with
        | nil => exact Goes.refl m i _
        | cons first rest ihsteps =>
            refine Goes.trans _ (Goes.single fun late => ?_) (ihsteps (first.apply t))
            simp only [step, withView_threads, withView_setThread]
            exact ⟨late, rfl⟩
      refine Goes.trans _ (hsteps shutdownSteps s.beginShutdown) ?_
      refine Goes.trans _ (Goes.single fun late => ?_) (ih s.shutdown ⟨_, hacquire⟩ frames)
      simp only [step, withView_threads, withView_setThread]
      refine ⟨late, ?_⟩
      rw [← hrelease]
      rfl

/-- A thread that runs to its end before the others begin does what `exec` says. -/
theorem run_exec (s : Session Fn Get Set) (code : ι → Native Fn Get Set) (i : ι) :
    ∃ as late, (∀ a ∈ as, a = i) ∧ Run Step (start s code) as
      ((start s code).withView i
        ⟨((code i).exec s).1, none, .run (.ret ((code i).exec s).2), []⟩ late) := by
  have hstart : (start s code).withView i ⟨s, none, .run (code i), []⟩ false = start s code := by
    unfold withView start
    rw [Function.update_eq_self]
  have hfree : RecursiveLock.acquire i none = some (some (i, 0)) := rfl
  rcases goes_exec (start s code) i (code i) s ⟨_, hfree⟩ [] false with ⟨as, late, has, hrun⟩
  rw [hstart] at hrun
  exact ⟨as, late, has, hrun⟩

end Machine

end Substrata
