import Mathlib.Algebra.Order.BigOperators.Group.Finset
import Substrata.Core.Threads

/-!
# The execution lock

What the execution lock does for threads that share an engine. A thread has the lock as often
as it is in a section: in a closure of `performThreadSafe`, or in what `shutdown` does under
the lock. So two threads are never in sections at once, a thread that waits always waits for
one that can go on, and no schedule keeps the threads from coming to an end.

All of it follows from what a step does to the lock and to the thread that takes it. A step
leaves both, or takes the lock for a section that begins, or gives it back for a section that
ends; and it uses up some of the steps that the code of the thread can take at most.

## Main definitions

* `Thread.sections`: The sections that a thread is in.
* `RecursiveLock.depth`: How often a thread has the lock.
* `Machine.Accounted`: The two are the same.
* `Native.bound`: How many steps code takes at most.
* `Thread.isFinished`: A thread at the end of its code.

## Theorems

* `Machine.turn_of_step`: What a step does to the lock and the thread.
* `Machine.Accounted.step`: A step keeps the account.
* `Machine.accounted_of_run`: Sections are exclusive.
* `Machine.Accounted.exists_step`: There is no deadlock.
* `Machine.completes_of_run`: Every schedule is finite and can be carried to the end.
-/

namespace Substrata

open Transition (Run)
open Session (ShutdownStep shutdownSteps)

variable {ι Fn Get Set : Type}

/-! ## Sections -/

/-- In `shutdown`, with the execution lock. -/
def Control.inShutdown : Control Fn Get Set → Bool
  | .shutdown _ _ => true
  | _ => false

/-- The sections that a thread is in. -/
def Thread.sections (thread : Thread Fn Get Set) : ℕ :=
  thread.frames.countP Frame.isClosure + if thread.control.inShutdown then 1 else 0

/-- A thread at the end of its code. -/
def Thread.isFinished (thread : Thread Fn Get Set) : Bool :=
  match thread.control, thread.frames with
  | .run (.ret _), [] => true
  | _, _ => false

theorem Thread.sections_closure (control : Control Fn Get Set)
    (next : Option Answer → Native Fn Get Set) (frames : List (Frame Fn Get Set)) :
    (⟨control, .closure next :: frames⟩ : Thread Fn Get Set).sections =
      (⟨control, frames⟩ : Thread Fn Get Set).sections + 1 := by
  unfold sections
  dsimp only
  rw [List.countP_cons_of_pos rfl]
  omega

theorem Thread.eq_of_isFinished {thread : Thread Fn Get Set} (h : thread.isFinished = true) :
    ∃ answer, thread = ⟨.run (.ret answer), []⟩ := by
  unfold isFinished at h
  split at h
  · rename_i answer hcontrol hframes
    exact ⟨answer, by rw [← hcontrol, ← hframes]⟩
  · cases h

theorem Thread.sections_of_isFinished {thread : Thread Fn Get Set}
    (h : thread.isFinished = true) : thread.sections = 0 := by
  rcases eq_of_isFinished h with ⟨answer, rfl⟩
  rfl

namespace RecursiveLock

variable [DecidableEq ι]

/-- How often a thread has the lock. -/
def depth (i : ι) : RecursiveLock ι → ℕ
  | none => 0
  | some (j, again) => if j = i then again + 1 else 0

@[simp] theorem depth_none (i : ι) : depth i none = 0 := rfl

@[simp] theorem depth_some (i j : ι) (again : ℕ) :
    depth i (some (j, again)) = if j = i then again + 1 else 0 := rfl

theorem depth_acquire {i : ι} {lock lock' : RecursiveLock ι} (h : lock.acquire i = some lock')
    (j : ι) : depth j lock' = depth j lock + if j = i then 1 else 0 := by
  cases lock with
  | none =>
      rw [← Option.some.inj h, depth_some, depth_none]
      simp only [eq_comm, Nat.zero_add]
  | some held =>
      rcases held with ⟨k, again⟩
      simp only [acquire] at h
      by_cases hk : k = i
      · rw [if_pos hk] at h
        rw [← Option.some.inj h, hk, depth_some, depth_some]
        by_cases hj : i = j
        · rw [if_pos hj, if_pos hj, if_pos hj.symm]
        · rw [if_neg hj, if_neg hj, if_neg (Ne.symm hj)]
      · rw [if_neg hk] at h
        cases h

theorem depth_release {i : ι} {lock : RecursiveLock ι} (h : 0 < depth i lock) (j : ι) :
    depth j lock = depth j lock.release + if j = i then 1 else 0 := by
  cases lock with
  | none => exact absurd h (Nat.lt_irrefl 0)
  | some held =>
      rcases held with ⟨k, again⟩
      have hk : k = i := by
        by_contra hne
        rw [depth_some, if_neg hne] at h
        exact absurd h (Nat.lt_irrefl 0)
      subst hk
      cases again with
      | zero =>
          rw [show release (some (k, 0)) = none from rfl, depth_none, depth_some]
          simp only [eq_comm, Nat.zero_add]
      | succ again =>
          rw [show release (some (k, again + 1)) = some (k, again) from rfl, depth_some, depth_some]
          by_cases hj : k = j
          · rw [if_pos hj, if_pos hj, if_pos hj.symm]
          · rw [if_neg hj, if_neg hj, if_neg (Ne.symm hj)]

/-- A thread waits for another one. -/
theorem exists_holder {i : ι} {lock : RecursiveLock ι} (h : lock.acquire i = none) :
    ∃ j, 0 < depth j lock ∧ lock.acquire j ≠ none := by
  cases lock with
  | none => cases h
  | some held =>
      rcases held with ⟨j, again⟩
      refine ⟨j, ?_, ?_⟩
      · rw [depth_some, if_pos rfl]
        exact Nat.succ_pos again
      · rw [acquire_held]
        exact nofun

/-- A thread waits while another has the lock. -/
theorem acquire_eq_none {i j : ι} {lock : RecursiveLock ι} (hij : i ≠ j) (hj : 0 < depth j lock) :
    lock.acquire i = none := by
  cases lock with
  | none => exact absurd hj (Nat.lt_irrefl 0)
  | some held =>
      rcases held with ⟨k, again⟩
      have hk : k = j := by
        by_contra hne
        rw [depth_some, if_neg hne] at hj
        exact absurd hj (Nat.lt_irrefl 0)
      unfold acquire
      dsimp only
      rw [if_neg fun h => hij (h.symm.trans hk)]

/-- At most one thread has the lock. -/
theorem eq_of_depth {i j : ι} {lock : RecursiveLock ι} (hi : 0 < depth i lock)
    (hj : 0 < depth j lock) : i = j := by
  cases lock with
  | none => exact absurd hi (Nat.lt_irrefl 0)
  | some held =>
      rcases held with ⟨k, again⟩
      rw [depth_some] at hi hj
      split_ifs at hi hj with hki hkj
      · exact hki.symm.trans hkj
      · exact absurd hj (Nat.lt_irrefl 0)
      · exact absurd hi (Nat.lt_irrefl 0)
      · exact absurd hi (Nat.lt_irrefl 0)

end RecursiveLock

/-! ## How many steps there are -/

/-- The largest of some numbers, one for each answer. -/
def Answer.worst (f : Answer → ℕ) : ℕ :=
  [f .void, f .nil, f .value, f (.bool true), f (.bool false)].foldl max 0

theorem Answer.le_worst (f : Answer → ℕ) (answer : Answer) : f answer ≤ worst f := by
  unfold worst
  simp only [List.foldl_cons, List.foldl_nil]
  cases answer with
  | bool b =>
      cases b with
      | true => omega
      | false => omega
  | _ => omega

/-- How many steps code takes at most. -/
def Native.bound : Native Fn Get Set → ℕ
  | .ret _ => 0
  | .js _ next => next.bound + 1
  | .closure next => next.bound + 1
  | .addExport _ next => next.bound + 1
  -- the check, the lock, and the end of the section
  | .performThreadSafe body next =>
    body.bound + max (next none).bound (Answer.worst fun answer => (next (some answer)).bound) + 3
  | .operation code next => code.bound + (Answer.worst fun answer => (next answer).bound) + 2
  | .shutdown next => next.bound + shutdownSteps.length + 3

def Frame.bound : Frame Fn Get Set → ℕ
  | .closure next => (Answer.worst fun answer => (next (some answer)).bound) + 1
  | .operation next => (Answer.worst fun answer => (next answer).bound) + 1

def Control.bound : Control Fn Get Set → ℕ
  | .run code => code.bound
  | .acquire body next => body.bound + (Answer.worst fun answer => (next (some answer)).bound) + 2
  | .acquireShutdown next => next.bound + shutdownSteps.length + 2
  | .shutdown steps next => next.bound + steps.length + 1

def Thread.bound (thread : Thread Fn Get Set) : ℕ :=
  thread.control.bound + (thread.frames.map Frame.bound).sum

/-- What a thread comes back to takes fewer steps than its frame. -/
theorem bound_resume (frame : Frame Fn Get Set) (answer : Answer) :
    (frame.resume answer).bound < frame.bound := by
  cases frame with
  | closure next =>
      exact Nat.lt_succ_of_le
        (Answer.le_worst (fun answer => (next (some answer)).bound) answer)
  | operation next =>
      exact Nat.lt_succ_of_le (Answer.le_worst (fun answer => (next answer).bound) answer)

namespace Machine

variable [DecidableEq ι] {m m' : Machine ι Fn Get Set} {i : ι}

/-! ## What a step does -/

/-- A step of a thread: the thread goes on, and the lock is left, taken or given back. -/
structure Turn (m : Machine ι Fn Get Set) (i : ι) (m' : Machine ι Fn Get Set) : Prop where
  others : ∀ j, j ≠ i → m'.threads j = m.threads j
  less : (m'.threads i).bound < (m.threads i).bound
  lock :
    (m'.executionLock = m.executionLock ∧ (m'.threads i).sections = (m.threads i).sections) ∨
    (m.executionLock.acquire i = some m'.executionLock ∧
      (m'.threads i).sections = (m.threads i).sections + 1) ∨
    (m'.executionLock = m.executionLock.release ∧
      (m.threads i).sections = (m'.threads i).sections + 1)

theorem turn_of_thread {control control' : Control Fn Get Set}
    {frames frames' : List (Frame Fn Get Set)} {lock : RecursiveLock ι} {s : Session Fn Get Set}
    {late : Bool} (hthread : m.threads i = ⟨control, frames⟩)
    (hless : (⟨control', frames'⟩ : Thread Fn Get Set).bound
      < (⟨control, frames⟩ : Thread Fn Get Set).bound)
    (hlock :
      (lock = m.executionLock ∧ (⟨control', frames'⟩ : Thread Fn Get Set).sections
        = (⟨control, frames⟩ : Thread Fn Get Set).sections) ∨
      (m.executionLock.acquire i = some lock ∧ (⟨control', frames'⟩ : Thread Fn Get Set).sections
        = (⟨control, frames⟩ : Thread Fn Get Set).sections + 1) ∨
      (lock = m.executionLock.release ∧ (⟨control, frames⟩ : Thread Fn Get Set).sections
        = (⟨control', frames'⟩ : Thread Fn Get Set).sections + 1)) :
    Turn m i { session := s, executionLock := lock, late := late,
               threads := Function.update m.threads i ⟨control', frames'⟩ } where
  others j hj := Function.update_of_ne hj ..
  less := by
    rw [hthread]
    dsimp only
    rw [Function.update_self]
    exact hless
  lock := by
    rw [hthread]
    dsimp only
    rw [Function.update_self]
    exact hlock

theorem turn_of_act {f : Session Fn Get Set → Session Fn Get Set} {code next : Native Fn Get Set}
    (hcontrol : (m.threads i).control = .run code) (hless : next.bound < code.bound) :
    Turn m i (m.act i f next) := by
  have hthread : m.threads i = ⟨.run code, (m.threads i).frames⟩ := by rw [← hcontrol]
  refine turn_of_thread hthread ?_ (Or.inl ⟨rfl, rfl⟩)
  exact Nat.add_lt_add_right hless _

/-- What a step does to the lock and the thread. -/
theorem turn_of_step (h : m.Step i m') : Turn m i m' := by
  have hthread : m.threads i = ⟨(m.threads i).control, (m.threads i).frames⟩ := rfl
  unfold Step step at h
  generalize hframes : (m.threads i).frames = frames at h hthread
  cases hcontrol : (m.threads i).control with
  | run code =>
      rw [hcontrol] at hthread
      simp only [hcontrol] at h
      cases code with
      | ret answer =>
          cases frames with
          | nil => cases h
          | cons frame frames =>
              have hresume := bound_resume frame answer
              cases frame with
              | closure next =>
                  rw [← Option.some.inj h]
                  refine turn_of_thread hthread ?_
                    (Or.inr (Or.inr ⟨rfl, Thread.sections_closure _ next frames⟩))
                  simp only [Thread.bound, Control.bound, Native.bound, List.map_cons,
                    List.sum_cons, Frame.resume] at hresume ⊢
                  omega
              | operation next =>
                  rw [← Option.some.inj h]
                  refine turn_of_thread hthread ?_ (Or.inl ⟨rfl, rfl⟩)
                  simp only [Thread.bound, Control.bound, Native.bound, List.map_cons,
                    List.sum_cons, Frame.resume] at hresume ⊢
                  omega
      | js name next =>
          rw [← Option.some.inj h]
          exact turn_of_act hcontrol (Nat.lt_succ_self _)
      | closure next =>
          rw [← Option.some.inj h]
          exact turn_of_act hcontrol (Nat.lt_succ_self _)
      | addExport entry next =>
          rw [← Option.some.inj h]
          exact turn_of_act hcontrol (Nat.lt_succ_self _)
      | performThreadSafe body next =>
          simp only at h
          by_cases hflag : m.session.shuttingDown = true
          · rw [if_pos hflag] at h
            rw [← Option.some.inj h]
            refine turn_of_thread hthread ?_ (Or.inl ⟨rfl, rfl⟩)
            simp only [Thread.bound, Control.bound, Native.bound]
            omega
          · rw [if_neg hflag] at h
            rw [← Option.some.inj h]
            refine turn_of_thread hthread ?_ (Or.inl ⟨rfl, rfl⟩)
            simp only [Thread.bound, Control.bound, Native.bound]
            omega
      | operation code next =>
          rw [← Option.some.inj h]
          refine turn_of_thread hthread ?_ (Or.inl ⟨rfl, rfl⟩)
          simp only [Thread.bound, Control.bound, Native.bound, List.map_cons, List.sum_cons,
            Frame.bound]
          omega
      | shutdown next =>
          rw [← Option.some.inj h]
          refine turn_of_thread hthread ?_ (Or.inl ⟨rfl, rfl⟩)
          simp only [Thread.bound, Control.bound, Native.bound]
          omega
  | acquire body next =>
      rw [hcontrol] at hthread
      simp only [hcontrol] at h
      rcases Option.bind_eq_some_iff.mp h with ⟨lock, hacquire, heq⟩
      rw [← Option.some.inj heq]
      refine turn_of_thread hthread ?_
        (Or.inr (Or.inl ⟨hacquire, Thread.sections_closure _ next frames⟩))
      simp only [Thread.bound, Control.bound, List.map_cons, List.sum_cons, Frame.bound]
      omega
  | acquireShutdown next =>
      rw [hcontrol] at hthread
      simp only [hcontrol] at h
      rcases Option.bind_eq_some_iff.mp h with ⟨lock, hacquire, heq⟩
      rw [← Option.some.inj heq]
      refine turn_of_thread hthread ?_ (Or.inr (Or.inl ⟨hacquire, rfl⟩))
      simp only [Thread.bound, Control.bound]
      omega
  | shutdown steps next =>
      rw [hcontrol] at hthread
      simp only [hcontrol] at h
      cases steps with
      | nil =>
          rw [← Option.some.inj h]
          refine turn_of_thread hthread ?_ (Or.inr (Or.inr ⟨rfl, rfl⟩))
          simp only [Thread.bound, Control.bound]
          omega
      | cons first steps =>
          rw [← Option.some.inj h]
          refine turn_of_thread hthread ?_ (Or.inl ⟨rfl, rfl⟩)
          simp only [Thread.bound, Control.bound, List.length_cons]
          omega

/-! ## The account -/

/-- Every thread has the lock as often as it is in a section. -/
def Accounted (m : Machine ι Fn Get Set) : Prop :=
  ∀ i, (m.threads i).sections = m.executionLock.depth i

theorem Accounted.step (hm : m.Accounted) (h : m.Step i m') : m'.Accounted := by
  have hturn := turn_of_step h
  intro j
  have hothers (hj : j ≠ i) : (m'.threads j).sections = m.executionLock.depth j :=
    (congrArg Thread.sections (hturn.others j hj)).trans (hm j)
  rcases hturn.lock with ⟨hlock, hsections⟩ | ⟨hacquire, hsections⟩ | ⟨hlock, hsections⟩
  · rw [hlock]
    by_cases hj : j = i
    · rw [hj, hsections]
      exact hm i
    · exact hothers hj
  · rw [RecursiveLock.depth_acquire hacquire j]
    by_cases hj : j = i
    · rw [hj, if_pos rfl, hsections, hm i]
    · rw [if_neg hj]
      exact hothers hj
  · -- A thread that leaves a section was in one, so it had the lock.
    have hheld : 0 < m.executionLock.depth i := by
      rw [← hm i, hsections]
      exact Nat.succ_pos _
    have hrelease := RecursiveLock.depth_release hheld j
    rw [hlock]
    by_cases hj : j = i
    · subst hj
      rw [if_pos rfl, ← hm j, hsections] at hrelease
      exact Nat.succ_injective hrelease
    · rw [if_neg hj, Nat.add_zero] at hrelease
      rw [← hrelease]
      exact hothers hj

theorem accounted_start (s : Session Fn Get Set) (code : ι → Native Fn Get Set) :
    (start s code).Accounted := fun _ => rfl

/-- In every run the lock is taken as often as there are sections of the thread that has it, and
    no two threads are in sections at once. -/
theorem accounted_of_run {s : Session Fn Get Set} {code : ι → Native Fn Get Set}
    {schedule : List ι} (hrun : Run Step (start s code) schedule m) :
    (∀ i, (m.threads i).sections = m.executionLock.depth i) ∧
      ∀ i j, 0 < (m.threads i).sections → 0 < (m.threads j).sections → i = j := by
  have hm : m.Accounted :=
    hrun.invariant (P := Accounted) (fun _ _ _ hm hstep => hm.step hstep) (accounted_start s code)
  refine ⟨hm, fun i j hi hj => ?_⟩
  rw [hm] at hi hj
  exact RecursiveLock.eq_of_depth hi hj

/-- Two threads that run a closure each. -/
def performs : Bool → Native ℕ Unit Unit := fun _ => JSEngine.perform (.ret .void)

/-- The first is in its closure, and the second waits. -/
theorem run_performs : ∃ m, Run Step (start {} performs) [true, true, false] m ∧
    m.executionLock = some (true, 0) := by
  have hfold : ∃ m, [true, true, false].foldlM step (start {} performs) = some m ∧
      m.executionLock = some (true, 0) := ⟨_, rfl, rfl⟩
  rcases hfold with ⟨m, hfold, hlock⟩
  exact ⟨m, run_of_foldlM hfold, hlock⟩

theorem accounted_of_run_performs : ∃ m : Machine Bool ℕ Unit Unit,
    m.executionLock = some (true, 0) ∧ (m.threads true).sections = 1 := by
  rcases run_performs with ⟨m, hrun, hlock⟩
  have hsections := (accounted_of_run hrun).1 true
  rw [hlock] at hsections
  exact ⟨m, hlock, hsections⟩

/-! ## No deadlock -/

/-- A thread is at its end, takes a step, or waits for the lock. -/
theorem exists_step_or_waits (m : Machine ι Fn Get Set) (i : ι) :
    (m.threads i).isFinished = true ∨ (∃ m', m.Step i m') ∨ m.executionLock.acquire i = none := by
  unfold Thread.isFinished Step step
  cases hcontrol : (m.threads i).control with
  | run code =>
      cases code with
      | ret answer =>
          cases hframes : (m.threads i).frames with
          | nil => exact Or.inl rfl
          | cons frame frames =>
              cases frame with
              | closure next => exact Or.inr (Or.inl ⟨_, rfl⟩)
              | operation next => exact Or.inr (Or.inl ⟨_, rfl⟩)
      | performThreadSafe body next =>
          refine Or.inr (Or.inl ?_)
          by_cases hflag : m.session.shuttingDown = true
          · simp only [if_pos hflag]
            exact ⟨_, rfl⟩
          · simp only [if_neg hflag]
            exact ⟨_, rfl⟩
      | _ => exact Or.inr (Or.inl ⟨_, rfl⟩)
  | acquire body next =>
      cases hacquire : m.executionLock.acquire i with
      | none => exact Or.inr (Or.inr rfl)
      | some lock => exact Or.inr (Or.inl ⟨_, rfl⟩)
  | acquireShutdown next =>
      cases hacquire : m.executionLock.acquire i with
      | none => exact Or.inr (Or.inr rfl)
      | some lock => exact Or.inr (Or.inl ⟨_, rfl⟩)
  | shutdown steps next =>
      cases steps with
      | nil => exact Or.inr (Or.inl ⟨_, rfl⟩)
      | cons first steps => exact Or.inr (Or.inl ⟨_, rfl⟩)

/-- There is no deadlock: while a thread is not at its end, some thread can go on. -/
theorem Accounted.exists_step (hm : m.Accounted) (hi : (m.threads i).isFinished = false) :
    ∃ j m', m.Step j m' := by
  rcases exists_step_or_waits m i with hfinished | ⟨m', hstep⟩ | hwaits
  · rw [hi] at hfinished
    cases hfinished
  · exact ⟨i, m', hstep⟩
  · -- The thread that has the lock is not at its end, and need not wait.
    rcases RecursiveLock.exists_holder hwaits with ⟨j, hdepth, hacquire⟩
    rcases exists_step_or_waits m j with hfinished | ⟨m', hstep⟩ | hwaits'
    · rw [← hm j, Thread.sections_of_isFinished hfinished] at hdepth
      exact absurd hdepth (Nat.lt_irrefl 0)
    · exact ⟨j, m', hstep⟩
    · exact absurd hwaits' hacquire

/-! ## Completion -/

section Completion

variable [Fintype ι]

/-- How many steps all threads take at most. -/
def bound (m : Machine ι Fn Get Set) : ℕ := ∑ i, (m.threads i).bound

theorem bound_step (h : m.Step i m') : m'.bound < m.bound := by
  have hturn := turn_of_step h
  refine Finset.sum_lt_sum (fun j _ => ?_) ⟨i, Finset.mem_univ i, hturn.less⟩
  by_cases hj : j = i
  · exact hj ▸ hturn.less.le
  · rw [hturn.others j hj]

omit [DecidableEq ι] in
theorem bound_start (s : Session Fn Get Set) (code : ι → Native Fn Get Set) :
    (start s code).bound = ∑ i, (code i).bound := by
  unfold bound start Thread.bound
  simp only [List.map_nil, List.sum_nil, Nat.add_zero]
  rfl

/-- Every schedule is finite, and can be carried on until all threads are at their end and the
    lock is free. Where no thread can go on, that is so already. -/
theorem completes_of_run {s : Session Fn Get Set} {code : ι → Native Fn Get Set}
    {schedule : List ι} (hrun : Run Step (start s code) schedule m) :
    schedule.length ≤ ∑ i, (code i).bound ∧
      (∃ rest m', Run Step m rest m' ∧ ∀ j m'', ¬ m'.Step j m'') ∧
      ((∀ j m', ¬ m.Step j m') →
        (∀ i, (m.threads i).isFinished = true) ∧ m.executionLock = none) := by
  have hless (m : Machine ι Fn Get Set) (i : ι) (m' : Machine ι Fn Get Set) (h : m.Step i m') :
      m'.bound < m.bound := bound_step h
  have hm : m.Accounted :=
    hrun.invariant (P := Accounted) (fun _ _ _ hm hstep => hm.step hstep) (accounted_start s code)
  refine ⟨?_, Run.exists_final hless m, fun hfinal => ?_⟩
  · have hlength := Run.length_le hless hrun
    rw [bound_start] at hlength
    omega
  · have hfinished (i : ι) : (m.threads i).isFinished = true := by
      by_contra hi
      rcases hm.exists_step (Bool.eq_false_iff.mpr hi) with ⟨j, m', hstep⟩
      exact hfinal j m' hstep
    refine ⟨hfinished, ?_⟩
    cases hlock : m.executionLock with
    | none => rfl
    | some held =>
        rcases held with ⟨j, again⟩
        have hdepth := hm j
        rw [Thread.sections_of_isFinished (hfinished j), hlock] at hdepth
        rw [RecursiveLock.depth_some, if_pos rfl] at hdepth
        exact absurd hdepth (Nat.succ_ne_zero again).symm

end Completion

theorem completes_of_run_performs : ∃ m : Machine Bool ℕ Unit Unit,
    m.executionLock = some (true, 0) ∧
      ∃ rest m', Run Step m rest m' ∧ ∀ j m'', ¬ m'.Step j m'' := by
  rcases run_performs with ⟨m, hrun, hlock⟩
  exact ⟨m, hlock, (completes_of_run hrun).2.1⟩

end Machine

end Substrata
