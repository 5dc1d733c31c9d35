import Substrata.Core.Stack

/-!
# Whose stack the limit measures

The limit is an address of one stack, so a check means something only on the thread whose
stack that is. `stack_top` is written once, by the thread that makes the engine, and no step
moves it: a check measures the depth of the thread it runs on when that is the same thread.
On another thread the comparison is between addresses of different stacks. If that thread
has the lower stack every operation is refused as an overflow, and if it has the higher one
no recursion is.

The difference of `stack_top` and the size is taken modulo `2 ^ 64`. Where a stack lies lower
than the size reaches, the limit is near the end of all addresses, above the stack.

## Main definitions

* `StackGuard.Measures`: The check measures the depth of a thread.
* `Guarding.Measured`: It does so in a step.
* `Guarding.AtHome`: JS code runs on the thread that made the engine.
* `Guarding.Rooted`: The invariant.

## Theorems

* `StackGuard.measures_iff`: When a check measures the depth of a thread.
* `Rooted.step`: No step moves `stack_top`.
* `measured_iff_atHome`: Which runs are measured.
* `exists_not_measured`: An engine used on a second thread.
-/

namespace Substrata

open Transition (Run Guarded)

/-! ## The check -/

/-- The check measures the depth of a thread: `stack_top` is an address of its stack, what
    is entered at the top of the stack passes, and what is more than the size below
    `stack_top` does not. -/
structure StackGuard.Measures {ι : Type} (rt : StackGuard) (S : Stacks ι) (i : ι) : Prop where
  own : S.low i ≤ rt.stackTop ∧ rt.stackTop ≤ S.high i
  entered : ∀ allocaSize ≤ rt.stackSize, jsCheckStackOverflow rt (S.high i) allocaSize = false
  stopped : ∀ (sp : S.Address i) (allocaSize : UInt64), allocaSize ≤ sp.1 →
    (sp.1 - allocaSize).toNat + rt.stackSize.toNat < rt.stackTop.toNat →
    jsCheckStackOverflow rt sp.1 allocaSize = true

/-- A limit is in force, and it is below what `setLimits` allows at most. -/
structure StackGuard.Limited (rt : StackGuard) : Prop where
  pos : rt.stackSize ≠ 0
  le : rt.stackSize.toNat ≤ 2 ^ 26
  limit : rt.stackLimit = rt.stackTop - rt.stackSize

theorem limited_jsSetMaxStackSize {stackSize : UInt64} (rt : StackGuard) (hpos : stackSize ≠ 0)
    (hle : stackSize.toNat ≤ 2 ^ 26) : (jsSetMaxStackSize stackSize rt).Limited where
  pos := hpos
  le := hle
  limit := if_neg hpos

theorem limited_init (sp : UInt64) : (StackGuard.init sp).Limited :=
  limited_jsSetMaxStackSize _ (by decide) (by decide)

/-- The size that `setLimits` settles for is between its two bounds. -/
theorem validatedStack_spec (stackSize : UInt64) :
    validatedStack stackSize ≠ 0 ∧ (validatedStack stackSize).toNat ≤ 2 ^ 26 := by
  have hmin : (min stackSize (1024 * 1024 * 64)).toNat ≤ 2 ^ 26 := by
    show (if stackSize ≤ 1024 * 1024 * 64 then stackSize else 1024 * 1024 * 64).toNat ≤ 2 ^ 26
    by_cases h : stackSize ≤ 1024 * 1024 * 64
    · rw [if_pos h]
      exact UInt64.le_iff_toNat_le.mp h
    · rw [if_neg h]
      decide
  have hmax : validatedStack stackSize =
      if 1024 * 64 ≤ min stackSize (1024 * 1024 * 64) then min stackSize (1024 * 1024 * 64)
      else 1024 * 64 := rfl
  rw [hmax]
  by_cases h : 1024 * 64 ≤ min stackSize (1024 * 1024 * 64)
  · rw [if_pos h]
    refine ⟨fun hzero => ?_, hmin⟩
    rw [hzero] at h
    exact absurd h (by decide)
  · rw [if_neg h]
    exact ⟨by decide, by decide⟩

/-- On the thread whose stack has `stack_top`, the check measures the depth exactly when the
    limit is an address below. -/
theorem StackGuard.measures_iff {ι : Type} {rt : StackGuard} {S : Stacks ι} {creator : ι}
    (hrt : rt.Limited) (htop : S.low creator ≤ rt.stackTop ∧ rt.stackTop ≤ S.high creator)
    (i : ι) : rt.Measures S i ↔ i = creator ∧ rt.stackSize ≤ rt.stackTop := by
  have hle := hrt.le
  have hlow := UInt64.le_iff_toNat_le.mp htop.1
  have hhigh := UInt64.le_iff_toNat_le.mp htop.2
  constructor
  · intro h
    have hi : i = creator := S.apart i creator rt.stackTop h.own.1 h.own.2 htop.1 htop.2
    rw [hi] at h
    refine ⟨hi, ?_⟩
    by_contra hwrap
    have hlt : rt.stackTop.toNat < rt.stackSize.toNat := by
      rw [UInt64.le_iff_toNat_le] at hwrap
      exact Nat.lt_of_not_le hwrap
    -- The limit has wrapped, and the stack does not reach that far up.
    have hlimit : rt.stackLimit.toNat = 2 ^ 64 + rt.stackTop.toNat - rt.stackSize.toNat := by
      rw [hrt.limit, UInt64.toNat_sub]
      omega
    have hpass := h.entered 0 (UInt64.le_iff_toNat_le.mpr (Nat.zero_le _))
    unfold jsCheckStackOverflow at hpass
    rw [UInt64.sub_zero, decide_eq_false_iff_not, UInt64.lt_iff_toNat_lt, hlimit] at hpass
    have hsmall := S.small creator
    have hbound := (S.high creator).toNat_lt
    omega
  · rintro ⟨rfl, hfits⟩
    have hlimit : rt.stackLimit.toNat = rt.stackTop.toNat - rt.stackSize.toNat := by
      rw [hrt.limit, UInt64.toNat_sub_of_le _ _ hfits]
    rw [UInt64.le_iff_toNat_le] at hfits
    refine ⟨htop, fun allocaSize halloca => ?_, fun sp allocaSize halloca hdeep => ?_⟩
    · have hroom : allocaSize ≤ S.high i := by
        rw [UInt64.le_iff_toNat_le] at halloca ⊢
        omega
      unfold jsCheckStackOverflow
      rw [decide_eq_false_iff_not, UInt64.lt_iff_toNat_lt, hlimit,
        UInt64.toNat_sub_of_le _ _ hroom]
      rw [UInt64.le_iff_toNat_le] at halloca
      omega
    · unfold jsCheckStackOverflow
      rw [decide_eq_true_iff, UInt64.lt_iff_toNat_lt, hlimit]
      omega

/-! ## Runs -/

namespace Guarding

variable {ι : Type} {S : Stacks ι}

/-- Where JS code runs, the check measures the depth of its thread. -/
def Measured (s : Guarding S) (a : ι × StackOp) : Prop :=
  ∀ allocaSize, a.2 = .js allocaSize → s.guard.Measures S a.1

/-- JS code runs on the thread that made the engine, and the size in force reaches no
    further down than addresses go. -/
def AtHome (creator : ι) (s : Guarding S) (a : ι × StackOp) : Prop :=
  ∀ allocaSize, a.2 = .js allocaSize → a.1 = creator ∧ s.guard.stackSize ≤ s.guard.stackTop

/-- `stack_top` is an address of the thread that made the engine. -/
structure Rooted (creator : ι) (s : Guarding S) : Prop where
  limited : s.guard.Limited
  top : S.low creator ≤ s.guard.stackTop ∧ s.guard.stackTop ≤ S.high creator

theorem rooted_start (creator : ι) (sp : (i : ι) → S.Address i) :
    (start S creator sp).Rooted creator where
  limited := limited_init _
  top := (sp creator).2

/-- In a state that a run reaches, a check measures the depth of its thread exactly when it
    is at home. -/
theorem Rooted.measured_iff {creator : ι} {s : Guarding S} (h : s.Rooted creator)
    (a : ι × StackOp) : s.Measured a ↔ s.AtHome creator a :=
  forall₂_congr fun _ _ => StackGuard.measures_iff h.limited h.top a.1

variable [DecidableEq ι]

/-- What a step does to the runtime: nothing, unless it is `setLimits`. -/
theorem guard_of_step {s s' : Guarding S} {a : ι × StackOp} (hstep : Step s a s') :
    s'.guard = s.guard ∨
      ∃ stackSize, s'.guard = jsSetMaxStackSize (validatedStack stackSize) s.guard := by
  rcases a with ⟨i, op⟩
  have hmove {x : UInt64} (h : s.moveTo i x = some s') : s'.guard = s.guard := by
    unfold moveTo at h
    split at h
    · rw [← Option.some.inj h]
    · exact absurd h nofun
  have hstep : s.step i op = some s' := hstep
  cases op with
  | push frame => exact Or.inl (hmove hstep)
  | pop frame => exact Or.inl (hmove hstep)
  | enter =>
      rcases Option.bind_eq_some_iff.mp hstep with ⟨lock, -, heq⟩
      rw [← Option.some.inj heq]
      exact Or.inl rfl
  | leave =>
      simp only [step] at hstep
      split at hstep
      · rw [← Option.some.inj hstep]
        exact Or.inl rfl
      · exact absurd hstep nofun
  | setLimits stackSize =>
      simp only [step] at hstep
      split at hstep
      · rw [← Option.some.inj hstep]
        exact Or.inr ⟨stackSize, rfl⟩
      · exact absurd hstep nofun
  | js allocaSize =>
      simp only [step] at hstep
      split at hstep
      · rw [Option.some.inj hstep]
        exact Or.inl rfl
      · exact absurd hstep nofun

/-- No step moves `stack_top`. -/
theorem Rooted.step {creator : ι} {s s' : Guarding S} {a : ι × StackOp}
    (h : s.Rooted creator) (hstep : Step s a s') : s'.Rooted creator := by
  rcases guard_of_step hstep with hguard | ⟨stackSize, hguard⟩
  · exact ⟨hguard ▸ h.limited, hguard ▸ h.top⟩
  · rcases validatedStack_spec stackSize with ⟨hpos, hle⟩
    refine ⟨?_, ?_⟩
    · rw [hguard]
      exact limited_jsSetMaxStackSize s.guard hpos hle
    · rw [hguard]
      exact h.top

theorem Rooted.run {creator : ι} {s s' : Guarding S} {as : List (ι × StackOp)}
    (h : s.Rooted creator) (hrun : Run Step s as s') : s'.Rooted creator :=
  hrun.invariant (fun _ _ _ hs hstep => hs.step hstep) h

/-- A run is measured throughout exactly when it is at home throughout. -/
theorem measured_iff_atHome (S : Stacks ι) (creator : ι) (sp : (i : ι) → S.Address i)
    (as : List (ι × StackOp)) (s : Guarding S) :
    Run (Guarded Measured Step) (start S creator sp) as s ↔
      Run (Guarded (AtHome creator) Step) (start S creator sp) as s :=
  Run.guarded_congr (fun _ _ hrun a => ((rooted_start creator sp).run hrun).measured_iff a)

/-! ## A second thread -/

/-- Two stacks of eight megabytes, the first one higher. -/
def twoStacks : Stacks Bool where
  low i := if i then 0x70000000 else 0x10000000
  high i := if i then 0x70800000 else 0x10800000
  ordered := by decide
  small := by decide
  apart := by
    intro i j a hi hi' hj hj'
    rw [UInt64.le_iff_toNat_le] at hi hi' hj hj'
    cases i <;> cases j <;>
      simp only [Bool.false_eq_true, if_false, if_true, reduceCtorEq] at hi hi' hj hj' ⊢
    · exact absurd (hj.trans hi') (by decide)
    · exact absurd (hi.trans hj') (by decide)

/-- An engine is made on the thread with the higher stack. The other thread evaluates a
    script, which is refused as an overflow at the very top of its stack. -/
theorem exists_not_measured :
    ∃ (sp : (i : Bool) → twoStacks.Address i) (s : Guarding twoStacks),
      Run Step (start twoStacks true sp) [(false, .enter), (false, .js 0)] s ∧
        (sp false).1 = twoStacks.high false ∧
        jsCheckStackOverflow s.guard (sp false).1 0 = true ∧
        ¬ Run (Guarded Measured Step) (start twoStacks true sp)
          [(false, .enter), (false, .js 0)] s := by
  let sp : (i : Bool) → twoStacks.Address i := fun i =>
    ⟨twoStacks.high i, twoStacks.ordered i, UInt64.le_refl _⟩
  have hrun : ∃ s, Run Step (start twoStacks true sp) [(false, .enter), (false, .js 0)] s ∧
      s.guard = StackGuard.init 0x70800000 :=
    ⟨_, Run.cons rfl (Run.cons rfl Run.nil), rfl⟩
  rcases hrun with ⟨s, hrun, hguard⟩
  refine ⟨sp, s, hrun, rfl, by rw [hguard]; decide, fun hmeasured => ?_⟩
  have hmeasured : Run (Guarded Measured Step) (start twoStacks true sp)
      ([(false, .enter)] ++ [(false, .js 0)]) s := hmeasured
  rcases Run.guarded_last hmeasured with ⟨u, hprefix, hlast⟩
  have hhome := ((rooted_start true sp).run hprefix).measured_iff (false, .js 0) |>.mp hlast
  exact absurd (hhome 0 rfl).1 nofun

end Guarding

end Substrata
