import Substrata.Basis.Run
import Substrata.Core.Threads

/-!
# The stack limit

The guard of the engine against recursion. A runtime has one limit, an address, and a
check compares the stack pointer with it. The limit is computed from `stack_top`, which is
where the stack of some thread was when `JS_UpdateStackTop` ran, and from a size. Swift sets
the size. It never calls `JS_UpdateStackTop`, so `stack_top` is from `JS_NewRuntime`.

Stacks grow downwards. Each thread has one, a range of addresses of its own, and none takes
half of all addresses. Public operations run under the execution lock, on the thread that
calls them.

Builds for WASI, and builds with the address sanitizer, have no limit and are left out.

## Main definitions

* `StackGuard`: The fields of a runtime.
* `jsCheckStackOverflow`: The check.
* `Stacks`: The stacks of the threads.
* `Guarding`: A runtime with the threads that use it.
* `Guarding.step`: One step of a thread.
-/

namespace Substrata

/-! ## The runtime -/

/-- What a runtime knows of the stack. -/
structure StackGuard where
  stackSize : UInt64
  stackTop : UInt64
  stackLimit : UInt64
  deriving DecidableEq

def updateStackLimit (rt : StackGuard) : StackGuard :=
  { rt with
    stackLimit :=
      if rt.stackSize = 0 then 0 -- no limit
      else rt.stackTop - rt.stackSize }

def jsSetMaxStackSize (stackSize : UInt64) (rt : StackGuard) : StackGuard :=
  updateStackLimit { rt with stackSize := stackSize }

/-- `JS_UpdateStackTop`, called with the stack pointer at `sp`. -/
def jsUpdateStackTop (sp : UInt64) (rt : StackGuard) : StackGuard :=
  updateStackLimit { rt with stackTop := sp }

/-- `js_check_stack_overflow`, called with the stack pointer at `sp`. -/
def jsCheckStackOverflow (rt : StackGuard) (sp allocaSize : UInt64) : Bool :=
  sp - allocaSize < rt.stackLimit

def jsDefaultStackSize : UInt64 := 1024 * 1024

/-- What `JS_NewRuntime` makes of a block of zeros. -/
def jsNewRuntime (sp : UInt64) : StackGuard :=
  jsUpdateStackTop sp { stackSize := jsDefaultStackSize, stackTop := 0, stackLimit := 0 }

/-- `JSEngine.init`. -/
def StackGuard.init (sp : UInt64) : StackGuard :=
  jsSetMaxStackSize (1024 * 1024 * 5) (jsNewRuntime sp)

/-- The stack size that `setLimits` settles for. -/
def validatedStack (stackSize : UInt64) : UInt64 :=
  max (1024 * 64) (min stackSize (1024 * 1024 * 64))

/-! ## The threads -/

/-- The stacks of the threads. -/
structure Stacks (ι : Type) where
  low : ι → UInt64
  high : ι → UInt64
  ordered : ∀ i, low i ≤ high i
  small : ∀ i, (high i).toNat - (low i).toNat < 2 ^ 63
  apart : ∀ i j a, low i ≤ a → a ≤ high i → low j ≤ a → a ≤ high j → i = j

variable {ι : Type}

/-- An address of the stack of a thread. -/
def Stacks.Address (S : Stacks ι) (i : ι) : Type := { a : UInt64 // S.low i ≤ a ∧ a ≤ S.high i }

/-- A runtime with the threads that use it: where each has its stack pointer, and the
    execution lock. -/
structure Guarding (S : Stacks ι) where
  guard : StackGuard
  executionLock : RecursiveLock ι
  sp : (i : ι) → S.Address i

/-- What a thread does: it calls and returns, it begins and ends a closure of
    `performThreadSafe`, it runs `setLimits`, or JS code on it reaches a check. -/
inductive StackOp
  | push (frame : UInt64)
  | pop (frame : UInt64)
  | enter
  | leave
  | setLimits (stackSize : UInt64)
  | js (allocaSize : UInt64)
  deriving DecidableEq

namespace Guarding

variable [DecidableEq ι] {S : Stacks ι}

/-- A thread moves its stack pointer to an address of its stack. -/
def moveTo (i : ι) (a : UInt64) (s : Guarding S) : Option (Guarding S) :=
  if h : S.low i ≤ a ∧ a ≤ S.high i then
    some { s with sp := Function.update s.sp i ⟨a, h⟩ }
  else
    none

/-- A thread is in a closure of `performThreadSafe`. -/
def holds (i : ι) (s : Guarding S) : Bool :=
  match s.executionLock with
  | some (j, _) => j = i
  | none => false

/-- One step of a thread. -/
def step (s : Guarding S) (i : ι) : StackOp → Option (Guarding S)
  | .push frame => s.moveTo i ((s.sp i).1 - frame)
  | .pop frame => s.moveTo i ((s.sp i).1 + frame)
  | .enter => do
    let lock ← s.executionLock.acquire i
    some { s with executionLock := lock }
  | .leave =>
    if s.holds i then some { s with executionLock := s.executionLock.release } else none
  | .setLimits stackSize =>
    if s.holds i then
      some { s with guard := jsSetMaxStackSize (validatedStack stackSize) s.guard }
    else
      none
  -- An overflow is an exception, and the runtime stays as it is.
  | .js _ => if s.holds i then some s else none

/-- A thread takes a step. -/
def Step (s : Guarding S) (a : ι × StackOp) (s' : Guarding S) : Prop := s.step a.1 a.2 = some s'

/-- An engine that the thread `creator` has just made. -/
def start (S : Stacks ι) (creator : ι) (sp : (i : ι) → S.Address i) : Guarding S where
  guard := StackGuard.init (sp creator).1
  executionLock := none
  sp := sp

end Guarding

end Substrata
