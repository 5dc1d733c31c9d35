import Substrata.Basis.Traversal
import Mathlib.Data.Int.Notation
import Mathlib.Data.Option.Basic
import Mathlib.Logic.Function.Basic

/-!
# The memory of the engine

Reference counts, and the collector for what they miss: a cycle keeps the counts of its own
objects above zero.

Everything in `gc_obj_list` has a header with a count, and refers to other things with a header.
What an object refers to is marked by `mark_children`, which calls a function on each reference,
and given up when the object is freed, in another order. Strings, symbols and big integers have
counts too, but refer to nothing and are not seen by the collector; atoms, weak references,
modules, and variables that are still on a stack are left out as well.

`JS_RunGC` takes every reference between things with a header off the counts. What keeps a count
is held from outside. From there it puts the references back, and follows them. What then has
none is freed.

Memory that was freed has no header. Reading it stops the program, as does an assertion.

## Main definitions

* `Contents`: What a thing with a header refers to.
* `Memory`: The headers with the lists they are linked in.
* `freeValueRT`, `freeShape`, `freeVarRef`, `freeContext`: One reference is given up.
* `freeGcObject`, `freeZeroRefcount`: What has no references left is freed.
* `gcDecref`, `gcScan`, `gcFreeCycles`: The three passes of the collector.
* `jsRunGC`: The collector.
* `jsFreeValueRT`, `jsFreeChild`: References given up while no pass is under way.
* `jsFreeRuntime`: The end of a runtime.
* `Use`, `Usage.Step`: What is done to the memory.
-/

namespace Substrata

/-- A reference, by the type that the field has in the source. -/
inductive Child
  | value (ref : ℕ)
  | shape (ref : ℕ)
  | varRef (ref : ℕ)
  | asyncFunction (ref : ℕ)
  | context (ref : ℕ)
  deriving DecidableEq

/-- The thing referred to. -/
def Child.ref : Child → ℕ
  | .value ref => ref
  | .shape ref => ref
  | .varRef ref => ref
  | .asyncFunction ref => ref
  | .context ref => ref

/-- What a thing with a header refers to, by `gc_obj_type`. An object refers to its shape, to what
    its properties hold, and to what its class keeps. -/
inductive Contents
  | jsObject (shape : Option ℕ) (prop data : List Child)
  | functionBytecode (cpool : List ℕ) (realm : Option ℕ) (ic : List ℕ)
  | shape (proto : Option ℕ)
  -- a detached variable
  | varRef (value : Option ℕ)
  | asyncFunction (callee stack resolvingFuncs : List ℕ)
  | jsContext (values : List ℕ) (arrayShape : Option ℕ)
  deriving DecidableEq

namespace Contents

/-- What `mark_children` calls its function on, in this order. -/
def children : Contents → List Child
  | .jsObject sh prop data => sh.toList.map .shape ++ prop ++ data
  | .functionBytecode cpool realm ic =>
      cpool.map .value ++ realm.toList.map .context ++ ic.map .shape
  | .shape proto => proto.toList.map .value
  | .varRef value => value.toList.map .value
  | .asyncFunction callee stack resolvingFuncs =>
      callee.map .value ++ stack.map .value ++ resolvingFuncs.map .value
  | .jsContext values arrayShape => values.map .value ++ arrayShape.toList.map .shape

/-- What is given up when it is freed, in this order. -/
def released : Contents → List Child
  | .jsObject sh prop data => prop ++ sh.toList.map .shape ++ data
  | .functionBytecode cpool realm ic =>
      ic.map .shape ++ cpool.map .value ++ realm.toList.map .context
  | .shape proto => proto.toList.map .value
  | .varRef value => value.toList.map .value
  | .asyncFunction callee stack resolvingFuncs =>
      stack.map .value ++ callee.map .value ++ resolvingFuncs.map .value
  | .jsContext values arrayShape => values.map .value ++ arrayShape.toList.map .shape

/-- The same with nothing in it. -/
def cleared : Contents → Contents
  | .jsObject _ _ _ => .jsObject none [] []
  | .functionBytecode _ _ _ => .functionBytecode [] none []
  | .shape _ => .shape none
  | .varRef _ => .varRef none
  | .asyncFunction _ _ _ => .asyncFunction [] [] []
  | .jsContext _ _ => .jsContext [] none

/-- What a JS value can be. These are freed from `gc_zero_ref_count_list`, the others at once. -/
def isValue : Contents → Bool
  | .jsObject _ _ _ => true
  | .functionBytecode _ _ _ => true
  | _ => false

def isShape : Contents → Bool
  | .shape _ => true
  | _ => false

def isVarRef : Contents → Bool
  | .varRef _ => true
  | _ => false

def isAsyncFunction : Contents → Bool
  | .asyncFunction _ _ _ => true
  | _ => false

def isContext : Contents → Bool
  | .jsContext _ _ => true
  | _ => false

end Contents

/-- Whether the contents are of the type that a reference has. -/
def Child.fits (c : Contents) : Child → Bool
  | .value _ => c.isValue
  | .shape _ => c.isShape
  | .varRef _ => c.isVarRef
  | .asyncFunction _ => c.isAsyncFunction
  | .context _ => c.isContext

/-- `JSGCObjectHeader`, with the rest of the thing that it is the header of. -/
structure JSGCObjectHeader where
  refCount : ℤ
  mark : Bool
  contents : Contents
  deriving DecidableEq

/-- `gc_phase`. -/
inductive JSGCPhase
  | none
  | decref
  | removeCycles
  deriving DecidableEq

/-- The part of `JSRuntime` that keeps track of memory. -/
structure Memory where
  header : ℕ → Option JSGCObjectHeader
  gcObjList : List ℕ
  gcZeroRefCountList : List ℕ := []
  tmpObjList : List ℕ := []
  gcPhase : JSGCPhase := .none

namespace Memory

/-- The header is written. -/
def put (m : Memory) (p : ℕ) (h : JSGCObjectHeader) : Memory :=
  { m with header := Function.update m.header p (some h) }

/-- `js_free_rt`. -/
def free (m : Memory) (p : ℕ) : Memory :=
  { m with header := Function.update m.header p none }

/-- `list_del`. A header is in one of the lists. -/
def unlink (m : Memory) (p : ℕ) : Memory :=
  { m with
    gcObjList := m.gcObjList.erase p
    gcZeroRefCountList := m.gcZeroRefCountList.erase p
    tmpObjList := m.tmpObjList.erase p }

/-- `list_del`, and `list_add_tail` to `gc_obj_list`. -/
def moveToGc (m : Memory) (p : ℕ) : Memory :=
  { m.unlink p with gcObjList := (m.unlink p).gcObjList ++ [p] }

/-- The same to `tmp_obj_list`. -/
def moveToTmp (m : Memory) (p : ℕ) : Memory :=
  { m.unlink p with tmpObjList := (m.unlink p).tmpObjList ++ [p] }

/-- The same to `gc_zero_ref_count_list`. -/
def moveToZero (m : Memory) (p : ℕ) : Memory :=
  { m.unlink p with gcZeroRefCountList := (m.unlink p).gcZeroRefCountList ++ [p] }

/-- `list_del`, and `list_add` to the head of `gc_zero_ref_count_list`. -/
def pushToZero (m : Memory) (p : ℕ) : Memory :=
  { m.unlink p with gcZeroRefCountList := p :: (m.unlink p).gcZeroRefCountList }

/-- The number of headers in the lists. -/
def size (m : Memory) : ℕ :=
  m.gcObjList.length + m.gcZeroRefCountList.length + m.tmpObjList.length

/-! ### References given up -/

/-- `JS_FreeValueRT` while a pass is under way: what is left without references waits to be
    freed, and in a cycle it is freed anyway. -/
def freeValueRT (p : ℕ) (m : Memory) : Option Memory := do
  let h ← m.header p
  guard h.contents.isValue
  let m := m.put p { h with refCount := h.refCount - 1 }
  some (if h.refCount - 1 ≤ 0 ∧ m.gcPhase ≠ .removeCycles then m.pushToZero p else m)

/-- `remove_gc_object` and `js_free_rt`, of what is freed at once. -/
def discard (p : ℕ) (m : Memory) : Memory := (m.unlink p).free p

/-- `js_free_shape`. How values are given up depends on the pass. -/
def freeShape (freeValue : ℕ → Memory → Option Memory) (p : ℕ) (m : Memory) : Option Memory := do
  let h ← m.header p
  guard h.contents.isShape
  let m := m.put p { h with refCount := h.refCount - 1 }
  if h.refCount - 1 ≤ 0 then
    guard (h.refCount - 1 = 0)
    let m ← h.contents.released.foldlM (fun m child => freeValue child.ref m) m
    some (m.discard p)
  else some m

/-- `free_var_ref`, of a detached variable. -/
def freeVarRef (freeValue : ℕ → Memory → Option Memory) (p : ℕ) (m : Memory) :
    Option Memory := do
  let h ← m.header p
  guard h.contents.isVarRef
  guard (0 < h.refCount)
  let m := m.put p { h with refCount := h.refCount - 1 }
  if h.refCount - 1 = 0 then
    let m ← h.contents.released.foldlM (fun m child => freeValue child.ref m) m
    some (m.discard p)
  else some m

/-- `js_async_function_free`. -/
def freeAsyncFunction (freeValue : ℕ → Memory → Option Memory) (p : ℕ) (m : Memory) :
    Option Memory := do
  let h ← m.header p
  guard h.contents.isAsyncFunction
  let m := m.put p { h with refCount := h.refCount - 1 }
  if h.refCount - 1 = 0 then
    let m ← h.contents.released.foldlM (fun m child => freeValue child.ref m) m
    some (m.discard p)
  else some m

/-- A field of a context. -/
def freeContextField (freeValue : ℕ → Memory → Option Memory) (m : Memory) :
    Child → Option Memory
  | .shape ref => freeShape freeValue ref m
  | child => freeValue child.ref m

/-- `JS_FreeContext`. -/
def freeContext (freeValue : ℕ → Memory → Option Memory) (p : ℕ) (m : Memory) :
    Option Memory := do
  let h ← m.header p
  guard h.contents.isContext
  let m := m.put p { h with refCount := h.refCount - 1 }
  if h.refCount - 1 = 0 then
    let m ← h.contents.released.foldlM (freeContextField freeValue) m
    some (m.discard p)
  else some m

/-- One reference, as its type has it. -/
def freeChild (freeValue : ℕ → Memory → Option Memory) (m : Memory) : Child → Option Memory
  | .value ref => freeValue ref m
  | .shape ref => freeShape freeValue ref m
  | .varRef ref => freeVarRef freeValue ref m
  | .asyncFunction ref => freeAsyncFunction freeValue ref m
  | .context ref => freeContext freeValue ref m

/-- `free_gc_object`, which is `free_object` or `free_function_bytecode`. In a cycle the others
    may still have references to it, and then its memory is kept until they are gone. -/
def freeGcObject (p : ℕ) (m : Memory) : Option Memory := do
  let h ← m.header p
  guard h.contents.isValue
  let m ← h.contents.released.foldlM (freeChild freeValueRT) m
  let h ← m.header p
  some (
    if m.gcPhase = .removeCycles ∧ h.refCount ≠ 0 then
      (m.put p { h with contents := h.contents.cleared }).moveToZero p
    else m.discard p)

/-- The loop of `free_zero_refcount`. -/
def freeZeroRefcountLoop : ℕ → Memory → Option Memory
  | bound, m =>
    match m.gcZeroRefCountList, bound with
    | [], _ => some m
    | _ :: _, 0 => none
    | p :: _, bound + 1 => do
      let h ← m.header p
      guard (h.refCount = 0)
      let m ← m.freeGcObject p
      freeZeroRefcountLoop bound m

/-- `free_zero_refcount`. -/
def freeZeroRefcount (m : Memory) : Option Memory := do
  let m ← freeZeroRefcountLoop m.size { m with gcPhase := .decref }
  some { m with gcPhase := .none }

/-- `JS_FreeValueRT` while no pass is under way. -/
def jsFreeValueRT (p : ℕ) (m : Memory) : Option Memory := do
  let h ← m.header p
  let m ← m.freeValueRT p
  if h.refCount - 1 ≤ 0 ∧ m.gcPhase = .none then m.freeZeroRefcount else some m

/-- A reference that is held outside of the memory is given up. -/
def jsFreeChild : Memory → Child → Option Memory := freeChild jsFreeValueRT

/-! ### The collector -/

/-- `gc_decref_child`. Counts that are not positive are left as they are; the assertion that they
    are is commented out. -/
def gcDecrefChild (m : Memory) (child : Child) : Option Memory := do
  let p ← m.header child.ref
  if p.refCount ≤ 0 then some m
  else
    let m := m.put child.ref { p with refCount := p.refCount - 1 }
    some (if p.refCount - 1 = 0 ∧ p.mark = true then m.moveToTmp child.ref else m)

/-- The body of the loop of `gc_decref`. -/
def gcDecrefVisit (el : ℕ) (m : Memory) : Option Memory := do
  let p ← m.header el
  guard (p.mark = false)
  let m ← p.contents.children.foldlM gcDecrefChild m
  let p ← m.header el
  let m := m.put el { p with mark := true }
  some (if p.refCount = 0 then m.moveToTmp el else m)

/-- `gc_decref`. -/
def gcDecref (m : Memory) : Option Memory :=
  let m := { m with tmpObjList := [] }
  Traversal.forEachSafe gcObjList gcDecrefVisit m.size m.gcObjList.head? m

/-- `gc_scan_incref_child`. -/
def gcScanIncrefChild (m : Memory) (child : Child) : Option Memory := do
  let p ← m.header child.ref
  some (
    if p.refCount + 1 = 1 then
      (m.put child.ref { p with refCount := p.refCount + 1, mark := false }).moveToGc child.ref
    else m.put child.ref { p with refCount := p.refCount + 1 })

/-- `gc_scan_incref_child2`. -/
def gcScanIncrefChild2 (m : Memory) (child : Child) : Option Memory := do
  let p ← m.header child.ref
  some (m.put child.ref { p with refCount := p.refCount + 1 })

/-- The body of the first loop of `gc_scan`. What it reaches is appended to the list that the
    loop walks. -/
def gcScanVisit (el : ℕ) (m : Memory) : Option Memory := do
  let p ← m.header el
  guard (0 < p.refCount)
  p.contents.children.foldlM gcScanIncrefChild (m.put el { p with mark := false })

/-- The body of the second loop of `gc_scan`. -/
def gcRestoreVisit (el : ℕ) (m : Memory) : Option Memory := do
  let p ← m.header el
  p.contents.children.foldlM gcScanIncrefChild2 m

/-- `gc_scan`. -/
def gcScan (m : Memory) : Option Memory := do
  let m ← Traversal.forEach gcObjList gcScanVisit m.size m.gcObjList.head? m
  Traversal.forEach tmpObjList gcRestoreVisit m.size m.tmpObjList.head? m

/-- The first loop of `gc_free_cycles`. What is not a JS value is left to be given up by what
    refers to it. -/
def gcFreeCyclesLoop : ℕ → Memory → Option Memory
  | bound, m =>
    match m.tmpObjList, bound with
    | [], _ => some m
    | _ :: _, 0 => none
    | p :: _, bound + 1 => do
      let h ← m.header p
      let m ← if h.contents.isValue then m.freeGcObject p else some (m.moveToZero p)
      gcFreeCyclesLoop bound m

/-- The body of the second loop of `gc_free_cycles`. -/
def gcFreeZombie (m : Memory) (el : ℕ) : Option Memory := do
  let h ← m.header el
  guard h.contents.isValue
  some (m.free el)

/-- `gc_free_cycles`. -/
def gcFreeCycles (m : Memory) : Option Memory := do
  let m ← gcFreeCyclesLoop m.size { m with gcPhase := .removeCycles }
  let m ← m.gcZeroRefCountList.foldlM gcFreeZombie { m with gcPhase := .none }
  some { m with gcZeroRefCountList := [] }

/-- `JS_RunGC`. -/
def jsRunGC (m : Memory) : Option Memory := do
  let m ← m.gcDecref
  let m ← m.gcScan
  m.gcFreeCycles

/-- `JS_FreeRuntime`. The pending exception and the arguments of the jobs that did not run are given
    up, in this order. It does not check what is left. -/
def jsFreeRuntime (currentException : Option ℕ) (jobList : List (List ℕ)) (m : Memory) :
    Option Memory := do
  let m ← (currentException.toList ++ jobList.flatten).foldlM (fun m p => m.jsFreeValueRT p) m
  m.jsRunGC

/-- `add_gc_object`, of something new with one reference to it. -/
def addGcObject (p : ℕ) (contents : Contents) (m : Memory) : Memory :=
  { m.put p { refCount := 1, mark := false, contents := contents } with
    gcObjList := m.gcObjList ++ [p] }

/-- `JS_DupValue`, and the same for what is not a JS value. -/
def jsDupValue (p : ℕ) (m : Memory) : Option Memory := do
  let h ← m.header p
  some (m.put p { h with refCount := h.refCount + 1 })

/-- The fields of something are written. No count is changed: references move between the fields
    and whoever writes them. -/
def assign (p : ℕ) (contents : Contents) (m : Memory) : Option Memory := do
  let h ← m.header p
  some (m.put p { h with contents := contents })

end Memory

/-! ### What the memory is used for -/

/-- What the interpreter and native code do to the memory. The collector may run at any time
    between two of them; it does when something is allocated. -/
inductive Use
  | create (p : ℕ) (contents : Contents)
  | dup (p : ℕ)
  | give (child : Child)
  | assign (p : ℕ) (contents : Contents)
  | runGC

/-- The memory, with the number of references to each thing that are held outside of it: by
    native code, on the stack, by wrappers. -/
structure Usage where
  memory : Memory
  held : ℕ → ℕ

namespace Use

def run : Use → Memory → Option Memory
  | .create p contents, m => some (m.addGcObject p contents)
  | .dup p, m => m.jsDupValue p
  | .give child, m => m.jsFreeChild child
  | .assign p contents, m => m.assign p contents
  | .runGC, m => m.jsRunGC

/-- What is held afterwards. What is put into fields is not held any more, and what was in them
    before is. -/
def held (use : Use) (u : Usage) (q : ℕ) : ℕ :=
  match use with
  | .create p contents =>
      u.held q - (contents.children.map Child.ref).count q + if q = p then 1 else 0
  | .dup p => u.held q + if q = p then 1 else 0
  | .give child => u.held q - if q = child.ref then 1 else 0
  | .assign p contents =>
      u.held q + (match u.memory.header p with
        | none => 0
        | some h => (h.contents.children.map Child.ref).count q)
      - (contents.children.map Child.ref).count q
  | .runGC => u.held q

end Use

/-- The memory is used. -/
def Usage.Step (u : Usage) (use : Use) (u' : Usage) : Prop :=
  use.run u.memory = some u'.memory ∧ u'.held = use.held u

end Substrata
