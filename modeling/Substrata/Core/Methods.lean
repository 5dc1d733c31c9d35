import Substrata.Core.Heap

/-!
# The table of methods

The built-in script `_getInstanceMethodNames`, which collects the methods of an
object into a table.

It goes up the prototype chain from the prototype of the object. On each level it
looks at every own name, enumerable or not, and where that is a function it
assigns the property of the object to the table. The table is an object literal,
so it inherits from `Object.prototype`, and the assignments are ordinary ones: in
sloppy code a refused one goes unnoticed.

The arrays and descriptors that the script makes on the way are not numbered, as
nothing else can reach them.

## Main definitions

* `Heap.getOwnPropertyNames`: `Object.getOwnPropertyNames`.
* `Heap.hasMethod`: `_hasMethod`.
* `Heap.getInstanceMethodNames`: `_getInstanceMethodNames`.
-/

namespace Substrata

namespace Heap

/-- `Object.getOwnPropertyNames`, without the order among numbers. -/
def getOwnPropertyNames (h : Heap) (ref : ℕ) : List Atom :=
  match h.objects[ref]? with
  | none => []
  | some o =>
    (match o.u with
      | .array values => (List.range values.length).map Atom.index
      | _ => []) ++ o.properties.map Prod.fst

/-- `_hasMethod`: the value of an own property is a function. -/
def hasMethod (h : Heap) (ref : ℕ) (atom : Atom) : Bool :=
  match h.own atom ref with
  | some (.value v _ _) => h.isFunction v
  | _ => false

/-- `name !== 'constructor' && !name.includes("_")`. -/
def isMethodName (atom : Atom) : Bool :=
  atom ≠ jsNewAtom "constructor" ∧ '_'.toNat.toUInt16 ∉ atom.toJSString

/-- `Object.getPrototypeOf`. -/
def getPrototypeOf (h : Heap) (ref : ℕ) : Option ℕ := (h.objects[ref]?).bind (·.proto)

/-- The callback of `forEach`. -/
def collectName (obj output proto : ℕ) (h : Heap) (name : Atom) : Outcome Heap :=
  if isMethodName name then
    if h.hasMethod proto name then
      match h.getProperty obj name with
      | .error stop => .error stop
      | .ok v => h.setProperty output name v
    else
      .ok h
  else
    .ok h

/-- The loop of `_getInstanceMethodNames`, as often as the bound allows. -/
def collectMethods (obj output : ℕ) (stop : Option ℕ) : ℕ → Option ℕ → Heap → Outcome Heap
  | 0, _, _ => .error .outOfFuel
  | _ + 1, none, h => .ok h
  | fuel + 1, some proto, h =>
    if stop ≠ some proto then
      match (h.getOwnPropertyNames proto).foldlM (collectName obj output proto) h with
      | .error stop => .error stop
      | .ok h' => collectMethods obj output stop fuel (h'.getPrototypeOf proto) h'
    else
      .ok h

/-- `_getInstanceMethodNames`, with the table. -/
def getInstanceMethodNames (h : Heap) (fuel obj : ℕ) (stop : Option ℕ) : Outcome (Heap × ℕ) :=
  match collectMethods obj h.newObject.2 stop fuel (h.newObject.1.getPrototypeOf obj)
    h.newObject.1 with
  | .error stop => .error stop
  | .ok h' => .ok (h', h.newObject.2)

end Heap

end Substrata
