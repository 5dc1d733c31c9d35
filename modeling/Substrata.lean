import Substrata.Basis.Run
import Substrata.Basis.Dict
import Substrata.Basis.Binary
import Substrata.Basis.Utf16
import Substrata.Core.CFunction
import Substrata.Core.Value
import Substrata.Core.Heap
import Substrata.Core.Convert
import Substrata.Core.Context
import Substrata.Core.Engine
import Substrata.Core.Process
import Substrata.Theory.Operations
import Substrata.Theory.Registry
import Substrata.Theory.Statics
import Substrata.Theory.Attach
import Substrata.Theory.Numbers
import Substrata.Theory.Absent
import Substrata.Theory.Objects
import Substrata.Theory.Picture
import Substrata.Basis.Fallible
import Substrata.Theory.Decode
import Substrata.Theory.RoundTrip
import Substrata.Basis.DepthFirst
import Substrata.Theory.Cycles
import Substrata.Theory.Keys
import Substrata.Theory.Sections
import Substrata.Core.Native
import Substrata.Theory.Shutdown
import Substrata.Core.Threads
import Substrata.Theory.Gate
import Substrata.Core.Activity
import Substrata.Theory.Waiting
import Substrata.Core.Instances
import Substrata.Theory.Instances
import Substrata.Basis.Counting
import Substrata.Core.References
import Substrata.Theory.References
import Substrata.Basis.Interaction
import Substrata.Core.Calls
import Substrata.Theory.Accounting
import Substrata.Theory.Delivery
import Substrata.Theory.Ownership
import Substrata.Core.Typed
import Substrata.Theory.Typed
import Substrata.Core.Allocation
import Substrata.Theory.Allocation
import Substrata.Core.Stack
import Substrata.Theory.Stack
import Substrata.Theory.Isolation
import Substrata.Theory.Globals
import Substrata.Core.Scripted
import Substrata.Theory.Scripted
import Substrata.Theory.Chains
import Substrata.Theory.Congruence
import Substrata.Core.Wrapper
import Substrata.Theory.Wrapper
import Substrata.Core.Methods
import Substrata.Theory.Methods
import Substrata.Theory.Tables
import Substrata.Theory.Dispatch
import Substrata.Core.Construction
import Substrata.Theory.Construction
import Substrata.Theory.Sealed
import Substrata.Core.Invoke
import Substrata.Theory.Callback
import Substrata.Core.Paths
import Substrata.Theory.Paths
import Substrata.Theory.Bridge
import Substrata.Theory.Locking
import Substrata.Theory.Regions
import Substrata.Theory.Confinement
import Substrata.Theory.Store
import Substrata.Basis.Reduction
import Substrata.Theory.Serial
import Substrata.Theory.Recoding
import Substrata.Basis.Traversal
import Substrata.Core.Collector
import Substrata.Theory.Marking
import Substrata.Theory.Reclaim
import Substrata.Theory.Collection
import Substrata.Theory.Memory
import Substrata.Theory.Timing
import Substrata.Theory.Teardown
