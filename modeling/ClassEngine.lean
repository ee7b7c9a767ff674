import ClassEngine.ClassFile.Builder
import ClassEngine.ClassFile.Parse
import ClassEngine.Code.Assembler
import ClassEngine.Code.Listing
import ClassEngine.Command.Perform
import ClassEngine.Machine.Host
import ClassEngine.Main
import ClassEngine.Project.Manifest
import ClassEngine.Proofs.Machine.Effect
import ClassEngine.Search.ClassPath
import ClassEngine.Snapshot.Encoding
import ClassEngine.Proofs.Machine.Instructions
import ClassEngine.Proofs.Machine.Initialization
import ClassEngine.Proofs.Machine.Exceptions
import ClassEngine.Proofs.Machine.Frames
import ClassEngine.Proofs.Machine.Hierarchy
import ClassEngine.Proofs.Machine.Entries
import ClassEngine.Proofs.Machine.Unwinding
import ClassEngine.Proofs.Machine.History
import ClassEngine.Proofs.Machine.InitializationOrder
import ClassEngine.Proofs.Machine.FatalFaults
import ClassEngine.Proofs.Machine.Rounds
import ClassEngine.Proofs.Machine.Requirements
import ClassEngine.Proofs.Machine.Coherence
import ClassEngine.Proofs.Machine.RegistryLaw
import ClassEngine.Proofs.Machine.Dispatch
import ClassEngine.Proofs.Machine.Loadability
import ClassEngine.Proofs.Machine.LoadOrder
import ClassEngine.Proofs.Machine.Coverage
import ClassEngine.Proofs.Machine.Conclusions
import ClassEngine.Proofs.Machine.Reachability
import ClassEngine.Proofs.Machine.Caches
import ClassEngine.Proofs.Machine.Overriding
import ClassEngine.Proofs.Machine.Defaults
import ClassEngine.Proofs.ClassFile.Reading
import ClassEngine.Proofs.ClassFile.Attributes
import ClassEngine.Proofs.ClassFile.Files
import ClassEngine.Proofs.ClassFile.Pools
import ClassEngine.Proofs.Code.Emission
import ClassEngine.Proofs.ClassFile.Declared
import ClassEngine.Proofs.ClassFile.Building
import ClassEngine.Proofs.ClassFile.Writing
import ClassEngine.Proofs.ClassFile.RoundTrip
import ClassEngine.Proofs.ClassFile.Interning
import ClassEngine.Proofs.Code.RoundTrip
import ClassEngine.Proofs.Code.Tiling
import ClassEngine.Proofs.Code.Patching
import ClassEngine.Proofs.Machine.Switches
import ClassEngine.Proofs.Machine.Boundaries
import ClassEngine.Proofs.Machine.IntegrityLaw
import ClassEngine.Proofs.ClassFile.Guarantees
import ClassEngine.Proofs.ClassFile.Inertness
import ClassEngine.Proofs.Machine.LegalCode
import ClassEngine.Proofs.Machine.FrameBounds
import ClassEngine.Proofs.Machine.Bounds
import ClassEngine.Proofs.Machine.BoundsLaw
import ClassEngine.Proofs.Machine.InstanceLayout
import ClassEngine.Proofs.Machine.FieldSearch
import ClassEngine.Proofs.Machine.RootClass
import ClassEngine.Proofs.Snapshot.RoundTrip
import ClassEngine.Proofs.Machine.Subtyping
import ClassEngine.Proofs.Machine.Arguments
import ClassEngine.Proofs.Machine.Deeds
import ClassEngine.Proofs.Machine.Activity
import ClassEngine.Proofs.Machine.StableEntries
import ClassEngine.Proofs.Machine.Invocations
import ClassEngine.Proofs.ClassFile.StoredText
import ClassEngine.Proofs.ClassFile.Descriptors
import ClassEngine.Proofs.Machine.Shuffles
import ClassEngine.Proofs.Machine.PreciseFaults
import ClassEngine.Proofs.Machine.Forms
import ClassEngine.Proofs.Machine.CacheHistory
import ClassEngine.Proofs.Machine.Arithmetic
import ClassEngine.Proofs.Machine.Elements
import ClassEngine.Proofs.Machine.Traces
import ClassEngine.Proofs.Files.Paths
import ClassEngine.Proofs.Search.Confinement
import ClassEngine.Proofs.Machine.NestedLoads
import ClassEngine.Proofs.Machine.KeptEntries
import ClassEngine.Proofs.Machine.Literals
import ClassEngine.Proofs.Machine.Counters
import ClassEngine.Proofs.Machine.Idling
import ClassEngine.Proofs.Machine.Tallies
import ClassEngine.Proofs.Machine.Profiling
import ClassEngine.Proofs.Machine.Tables
import ClassEngine.Proofs.Machine.InheritedSlots
import ClassEngine.Proofs.Machine.Superinterfaces
