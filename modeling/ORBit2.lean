import ORBit2.ValueRoundTrip
import ORBit2.HeaderRoundTrip
import ORBit2.RecvConnection
import ORBit2.HeaderRoundTrip
import ORBit2.Chunking
import ORBit2.FragmentTable
import ORBit2.Effects
import ORBit2.SizeLimit
import ORBit2.Dispatch
import ORBit2.Stability
import ORBit2.Delivery
import ORBit2.Reassembly
import ORBit2.ReplyQueue
import ORBit2.Reconnect
import ORBit2.StubCalls
import ORBit2.AsyncCall
import ORBit2.PoaRequest
import ORBit2.StubReply
import ORBit2.Layout
import ORBit2.ValueWalks
import ORBit2.LayoutAgreement
import ORBit2.LayoutConverse
import ORBit2.FreeKids
import ORBit2.TypeCodeWire
import ORBit2.TypeCodeReading
import ORBit2.TypeCodeImage
import ORBit2.TypeCodeRoundTrip
import ORBit2.TypeCodeReferences
import ORBit2.TypeCodeCodec
import ORBit2.TypeCodeChecked
import ORBit2.TypeCodeDepth
import ORBit2.ObjectKey
import ORBit2.PoaState
import ORBit2.PoaTasks
import ORBit2.PoaOperations
import ORBit2.Base.Outcomes
import ORBit2.PoaInvariant
import ORBit2.PoaPreservation
import ORBit2.PoaRuns
import ORBit2.ActiveObjectMap
import ORBit2.PoaConversions
import ORBit2.FastPath
import ORBit2.HeldRequests
import ORBit2.PoaLocks
import ORBit2.LockDiscipline
import ORBit2.PoaFrame
import ORBit2.ServantLocator
import ORBit2.Base.SharedStack
import ORBit2.InvocationContext
import ORBit2.IdlTypes
import ORBit2.AlignmentAgreement
import ORBit2.RunTimeTypeCodes
import ORBit2.Base.Unfolding
import ORBit2.TypeCodeCycles
import ORBit2.Base.Grouping
import ORBit2.GeneratedDispatch
import ORBit2.ImoduleTypeCodes
import ORBit2.MethodDescriptions
import ORBit2.Encapsulation
import ORBit2.IopProfiles
import ORBit2.IorRoundTrip
import ORBit2.ObjectReferences
import ORBit2.ObjectStrings
import ORBit2.HostileReferences
import ORBit2.NamingContexts
import ORBit2.LinkConnection
import ORBit2.WriteQueue
import ORBit2.ByteStream
import ORBit2.WatchCondition
import ORBit2.BrokenCallbacks
import ORBit2.CommandQueue
import ORBit2.LocationForward
import ORBit2.Corbaloc
import ORBit2.RequestQueues
import ORBit2.Base.Storage
import ORBit2.DynAnyValues
import ORBit2.DynAny
import ORBit2.DynAnyLinks
import ORBit2.DynAnyInvariant
import ORBit2.DynAnyCalls
import ORBit2.DynAnyComponents
import ORBit2.DynAnyWrites
import ORBit2.DynAnyRuns
import ORBit2.CursorSteps
import ORBit2.FragmentTotals
import ORBit2.RequestIdentity
import ORBit2.UnionSelection
import ORBit2.AllocationSizes
import ORBit2.DeepEquality
import ORBit2.EqualityVerdicts
import ORBit2.NamingListRuns
import ORBit2.Base.Peeking
import ORBit2.MessageMemory
import ORBit2.BoundedDecoding
import ORBit2.TypeCodeComparison
import ORBit2.TypeCodeInspection
import ORBit2.MixedOrders
import ORBit2.Base.Tracing
import ORBit2.IorParsing
import ORBit2.IorRuns
import ORBit2.IorBounds
import ORBit2.IorErrorPaths
import ORBit2.ProfileCopies
import ORBit2.ObjectIdStrings
import ORBit2.StringifiedNames
import ORBit2.PoaCreation
import ORBit2.PoaManagers
import ORBit2.ManagerDeactivation
import ORBit2.ContextTransfer
import ORBit2.ContextProperties
import ORBit2.OrbitOptions
import ORBit2.OrbitrcFile
import ORBit2.WriteProgress
import ORBit2.ArgumentIndirection
import ORBit2.ConnectionSharing
import ORBit2.IorStrings
import ORBit2.Base.Placement
import ORBit2.DefaultLayout
import ORBit2.Base.Gather
import ORBit2.Base.Refinement
import ORBit2.SendBuffer
import ORBit2.Base.KeyTable
import ORBit2.ReferenceTable
import ORBit2.SendGathering
import ORBit2.ReferenceIdentity
import ORBit2.RemoteCall
import ORBit2.RemoteCallRoundTrip
