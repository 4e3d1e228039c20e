import FastRpc.ByteStore
import FastRpc.FramedRing
import FastRpc.Transition
import FastRpc.Basic
import FastRpc.PacketQueue
import FastRpc.PacketLayout
import FastRpc.RingRefinement
import FastRpc.RingSystem
import FastRpc.RingInvariant
import FastRpc.RingDelivery
import FastRpc.RingFifo
import FastRpc.EarlyWakeup
import FastRpc.PeekRead
import FastRpc.Threads
import FastRpc.WaitSignal
import FastRpc.CancelWait
import FastRpc.ResponseWait
import FastRpc.LostWakeup
import FastRpc.Logged
import FastRpc.HandleTable
import FastRpc.HandleClose
import FastRpc.Reservations
import FastRpc.QueueTable
import FastRpc.QueueBookkeeping
import FastRpc.MapUnique
import FastRpc.RemoteMapList
import FastRpc.AppsMem
import FastRpc.AppsMemLifetime
import FastRpc.CInt
import FastRpc.FileTable
import FastRpc.FileStreams
import FastRpc.BufStream
import FastRpc.DmaHandles
import FastRpc.DmaHandleRace
import FastRpc.BoundedBuffer
import FastRpc.WakeLock
import FastRpc.WakeLockRuns
import FastRpc.FdList
import FastRpc.RpcMem
import FastRpc.Invoke
import FastRpc.CString
import FastRpc.SearchPaths
import FastRpc.CyclicBuffer
import FastRpc.DomainContext
import FastRpc.EarlyExit
import FastRpc.LogReader
import FastRpc.LoggedTriple
import FastRpc.ModTable
import FastRpc.ModTableInvariant
import FastRpc.ModTableInvocations
import FastRpc.ModTableRegistry
import FastRpc.ProcBuf
import FastRpc.ReverseHandles
import FastRpc.SbufStream
import FastRpc.SessionControl
import FastRpc.SessionCounts
import FastRpc.SessionHandles
import FastRpc.SessionRefs
import FastRpc.RingTolerance
import FastRpc.Traced
import FastRpc.AlignedLayout
import FastRpc.EmptyRing
import FastRpc.MappingTable
import FastRpc.QueueLayout
import FastRpc.RegisteredBuffers
import FastRpc.RingTrace
import FastRpc.UnmapFd
import FastRpc.MappingRefs
import FastRpc.RefCount
import FastRpc.WriteUndo
import FastRpc.Pls
import FastRpc.PlatformLibs
import FastRpc.RingBounds
import FastRpc.SessionBalance
import FastRpc.ReadUndo
import FastRpc.Timeouts
import FastRpc.WaitCounts
import FastRpc.MultidomainQueue
import FastRpc.QueueClose
import FastRpc.CloseTruth
import FastRpc.ResponseLayout
import FastRpc.SbufParser
import FastRpc.UriParser
import FastRpc.DomainUri
import FastRpc.StaticPd
import FastRpc.ShiftRegister
import FastRpc.Crc
import FastRpc.ArgumentCrc
import FastRpc.RejectedParams
import FastRpc.ReverseHeap
import FastRpc.LineCuts
import FastRpc.Iteration
import FastRpc.LogDrain
import FastRpc.HandleReuse
import FastRpc.DirSearch
import FastRpc.SearchResult
import FastRpc.EnvDirlist
import FastRpc.SessionClose
import FastRpc.SessionTeardown
import FastRpc.CloseAllSessions
import FastRpc.StdPath
import FastRpc.PathComponents
import FastRpc.CleanPath
import FastRpc.ContextLifetime
import FastRpc.ContextDomains
import FastRpc.MappedFiles
import FastRpc.LibNames
import FastRpc.TextLines
import FastRpc.ConfigReader
import FastRpc.ConfigLines
import FastRpc.YamlEvents
import FastRpc.ConfigParser
import FastRpc.RprocProbe
import FastRpc.LogConfig
import FastRpc.Printf
import FastRpc.DebugBuffer
import FastRpc.UriReads
import FastRpc.LinkedRings
import FastRpc.QList
