import NetPrograms.RunInvariants
import NetPrograms.ListSegments
import NetPrograms.BufferModel
import NetPrograms.BufferRefinement
import NetPrograms.BufferHistory
import NetPrograms.PollerModel
import NetPrograms.PollerMirror
import NetPrograms.RegisteredChannel
import NetPrograms.PollerGrowth
import NetPrograms.EventLoopModel
import NetPrograms.EventLoopFunctors
import NetPrograms.ByteQueue
import NetPrograms.ServerModel
import NetPrograms.SocketCalls
import NetPrograms.ServerFrames
import NetPrograms.SocketStream
import NetPrograms.SocketInterest
import NetPrograms.ChannelDispatch
import NetPrograms.ServerTables
import NetPrograms.ServerAccept
import NetPrograms.ServerRuns
import NetPrograms.ServerActions
import NetPrograms.ServerIsolation
import NetPrograms.BufferCodec
import NetPrograms.ScatterRead
import NetPrograms.BufferSearch
import NetPrograms.CtlHistory
import NetPrograms.AcceptFailure
import NetPrograms.CtlOrder
import NetPrograms.IdleChannel
import NetPrograms.LoopDispatch
import NetPrograms.Interleaving
import NetPrograms.SemaphoreModel
import NetPrograms.SemaphoreExclusion
import NetPrograms.HeapChain
import NetPrograms.WorkQueueModel
import NetPrograms.WorkQueueOutline
import NetPrograms.WorkQueueDelivery
import NetPrograms.FunctorSnapshot
import NetPrograms.PatternSearch
import NetPrograms.BufferCalls
import NetPrograms.BufferRoom
import NetPrograms.CrlfSearch
import NetPrograms.StorageBound
import NetPrograms.FlatMemory
import NetPrograms.ReadnModel
import NetPrograms.ReadnCount
import NetPrograms.DataBlockModel
import NetPrograms.DataBlockQueue
import NetPrograms.HostModel
import NetPrograms.HostParsing
import NetPrograms.ServerLoop
import NetPrograms.PendingFunctors
import NetPrograms.LoopQuit
import NetPrograms.InputIsolation
import NetPrograms.OutputIsolation
import NetPrograms.ConnectionOwners
import NetPrograms.MainProgram
import NetPrograms.EdgePoll
import NetPrograms.Serv2Model
import NetPrograms.Serv2Wakeups
import NetPrograms.FooModel
import NetPrograms.FooLifetime
import NetPrograms.ReaperModel
import NetPrograms.ChildReaper
import NetPrograms.ForkServerModel
import NetPrograms.ForkServer
import NetPrograms.ThreadJoinModel
import NetPrograms.ThreadJoin
import NetPrograms.StackHistory
import NetPrograms.WorkQueueStack
import NetPrograms.SocketLifetime
