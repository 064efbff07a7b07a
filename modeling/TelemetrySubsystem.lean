import TelemetrySubsystem.Foundations.ActionSystem
import TelemetrySubsystem.Foundations.WrapCounter
import TelemetrySubsystem.Foundations.CyclicWindow
import TelemetrySubsystem.SharedPage.Layout
import TelemetrySubsystem.CharRing.Steps
import TelemetrySubsystem.CharRing.AppendProtocol
import TelemetrySubsystem.CharRing.System
import TelemetrySubsystem.CharRing.Progress
import TelemetrySubsystem.CharRing.Fifo
import TelemetrySubsystem.CharRing.IndexSafety
import TelemetrySubsystem.CharRing.SleepFlag
import TelemetrySubsystem.CharRing.SharedReaders
import TelemetrySubsystem.CharRing.WriteAccounting
import TelemetrySubsystem.CharRing.ReadAccounting
import TelemetrySubsystem.MetricPush.Alone
import TelemetrySubsystem.MetricPush.Concurrent
import TelemetrySubsystem.Foundations.PiecewiseCopy
import TelemetrySubsystem.Foundations.ByteOrder
import TelemetrySubsystem.SharedPage.HostOrder
import TelemetrySubsystem.Foundations.BoundedPrint
import TelemetrySubsystem.Foundations.CasLoop
import TelemetrySubsystem.TicketPool.Producer
import TelemetrySubsystem.TicketPool.Consumer
import TelemetrySubsystem.TicketPool.System
import TelemetrySubsystem.NetFilter.Hook
import TelemetrySubsystem.BlockFilter.Commit
import TelemetrySubsystem.TicketPool.Tickets
import TelemetrySubsystem.TicketPool.Evidence
import TelemetrySubsystem.TicketPool.Phantom
import TelemetrySubsystem.TicketPool.SlotOrder
import TelemetrySubsystem.TicketPool.Torn
import TelemetrySubsystem.NetFilter.Horizon
import TelemetrySubsystem.TicketPool.CompletedCalls
import TelemetrySubsystem.NetFilter.FlightRecorder
import TelemetrySubsystem.TicketPool.PassEnds
import TelemetrySubsystem.TicketPool.SkipAheadPass
import TelemetrySubsystem.TicketPool.RecentRecords
import TelemetrySubsystem.NetFilter.SkipAhead
import TelemetrySubsystem.BlockFilter.SkipAhead
import TelemetrySubsystem.TicketPool.ScatterGatherPass
import TelemetrySubsystem.NetFilter.MixedUse
import TelemetrySubsystem.BlockFilter.TwoEngines
import TelemetrySubsystem.TicketPool.HealState
import TelemetrySubsystem.TicketPool.HoleHealing
import TelemetrySubsystem.TicketPool.EveryPass
import TelemetrySubsystem.NetFilter.ProcessOnce
import TelemetrySubsystem.NetFilter.HeaderReads
import TelemetrySubsystem.NetFilter.Snapshot
import TelemetrySubsystem.NetFilter.ShownNumbers
import TelemetrySubsystem.NetFilter.HintLoop
import TelemetrySubsystem.StressTest.Threads
import TelemetrySubsystem.StressTest.KickThrottle
import TelemetrySubsystem.StressTest.ReadsAll
import TelemetrySubsystem.Foundations.ByteMemory
import TelemetrySubsystem.Foundations.StructLayout
import TelemetrySubsystem.Foundations.SharedMemory
import TelemetrySubsystem.Foundations.PrefixCode
import TelemetrySubsystem.Foundations.BoundedQueue
import TelemetrySubsystem.SharedPage.Page
import TelemetrySubsystem.TicketPool.PageLayout
import TelemetrySubsystem.TicketPool.PageAccess
import TelemetrySubsystem.CharRing.PageAccess
import TelemetrySubsystem.SharedPage.Tenants
import TelemetrySubsystem.CharRing.LostWakeUps
import TelemetrySubsystem.CharRing.QueueRefinement
import TelemetrySubsystem.CharRing.Frames
import TelemetrySubsystem.TicketPool.DeliveredOnce
import TelemetrySubsystem.TicketPool.ActiveFlag
import TelemetrySubsystem.TicketPool.ThreadLeft
import TelemetrySubsystem.Client.Process
import TelemetrySubsystem.Client.Lifecycle
import TelemetrySubsystem.Client.Teardown
import TelemetrySubsystem.NetFilter.ShownRecords
import TelemetrySubsystem.TicketPool.WordSources
import TelemetrySubsystem.NetFilter.SnapshotSteps
import TelemetrySubsystem.NetFilter.LiveSnapshot
import TelemetrySubsystem.BlockFilter.PrintedRecords
import TelemetrySubsystem.Kernel.BaseModule
import TelemetrySubsystem.Kernel.PageLifetime
