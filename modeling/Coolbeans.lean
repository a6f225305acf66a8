import Coolbeans.StatefulProgram
import Coolbeans.HandOff
import Coolbeans.PositionHeap
import Coolbeans.PositionHeapOrder
import Coolbeans.HeapRuns
import Coolbeans.FiniteMap
import Coolbeans.JobRecord
import Coolbeans.ClientReservationQueue
import Coolbeans.QueueHistories
import Coolbeans.JobStateMachine
import Coolbeans.JobTransitions
import Coolbeans.ReservationTick
import Coolbeans.Snapshot
import Coolbeans.Operation
import Coolbeans.StateViews
import Coolbeans.JobInvariant
import Coolbeans.JobHeapSteps
import Coolbeans.CallOutcomes
import Coolbeans.InvariantRules
import Coolbeans.JobMoves
import Coolbeans.BuriedHeaps
import Coolbeans.JobCommands
import Coolbeans.ClientInvariant
import Coolbeans.WaitQueueSteps
import Coolbeans.ClientPlaces
import Coolbeans.MatchSteps
import Coolbeans.WaitingLine
import Coolbeans.TubeVisit
import Coolbeans.TickDelay
import Coolbeans.TickReady
import Coolbeans.TickClients
import Coolbeans.TickStages
import Coolbeans.JobRuns
import Coolbeans.DelayedJobs
import Coolbeans.KickedJobs
import Coolbeans.ClientLines
import Coolbeans.ClientRounds
import Coolbeans.ClientLoops
import Coolbeans.MatchOrder
import Coolbeans.IdleClients
import Coolbeans.ReservedHeaps
import Coolbeans.HeapHistories
import Coolbeans.HeapContracts
import Coolbeans.FailedOperations
import Coolbeans.JobLifeCycle
import Coolbeans.ExactContainers
import Coolbeans.TickReturns
import Coolbeans.StepEffects
import Coolbeans.ClientRuns
import Coolbeans.RequestLedger
import Coolbeans.DelayTimer
import Coolbeans.ClientClocks
import Coolbeans.Overdue
import Coolbeans.ExclusiveLease
import Coolbeans.ReplicaAgreement
import Coolbeans.ClientRestore
import Coolbeans.JobRestore
import Coolbeans.RestoreOrder
import Coolbeans.SnapshotRestore
import Coolbeans.LineRestore
import Coolbeans.RestoreHandOff
import Coolbeans.SnapshotFidelity
import Coolbeans.JobImplementations
import Coolbeans.JobIdentity
import Coolbeans.CounterBalance
import Coolbeans.DelimitedStream
import Coolbeans.LineScan
import Coolbeans.ScanExactness
import Coolbeans.CommandLine
import Coolbeans.DecimalNumerals
import Coolbeans.ArgumentGrammars
import Coolbeans.DeadlineRanges
import Coolbeans.Connection
import Coolbeans.LineProtocol
import Coolbeans.PutFraming
import Coolbeans.PutBodies
import Coolbeans.SpacedWords
import Coolbeans.CommandTokens
import Coolbeans.QueryString
import Coolbeans.ClientURI
import Coolbeans.ClusterNode
import Coolbeans.ReservationsController
import Coolbeans.ControllerDeadlock
import Coolbeans.ControllerChannels
import Coolbeans.RemoteCommands
import Coolbeans.CommandProcessor
import Coolbeans.CommandReplies
import Coolbeans.ConnectedClients
import Coolbeans.CommandSystem
import Coolbeans.ProxyClient
import Coolbeans.NodeAnswers
import Coolbeans.TickRouting
import Coolbeans.ControllerDelivery
import Coolbeans.ProxyAnswers
import Coolbeans.BodyFraming
import Coolbeans.SortedListing
import Coolbeans.Board
import Coolbeans.BoardView
import Coolbeans.BoardCommands
import Coolbeans.BoardReservations
import Coolbeans.BoardTick
import Coolbeans.BoardRuns
import Coolbeans.BoardLines
import Coolbeans.RestoredBoard
import Coolbeans.ReplicatedLog
import Coolbeans.ReplicatedQueue
import Coolbeans.JobData
