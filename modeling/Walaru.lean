import Walaru.Lib.Base64
import Walaru.Lib.BoundedPage
import Walaru.Lib.CivilTime
import Walaru.Lib.Decimals
import Walaru.Lib.FileOps
import Walaru.Lib.FilePlaces
import Walaru.Lib.FileTree
import Walaru.Lib.Framing
import Walaru.Lib.LastEntries
import Walaru.Lib.PageWalk
import Walaru.Lib.Sha256
import Walaru.Lib.StateResult
import Walaru.Lib.Text
import Walaru.Lib.TextParts
import Walaru.Lib.TreeLeaves
import Walaru.Lib.Trace
import Walaru.Lib.Utf16
import Walaru.Lib.Utf8
import Walaru.Source.Core.Json
import Walaru.Source.Core.JsonText
import Walaru.Source.Core.JsonTextRead
import Walaru.Source.Core.JsonWrite
import Walaru.Source.Core.Protocol
import Walaru.Source.Core.Envelope
import Walaru.Source.Core.Replay
import Walaru.Source.Core.Store
import Walaru.Source.Core.Retention
import Walaru.Source.Core.StorePages
import Walaru.Source.Core.Workspace
import Walaru.Source.Core.WorkspaceFiles
import Walaru.Source.Daemon.Events
import Walaru.Source.Daemon.BoundedLine
import Walaru.Source.Daemon.Request
import Walaru.Source.Daemon.Ingest
import Walaru.Source.Daemon.IngestEffects
import Walaru.Source.Daemon.IngestObservations
import Walaru.Source.Daemon.Tape
import Walaru.Source.Daemon.Impact
import Walaru.Source.Daemon.GitImpact
import Walaru.Source.Daemon.GitImpactEffects
import Walaru.Source.Daemon.Verifier
import Walaru.Source.Daemon.VerifierEffects
import Walaru.Source.Daemon.RunFailures
import Walaru.Source.Daemon.Record
import Walaru.Source.Daemon.History
import Walaru.Source.Daemon.LearnedEdges
import Walaru.Source.Daemon.TestStatuses
import Walaru.Source.Daemon.RunEvents
import Walaru.Source.Daemon.LiveWorker
import Walaru.Source.Daemon.Server
import Walaru.Source.Daemon.Lifecycle
import Walaru.Source.Daemon.Overlay
import Walaru.Source.Daemon.OverlayPaths
import Walaru.Source.Daemon.OverlayEffects
import Walaru.Source.Daemon.OverlayFiles
import Walaru.Source.Daemon.OverlayAcceptance
import Walaru.Guarantees.OverlayDocuments
import Walaru.Source.Client.OverlayManifest
import Walaru.Guarantees.OverlayPathAgreement
import Walaru.Guarantees.PrefixVerification
import Walaru.Guarantees.LiveScheduling
import Walaru.Guarantees.LiveSettlement
import Walaru.Guarantees.TestStack
import Walaru.Source.Daemon.SourceResolution
import Walaru.Guarantees.SourceAttribution
import Walaru.Guarantees.MirrorTransitions
import Walaru.Source.Daemon.Responses
import Walaru.Source.Agent.Recorder
import Walaru.Source.Agent.Replay
import Walaru.Source.Agent.ReplayFollows
import Walaru.Source.Agent.ReplayScheduler
import Walaru.Source.Agent.InputTape
import Walaru.Source.Agent.EventWriter
import Walaru.Source.Agent.EventText
import Walaru.Source.Agent.NumberText
import Walaru.Source.Agent.EventRead
import Walaru.Source.Agent.SafeValue
import Walaru.Source.Agent.EventSize
import Walaru.Source.Agent.CaptureSize
import Walaru.Source.Agent.AgentEvents
import Walaru.Source.Agent.ObservationSize
import Walaru.Source.Agent.SortKeys
import Walaru.Source.Agent.CaptureLayout
import Walaru.Source.Agent.StateHash
import Walaru.Source.Agent.TestContexts
import Walaru.Source.Agent.EventNesting
import Walaru.Source.Gradle.TestSelection
import Walaru.Source.Client.Live
import Walaru.Source.Client.LiveScheduler
import Walaru.Source.Client.SchedulerEffects
import Walaru.Guarantees.FreshSuccess
import Walaru.Guarantees.CleanSuccess
import Walaru.Guarantees.ImpactSoundness
import Walaru.Guarantees.RecordingEvidence
import Walaru.Guarantees.RecordingIdentity
import Walaru.Guarantees.ReplayProgress
import Walaru.Guarantees.Supersession
import Walaru.Guarantees.LiveIsolation
import Walaru.Guarantees.RevisionEncoding
import Walaru.Guarantees.RevisionInputs
import Walaru.Guarantees.TestRouting
import Walaru.Guarantees.TapeRoundTrip
import Walaru.Guarantees.EventLines
import Walaru.Guarantees.UnsavedChanges
import Walaru.Guarantees.RunClosing
import Walaru.Guarantees.ReplayTurns
import Walaru.Guarantees.StorePaging
import Walaru.Guarantees.ReplayHashes
import Walaru.Guarantees.RetentionOrder
import Walaru.Guarantees.Redaction
import Walaru.Guarantees.ResponseBound
import Walaru.Guarantees.ResponseWalks
import Walaru.Guarantees.TestListing
import Walaru.Guarantees.EventLineBound
import Walaru.Guarantees.SlotRelease
import Walaru.Guarantees.Handover
import Walaru.Guarantees.InvocationStatus
import Walaru.Guarantees.ImpactExact
import Walaru.Guarantees.GitNarrowing
import Walaru.Lib.Matching
import Walaru.Source.Daemon.IngestCapabilities
import Walaru.Guarantees.CapabilityHonesty
import Walaru.Guarantees.CapturePrivacy
import Walaru.Guarantees.CaptureOrder
import Walaru.Lib.Words
import Walaru.Lib.KeySort
import Walaru.Lib.KotlinLexer
import Walaru.Source.Core.SourceSurface
import Walaru.Source.Core.AssignedLine
import Walaru.Guarantees.KotlinInitialisers
import Walaru.Guarantees.JavaInitialisers
import Walaru.Source.Core.TraceReads
import Walaru.Source.Core.Reverse
import Walaru.Guarantees.ReverseExecution
import Walaru.Guarantees.TraceWalks
import Walaru.Lib.JavaText
import Walaru.Lib.Smap
import Walaru.Source.Model.KotlinSourceMap
import Walaru.Guarantees.SourceMapTotality
import Walaru.Guarantees.SourceMapping
import Walaru.Guarantees.PipeDrain
import Walaru.Guarantees.ExitStatus
import Walaru.Guarantees.ContextBracket
import Walaru.Lib.Utf8Slices
import Walaru.Source.Core.Analysis
import Walaru.Guarantees.AssertionSearch
import Walaru.Guarantees.AnalysisSafety
import Walaru.Lib.TrimmedLists
import Walaru.Source.Gradle.AssertionMismatch
import Walaru.Guarantees.AssertionAgreement
import Walaru.Source.Gradle.Report
import Walaru.Guarantees.ReportVerdict
import Walaru.Source.Agent.FileReads
import Walaru.Guarantees.FileReadsKept
import Walaru.Guarantees.EventIdentities
import Walaru.Lib.Pieces
import Walaru.Source.Daemon.EventStream
import Walaru.Guarantees.LineReading
import Walaru.Guarantees.BrokenStreams
import Walaru.Guarantees.FieldProjection
import Walaru.Source.Agent.EmittedEvents
import Walaru.Source.Agent.ScheduleFile
import Walaru.Guarantees.ScheduleRoundTrip
import Walaru.Lib.TextSearch
import Walaru.Source.Daemon.Problems
import Walaru.Guarantees.CompilerLines
import Walaru.Guarantees.ProblemRoundTrip
