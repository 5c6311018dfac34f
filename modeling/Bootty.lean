import Bootty.Base.Fallible
import Bootty.Base.ListEdits
import Bootty.Base.Scalar
import Bootty.Mux.Command
import Bootty.Mux.Native.Agreement
import Bootty.Mux.Native.ActivatePane
import Bootty.Mux.Native.Commands
import Bootty.Mux.Native.Conservation
import Bootty.Mux.Native.Execute
import Bootty.Mux.Native.Invariant
import Bootty.Mux.Native.Layouts
import Bootty.Mux.Native.Restore
import Bootty.Mux.Native.SessionEdits
import Bootty.Mux.Native.SessionSteps
import Bootty.Mux.Native.Shape
import Bootty.Mux.Native.State
import Bootty.Mux.Native.Topology
import Bootty.Mux.PaneLayout
import Bootty.Mux.PaneLayoutCanonical
import Bootty.Mux.PaneLayoutLeaves
import Bootty.Mux.PaneLayoutOps
import Bootty.Mux.PaneLayoutGeometry
import Bootty.Mux.PaneLayoutMethods
import Bootty.Mux.PaneLayoutRuns
import Bootty.Mux.SessionSnapshot
import Bootty.Base.Machine
import Bootty.Base.Binary32
import Bootty.Base.ByteStream
import Bootty.Mux.Native.Server
import Bootty.Mux.Native.ServerSteps
import Bootty.Mux.Native.ServerReservation
import Bootty.Mux.Native.Transactions
import Bootty.Mux.Native.ProcessTable
import Bootty.Terminal.Geometry
import Bootty.Terminal.Frame
import Bootty.Terminal.FrameWire
import Bootty.Terminal.FrameRows
import Bootty.Terminal.FrameImages
import Bootty.Terminal.FrameStream
import Bootty.Mux.SessionMembership
import Bootty.Mux.Repository
import Bootty.Mux.Controller
import Bootty.Mux.Workspace
import Bootty.Mux.WorkspaceClient
import Bootty.Mux.SavedMembership
import Bootty.Mux.WorkspaceClaims
import Bootty.Mux.Detachment
import Bootty.Base.CommitLog
import Bootty.Mux.Checkpoint
import Bootty.Mux.StoredCheckpoint
import Bootty.Mux.MirroredCheckpoint
import Bootty.Base.Wakeup
import Bootty.Mux.Native.Publication
import Bootty.Mux.Native.Backend
import Bootty.Base.Generations
import Bootty.Mux.Target
import Bootty.Terminal.OutputQueue
import Bootty.Terminal.TerminalWorker
import Bootty.Base.Occurrence
import Bootty.Terminal.ShellPrompt
import Bootty.Base.Numbered
import Bootty.Control.Subscriptions
import Bootty.Base.Base64
import Bootty.Host.Jobs
import Bootty.Host.Relay
import Bootty.Host.Transfer
import Bootty.Base.Text
import Bootty.Terminal.WriteIngress
import Bootty.Terminal.SideEffects
import Bootty.Terminal.OutputStream
import Bootty.Terminal.SideEffectCollector
import Bootty.Terminal.WriteVt
import Bootty.Terminal.StreamCuts
import Bootty.Terminal.Delivery
import Bootty.Terminal.StreamWrites
import Bootty.Terminal.ReadBoundaries
import Bootty.Host.RemoteProcess
import Bootty.Host.RemoteCancel
import Bootty.Config.KeymapTrigger
import Bootty.Config.KeymapSpelling
import Bootty.Config.KeymapSequence
import Bootty.Config.KeymapBinding
import Bootty.Config.KeymapProgram
import Bootty.Config.KeymapMatching
import Bootty.Config.KeymapLegacy
import Bootty.Base.Json
import Bootty.Base.JsonGrammar
import Bootty.Base.ByteOffsets
import Bootty.Config.KeymapJsonc
import Bootty.Config.KeymapScan
import Bootty.Config.KeymapCuts
import Bootty.Config.KeymapLayout
import Bootty.Config.KeymapSplice
import Bootty.Config.KeymapAppend
import Bootty.Config.KeymapFile
import Bootty.Config.KeymapSections
import Bootty.Config.KeymapRows
import Bootty.Config.KeymapEdits
import Bootty.Base.Tiling
import Bootty.Base.Contiguous
import Bootty.Mux.PaneLayoutTiling
import Bootty.Mux.PaneLayoutNeighbor
import Bootty.Mux.SessionOrder
import Bootty.Base.Socket
import Bootty.Mux.Native.Protocol
import Bootty.Base.FreshName
import Bootty.Mux.SessionNames
import Bootty.Terminal.OutputSlices
import Bootty.Base.Method
import Bootty.Terminal.DecodedFrames
import Bootty.Terminal.HostileUpdates
import Bootty.Terminal.IngressBytes
import Bootty.Base.KeptKeys
import Bootty.Mux.SavedKeys
import Bootty.Mux.CheckpointKeys
import Bootty.Mux.PaneLayoutRename
import Bootty.Mux.SavedShape
import Bootty.Mux.Native.RestoredSession
import Bootty.Mux.Native.RestoredShape
import Bootty.Terminal.TmuxPassthrough
import Bootty.Terminal.KittyGraphics
import Bootty.Terminal.TerminalSearch
import Bootty.Base.Spans
import Bootty.Terminal.CopyModeSearch
import Bootty.Terminal.ViewportSearch
import Bootty.Terminal.ClipboardWrite
import Bootty.Terminal.VirtualPlacement
import Bootty.Base.Utf8
import Bootty.Host.ShellHistory
import Bootty.Base.TableOverlay
import Bootty.Config.ConfigIncludes
import Bootty.Control.TerminalHistory
import Bootty.Control.HistoryWalk
import Bootty.Control.RestoredHistory
import Bootty.Base.PrefixMatcher
import Bootty.Terminal.SynchronizedOutput
import Bootty.Host.RemoteRoutes
import Bootty.Base.BoundedNat
import Bootty.Base.FirstFit
import Bootty.Ui.GlyphAtlas
import Bootty.Ui.AtlasPacking
import Bootty.Ui.AtlasInsertion
import Bootty.Base.RowMajor
import Bootty.Ui.AtlasPixels
import Bootty.Ui.AtlasUploads
import Bootty.Ui.AtlasIntegrity
import Bootty.Git.Facts
import Bootty.Git.FactsProvenance
import Bootty.Config.KeymapPieces
import Bootty.Config.KeymapOffsets
import Bootty.Base.FloatOps
import Bootty.Terminal.Surface
import Bootty.Terminal.FrameLineage
import Bootty.Ui.PaintPlan
import Bootty.Ui.RowPaint
import Bootty.Ui.FramePaint
import Bootty.Ui.IncrementalPaint
import Bootty.Base.BatchQueue
import Bootty.Control.CommandMailbox
import Bootty.Control.CommandWait
import Bootty.Control.EventPlane
import Bootty.Control.InstanceLease
import Bootty.Host.JobRegistry
import Bootty.Host.FileReader
import Bootty.Host.FuzzyMatch
