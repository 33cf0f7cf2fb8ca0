import FlowScript.Block
import FlowScript.Cache
import FlowScript.Cache.Classpath
import FlowScript.Cache.Janitor
import FlowScript.Cache.Store
import FlowScript.CodeSource
import FlowScript.CommandLine
import FlowScript.CommandLine.Arguments
import FlowScript.Config
import FlowScript.Decimal.Binary64
import FlowScript.Decimal.Layout
import FlowScript.Decimal.Natural
import FlowScript.Decimal.Shortest
import FlowScript.Definition
import FlowScript.Entries
import FlowScript.Execution
import FlowScript.Failure
import FlowScript.FileTree
import FlowScript.FileTree.Change
import FlowScript.FileTree.Resolve
import FlowScript.Frame
import FlowScript.Frame.Json
import FlowScript.Frame.Resume
import FlowScript.HostDesk
import FlowScript.Invocation
import FlowScript.Invoker
import FlowScript.Json.Basic
import FlowScript.Json.Decoder
import FlowScript.Json.Printer
import FlowScript.Json.Reader
import FlowScript.Json.Scalar
import FlowScript.Loader
import FlowScript.Lookup
import FlowScript.Machine
import FlowScript.Main
import FlowScript.Operator
import FlowScript.Path
import FlowScript.Policy
import FlowScript.Program
import FlowScript.Program.Builder
import FlowScript.Program.Json
import FlowScript.Proofs.Accounting
import FlowScript.Proofs.Acquiring
import FlowScript.Proofs.Activation
import FlowScript.Proofs.Asking
import FlowScript.Proofs.Assigning
import FlowScript.Proofs.CallLog
import FlowScript.Proofs.Canonical
import FlowScript.Proofs.CleanupOnce
import FlowScript.Proofs.Confinement
import FlowScript.Proofs.Copies
import FlowScript.Proofs.DecodedData
import FlowScript.Proofs.Decoding
import FlowScript.Proofs.Depot
import FlowScript.Proofs.Driving
import FlowScript.Proofs.Effort
import FlowScript.Proofs.Enclosure
import FlowScript.Proofs.EqualKeys
import FlowScript.Proofs.Failing
import FlowScript.Proofs.FileCopies
import FlowScript.Proofs.FileGrowth
import FlowScript.Proofs.FileWays
import FlowScript.Proofs.FiniteText
import FlowScript.Proofs.Footprint
import FlowScript.Proofs.FrameRule
import FlowScript.Proofs.FreshCopies
import FlowScript.Proofs.Granting
import FlowScript.Proofs.Handouts
import FlowScript.Proofs.Heights
import FlowScript.Proofs.Housekeeping
import FlowScript.Proofs.Invisibility
import FlowScript.Proofs.Isolation
import FlowScript.Proofs.Journey
import FlowScript.Proofs.Locality
import FlowScript.Proofs.Matching
import FlowScript.Proofs.Meaning
import FlowScript.Proofs.MeaningAgreement
import FlowScript.Proofs.Mediation
import FlowScript.Proofs.Overlays
import FlowScript.Proofs.Ownership
import FlowScript.Proofs.Parking
import FlowScript.Proofs.Partition
import FlowScript.Proofs.PathParts
import FlowScript.Proofs.ProgramText
import FlowScript.Proofs.PropertyStores
import FlowScript.Proofs.ReadBack
import FlowScript.Proofs.Receivers
import FlowScript.Proofs.Replaying
import FlowScript.Proofs.Rethrowing
import FlowScript.Proofs.Routes
import FlowScript.Proofs.ScalarText
import FlowScript.Proofs.Scoping
import FlowScript.Proofs.ScriptLife
import FlowScript.Proofs.Slicing
import FlowScript.Proofs.SnapshotText
import FlowScript.Proofs.Soundness
import FlowScript.Proofs.Stage
import FlowScript.Proofs.Stocking
import FlowScript.Proofs.Storable
import FlowScript.Proofs.StoreCopies
import FlowScript.Proofs.StorePlace
import FlowScript.Proofs.Surveying
import FlowScript.Proofs.Survival
import FlowScript.Proofs.Sweeping
import FlowScript.Proofs.ThrownData
import FlowScript.Proofs.Transparency
import FlowScript.Proofs.TreeText
import FlowScript.Proofs.Unwinding
import FlowScript.Proofs.ValueText
import FlowScript.Proofs.WholeNumbers
import FlowScript.ResumePoint
import FlowScript.Scope
import FlowScript.Script
import FlowScript.Session
import FlowScript.Snapshot
import FlowScript.Step
import FlowScript.Table
import FlowScript.Text.Blank
import FlowScript.Text.Case
import FlowScript.Text.CaseTable
import FlowScript.Text.Split
import FlowScript.Text.Utf8
import FlowScript.Toml
import FlowScript.Toml.Reader
import FlowScript.Toml.Scalar
import FlowScript.Url
import FlowScript.Url.Host
import FlowScript.Url.Parser
import FlowScript.Url.Percent
import FlowScript.Url.Punycode
import FlowScript.Value
import FlowScript.Value.Describe
import FlowScript.Value.Json
import FlowScript.Workbench
