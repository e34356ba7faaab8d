import Componentry.Compiler.Batch
import Componentry.Config
import Componentry.Failure
import Componentry.Json.Printer
import Componentry.Json.Reader
import Componentry.Logging
import Componentry.Main
import Componentry.Markup.Extraction
import Componentry.Markup.Section
import Componentry.Mode
import Componentry.Program.Run
import Componentry.Service.App
import Componentry.SourceMap.Compose
import Componentry.Tool.Scripted
import Componentry.Tool.Selection
import Componentry.Wire.Encode
import Componentry.Wire.Files
import Componentry.Proofs.Cache.Key
import Componentry.Proofs.Cache.Payload
import Componentry.Proofs.Cache.Recent
import Componentry.Proofs.Cache.Scss
import Componentry.Proofs.Cache.Sessions
import Componentry.Proofs.Cache.Store
import Componentry.Proofs.Compiler.Batch
import Componentry.Proofs.Compiler.Sound
import Componentry.Proofs.Compiler.Stages
import Componentry.Proofs.Compiler.Uncached
import Componentry.Proofs.Files.Bytes
import Componentry.Proofs.Files.Tree
import Componentry.Proofs.Json.Fields
import Componentry.Proofs.Json.RoundTrip
import Componentry.Proofs.Json.Sorted
import Componentry.Proofs.Json.Strings
import Componentry.Proofs.Markup.Block
import Componentry.Proofs.Markup.Extraction
import Componentry.Proofs.Markup.Rendering
import Componentry.Proofs.Markup.Filling
import Componentry.Proofs.Number.Digits
import Componentry.Proofs.Number.Rounding
import Componentry.Proofs.Number.Spelling
import Componentry.Proofs.Pipeline.Backing
import Componentry.Proofs.Pipeline.Emission
import Componentry.Proofs.Pipeline.Frame
import Componentry.Proofs.Pipeline.Lowering
import Componentry.Proofs.Pipeline.Positions
import Componentry.Proofs.Pipeline.Splicing
import Componentry.Proofs.Pipeline.Reuse
import Componentry.Proofs.SourceMap.Bracketing
import Componentry.Proofs.SourceMap.Contents
import Componentry.Proofs.SourceMap.Compose
import Componentry.Proofs.SourceMap.Lookup
import Componentry.Proofs.SourceMap.Reorder
import Componentry.Proofs.SourceMap.RoundTrip
import Componentry.Proofs.SourceMap.Segments
import Componentry.Proofs.SourceMap.Spans
import Componentry.Proofs.SourceMap.Lifting
import Componentry.Proofs.SourceMap.Splice
import Componentry.Proofs.SourceMap.Token
import Componentry.Proofs.SourceMap.Tracking
import Componentry.Proofs.SourceMap.TwoSteps
import Componentry.Proofs.Compiler.Accounting
import Componentry.Proofs.Compiler.History
import Componentry.Proofs.Text.Removal
import Componentry.Proofs.SourceMap.Nearest
import Componentry.Proofs.SourceMap.Words
import Componentry.Proofs.Pipeline.Stripping
import Componentry.Proofs.Pipeline.Vanishing
import Componentry.Proofs.Pipeline.Refusals
import Componentry.Proofs.Cache.Eviction
import Componentry.Proofs.Compiler.Recall
import Componentry.Proofs.Compiler.Damage
import Componentry.Proofs.Pipeline.PartitionNames
import Componentry.Proofs.Cache.Collisions
import Componentry.Proofs.Pipeline.Interleaving
import Componentry.Proofs.Pipeline.StylesheetNames
import Componentry.Proofs.Files.Basename
import Componentry.Proofs.Markup.Sections
import Componentry.Proofs.Pipeline.ComponentNames
import Componentry.Proofs.SourceMap.RunningSums
import Componentry.Proofs.Files.Address
import Componentry.Proofs.Compiler.Ownership
import Componentry.Proofs.Program.Delivery
import Componentry.Proofs.Program.Endings
import Componentry.Proofs.Program.Apart
import Componentry.Proofs.Markup.Attributes
import Componentry.Proofs.Tool.EmbeddedMap
import Componentry.Proofs.Pipeline.Reporting
