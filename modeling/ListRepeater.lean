import ListRepeater.Ancestry
import ListRepeater.Binding.Localize
import ListRepeater.Binding.Reference
import ListRepeater.Binding.Segment
import ListRepeater.Demo
import ListRepeater.Event
import ListRepeater.Exposure
import ListRepeater.Id
import ListRepeater.Instance
import ListRepeater.Json.Basic
import ListRepeater.Json.Decoder
import ListRepeater.Json.Printer
import ListRepeater.Json.Reader
import ListRepeater.Keyed
import ListRepeater.Main
import ListRepeater.Number.Binary64
import ListRepeater.Number.Shortest
import ListRepeater.Proofs.AncestorReferences
import ListRepeater.Proofs.BalancedTexts
import ListRepeater.Proofs.ByteScan
import ListRepeater.Proofs.ByteSlices
import ListRepeater.Proofs.Carousel
import ListRepeater.Proofs.Cells
import ListRepeater.Proofs.ClosedSegments
import ListRepeater.Proofs.Conservation
import ListRepeater.Proofs.DottedChains
import ListRepeater.Proofs.EditedSegments
import ListRepeater.Proofs.ExpressionTokens
import ListRepeater.Proofs.FieldKinds
import ListRepeater.Proofs.Fingerprints
import ListRepeater.Proofs.FullRender
import ListRepeater.Proofs.HiddenParts
import ListRepeater.Proofs.IncrementalRender
import ListRepeater.Proofs.Json.CompactText
import ListRepeater.Proofs.Json.Decoding
import ListRepeater.Proofs.Json.EqualValues
import ListRepeater.Proofs.Json.Normalizing
import ListRepeater.Proofs.Json.ReadBack
import ListRepeater.Proofs.Json.ReadingTrees
import ListRepeater.Proofs.Json.Strings
import ListRepeater.Proofs.KeptCells
import ListRepeater.Proofs.KeptInstances
import ListRepeater.Proofs.KeyedMaps
import ListRepeater.Proofs.LiteralRanges
import ListRepeater.Proofs.MountBookkeeping
import ListRepeater.Proofs.MountedRuns
import ListRepeater.Proofs.NestedContext
import ListRepeater.Proofs.NestedIds
import ListRepeater.Proofs.Number.DecimalText
import ListRepeater.Proofs.Number.RoundingIntervals
import ListRepeater.Proofs.Number.ShortestDecimal
import ListRepeater.Proofs.PageWindows
import ListRepeater.Proofs.PassState
import ListRepeater.Proofs.RealKeys
import ListRepeater.Proofs.RecordReferences
import ListRepeater.Proofs.Recreation
import ListRepeater.Proofs.RecyclingBound
import ListRepeater.Proofs.Regeneration
import ListRepeater.Proofs.RenamedKeys
import ListRepeater.Proofs.ReturningPages
import ListRepeater.Proofs.RowContainers
import ListRepeater.Proofs.RowContext
import ListRepeater.Proofs.RowCopies
import ListRepeater.Proofs.RowLinks
import ListRepeater.Proofs.RowShape
import ListRepeater.Proofs.Sameness
import ListRepeater.Proofs.ScopeAgreement
import ListRepeater.Proofs.SeparateKeys
import ListRepeater.Proofs.ServedPages
import ListRepeater.Proofs.Sessions
import ListRepeater.Proofs.SlicedPass
import ListRepeater.Proofs.SlotBook.Continuation
import ListRepeater.Proofs.SlotBook.Ledger
import ListRepeater.Proofs.SlotBook.NumberedRows
import ListRepeater.Proofs.SlotBook.Occupancy
import ListRepeater.Proofs.SlotBook.Operations
import ListRepeater.Proofs.SlotBook.Restored
import ListRepeater.Proofs.SlotBook.WrittenSnapshots
import ListRepeater.Proofs.SlotIdentity
import ListRepeater.Proofs.StoredSlots
import ListRepeater.Proofs.TokenwisePass
import ListRepeater.Proofs.WalkOrder
import ListRepeater.Proofs.WalkTraversal
import ListRepeater.Proofs.WholeReferences
import ListRepeater.Proofs.WrittenTemplates
import ListRepeater.Repeater.Basic
import ListRepeater.Repeater.Comparison
import ListRepeater.Repeater.Events
import ListRepeater.Repeater.Mounting
import ListRepeater.Repeater.Render
import ListRepeater.Repeater.Report
import ListRepeater.Repeater.RowKeys
import ListRepeater.Repeater.RowLayout
import ListRepeater.Repeater.Window
import ListRepeater.Request
import ListRepeater.Sample.Bench
import ListRepeater.Sample.Lists
import ListRepeater.SlotBook.Basic
import ListRepeater.SlotBook.Snapshot
import ListRepeater.Template.Field
import ListRepeater.Template.Node
import ListRepeater.Template.Walk
import ListRepeater.Text.Blank
import ListRepeater.Text.Printable
import ListRepeater.Text.Quoted
import ListRepeater.Total
