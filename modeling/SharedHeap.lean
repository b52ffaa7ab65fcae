import SharedHeap.Action
import SharedHeap.Allocator.Basic
import SharedHeap.Allocator.Block
import SharedHeap.Allocator.Fill
import SharedHeap.Allocator.Header
import SharedHeap.Allocator.SizeClass
import SharedHeap.ByteCount
import SharedHeap.Bytes.Basic
import SharedHeap.Bytes.LittleEndian
import SharedHeap.Bytes.Word
import SharedHeap.Config
import SharedHeap.Descriptor
import SharedHeap.Error
import SharedHeap.Fingerprint
import SharedHeap.Float.Bits
import SharedHeap.Float.Shortest
import SharedHeap.Handle
import SharedHeap.Identity
import SharedHeap.Layout
import SharedHeap.Log.Level
import SharedHeap.Log.Logger
import SharedHeap.Log.Record
import SharedHeap.Plain.Basic
import SharedHeap.Plain.Codec
import SharedHeap.Plain.Convert
import SharedHeap.Plain.Shown
import SharedHeap.PlainRef
import SharedHeap.Process
import SharedHeap.Proofs.Attachment
import SharedHeap.Proofs.Books
import SharedHeap.Proofs.ByteCounts
import SharedHeap.Proofs.Confinement
import SharedHeap.Proofs.Constructions
import SharedHeap.Proofs.Continuation
import SharedHeap.Proofs.Copies
import SharedHeap.Proofs.Counters
import SharedHeap.Proofs.Ends
import SharedHeap.Proofs.Estate
import SharedHeap.Proofs.Exhaustion
import SharedHeap.Proofs.Failures
import SharedHeap.Proofs.Footprints
import SharedHeap.Proofs.Header
import SharedHeap.Proofs.Ledger
import SharedHeap.Proofs.Levels
import SharedHeap.Proofs.Lists
import SharedHeap.Proofs.LoggerRuns
import SharedHeap.Proofs.Logging
import SharedHeap.Proofs.Noninterference
import SharedHeap.Proofs.Ownership
import SharedHeap.Proofs.Peaks
import SharedHeap.Proofs.Ranges
import SharedHeap.Proofs.Recovery
import SharedHeap.Proofs.Refinement
import SharedHeap.Proofs.Region
import SharedHeap.Proofs.Registrars
import SharedHeap.Proofs.Registration
import SharedHeap.Proofs.Relocation
import SharedHeap.Proofs.Resolution
import SharedHeap.Proofs.RoundTrip
import SharedHeap.Proofs.Runs
import SharedHeap.Proofs.Sequences
import SharedHeap.Proofs.Silence
import SharedHeap.Proofs.Sparing
import SharedHeap.Proofs.Stacks
import SharedHeap.Proofs.Targets
import SharedHeap.Proofs.Tenancy
import SharedHeap.Proofs.Texts
import SharedHeap.Proofs.Tolerance
import SharedHeap.Proofs.Turnover
import SharedHeap.Proofs.TypedHeap
import SharedHeap.Proofs.Upkeep
import SharedHeap.Proofs.World
import SharedHeap.Region.Basic
import SharedHeap.Region.Obtain
import SharedHeap.Region.Survey
import SharedHeap.Registry.Basic
import SharedHeap.Registry.Use
import SharedHeap.Resolved
import SharedHeap.Session.Allocators
import SharedHeap.Session.Answer
import SharedHeap.Session.Descriptors
import SharedHeap.Session.Handles
import SharedHeap.Session.History
import SharedHeap.Session.Literal
import SharedHeap.Session.References
import SharedHeap.Session.Registries
import SharedHeap.Session.Slots
import SharedHeap.Session.State
import SharedHeap.SharedList
import SharedHeap.Target
import SharedHeap.Text.Blank
import SharedHeap.Text.Digits
import SharedHeap.Text.Printable
import SharedHeap.Text.Quoted
