import Haystack.Bisect
import Haystack.Bytes
import Haystack.Cache.Basic
import Haystack.Cache.Contents
import Haystack.Cache.Directory
import Haystack.Cache.Disk
import Haystack.Cache.Fetch
import Haystack.Cache.Memory
import Haystack.Cache.Stages
import Haystack.Cache.Tiered
import Haystack.Checksum
import Haystack.Chunk.Basic
import Haystack.Chunk.Json
import Haystack.Chunk.View
import Haystack.Chunk.Visible
import Haystack.Config
import Haystack.Counters
import Haystack.Duration
import Haystack.Erasure.Journal
import Haystack.Erasure.Layout
import Haystack.Erasure.Shard
import Haystack.Error
import Haystack.File.Basic
import Haystack.File.Calls
import Haystack.File.Records
import Haystack.File.Transfers
import Haystack.FileId
import Haystack.FileId.Positions
import Haystack.Flight.Calls
import Haystack.Flight.Registry
import Haystack.Flight.Requests
import Haystack.Index.Entry
import Haystack.Index.Log
import Haystack.Index.Sorted
import Haystack.Json.Printer
import Haystack.Json.Reader
import Haystack.Json.Value
import Haystack.Location
import Haystack.Needle.Basic
import Haystack.Needle.Cursor
import Haystack.Needle.Decode
import Haystack.Needle.Encode
import Haystack.Needle.Pairs
import Haystack.Overlay.Basic
import Haystack.Overlay.Linked
import Haystack.Position
import Haystack.Proofs.Cache.Holds
import Haystack.Proofs.Cache.Newest
import Haystack.Proofs.Cache.Stages
import Haystack.Proofs.Chunk.Linked
import Haystack.Proofs.Chunk.Reordered
import Haystack.Proofs.Chunk.Views
import Haystack.Proofs.Chunk.Winner
import Haystack.Proofs.Erasure.Dealing
import Haystack.Proofs.Erasure.Deletions
import Haystack.Proofs.Erasure.Placement
import Haystack.Proofs.File.Media
import Haystack.Proofs.File.Records
import Haystack.Proofs.Flight.Alone
import Haystack.Proofs.Flight.Callers
import Haystack.Proofs.Flight.Fetching
import Haystack.Proofs.Flight.Leaders
import Haystack.Proofs.Flight.Results
import Haystack.Proofs.Flight.SingleFetch
import Haystack.Proofs.Flight.Turns
import Haystack.Proofs.Index.Search
import Haystack.Proofs.Index.Walk
import Haystack.Proofs.Json.ReadBack
import Haystack.Proofs.Needle.Cursor
import Haystack.Proofs.Needle.Fields
import Haystack.Proofs.Needle.RoundTrip
import Haystack.Proofs.Overlay.Calls
import Haystack.Proofs.Overlay.Cells
import Haystack.Proofs.Overlay.Linked
import Haystack.Proofs.Overlay.Order
import Haystack.Proofs.Overlay.Positions
import Haystack.Proofs.Overlay.Rows
import Haystack.Proofs.Overlay.Runs
import Haystack.Proofs.Position
import Haystack.Proofs.Reader.Amid
import Haystack.Proofs.Reader.Image
import Haystack.Proofs.Reader.Progress
import Haystack.Proofs.Section.Contents
import Haystack.Proofs.Section.File
import Haystack.Proofs.Section.Runs
import Haystack.Proofs.Section.Sound
import Haystack.Proofs.SuperBlock.ReadBack
import Haystack.Proofs.Table.Distinct
import Haystack.Proofs.Volume.Failure
import Haystack.Proofs.Volume.InUse
import Haystack.Proofs.Volume.Interleaving
import Haystack.Proofs.Volume.Kept
import Haystack.Proofs.Volume.Leftovers
import Haystack.Proofs.Volume.Mended
import Haystack.Proofs.Volume.Opening
import Haystack.Proofs.Volume.Reload
import Haystack.Proofs.Volume.Requests
import Haystack.Proofs.Volume.Scan
import Haystack.Proofs.Volume.Shelf
import Haystack.Reader.Basic
import Haystack.Reader.Pattern
import Haystack.Record
import Haystack.ReplicaPlacement
import Haystack.Section.Basic
import Haystack.Section.File
import Haystack.Sha256
import Haystack.Source
import Haystack.SuperBlock
import Haystack.Table
import Haystack.Text.Blank
import Haystack.Text.Decimal
import Haystack.Text.Numeral
import Haystack.Text.Utf8
import Haystack.Ttl
import Haystack.Version
import Haystack.Volume.Basic
import Haystack.Volume.LiveMap
import Haystack.Yaml.Document
import Haystack.Yaml.Fold
import Haystack.Yaml.Layout
import Haystack.Yaml.Names
import Haystack.Yaml.Scalar
import Haystack.Yaml.Spot
import Haystack.Yaml.TextBlock
import Haystack.Yaml.Token
import Haystack.Yaml.Value
import Haystack.Proofs.Needle.Grammar
import Haystack.Proofs.Volume.Title
import Haystack.Proofs.FileId.ReadBack
import Haystack.Proofs.Volume.Fetched
import Haystack.Proofs.Volume.Attempts
import Haystack.Proofs.Volume.Stamps
import Haystack.Proofs.Reader.Reach
import Haystack.Proofs.Reader.Views
import Haystack.Proofs.Section.Limits
import Haystack.Proofs.Overlay.Values
import Haystack.Proofs.Section.FirstData
import Haystack.Proofs.Overlay.Parts
import Haystack.Proofs.Overlay.LongestRuns
import Haystack.Proofs.Overlay.Policies
import Haystack.Proofs.Overlay.Windows
import Haystack.Proofs.Section.Windows
import Haystack.Proofs.Chunk.Garbage
import Haystack.Proofs.Needle.Damage
import Haystack.Proofs.File.Steps
import Haystack.Proofs.File.Stamping
import Haystack.Proofs.Text.Numeral
import Haystack.Proofs.FileId.Positions
import Haystack.Proofs.FileId.Form
import Haystack.Proofs.FileId.Shifted
import Haystack.Proofs.Ttl.Request
import Haystack.Proofs.Needle.Metadata
import Haystack.Index.Callbacks
import Haystack.Proofs.Index.Probes
import Haystack.Proofs.Index.Handover
import Haystack.Proofs.Index.Visits
