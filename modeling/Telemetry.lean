import Telemetry.Adler32
import Telemetry.Bytes
import Telemetry.Calendar
import Telemetry.CancelToken
import Telemetry.Chunk
import Telemetry.Chunk.Iterator
import Telemetry.Chunk.Reader
import Telemetry.Chunk.Restore
import Telemetry.Collector
import Telemetry.Collector.Adaptive
import Telemetry.Collector.Batch
import Telemetry.Collector.Buffered
import Telemetry.Collector.Buffered.Interleaving
import Telemetry.Collector.Config
import Telemetry.Collector.Plan
import Telemetry.Collector.Sampling
import Telemetry.Collector.Streaming
import Telemetry.Collector.Window
import Telemetry.CommandLine.Arguments
import Telemetry.CommandLine.Files
import Telemetry.CommandLine.Run
import Telemetry.Crc32
import Telemetry.Decimal.Nearest
import Telemetry.Decimal.Shortest
import Telemetry.Delta
import Telemetry.Document
import Telemetry.Document.Binary
import Telemetry.Document.Json
import Telemetry.Double
import Telemetry.Error
import Telemetry.Fingerprint
import Telemetry.Json
import Telemetry.Json.Printer
import Telemetry.Json.Reader
import Telemetry.Json.Skip
import Telemetry.Main
import Telemetry.Metric
import Telemetry.Payload
import Telemetry.Proofs.Chunk.Consistency
import Telemetry.Proofs.Chunk.Restore
import Telemetry.Proofs.Chunk.RoundTrip
import Telemetry.Proofs.Collector.Adaptive
import Telemetry.Proofs.Collector.Batch
import Telemetry.Proofs.Collector.Chunking
import Telemetry.Proofs.Collector.Delivery
import Telemetry.Proofs.Collector.Grouping
import Telemetry.Proofs.Collector.Mirroring
import Telemetry.Proofs.Collector.Requests
import Telemetry.Proofs.Collector.RoundTrip
import Telemetry.Proofs.Collector.Segment
import Telemetry.Proofs.Collector.Streaming
import Telemetry.Proofs.Collector.Window
import Telemetry.Proofs.Delta
import Telemetry.Proofs.Document.Binary
import Telemetry.Proofs.Double
import Telemetry.Proofs.Metric
import Telemetry.Proofs.Payload
import Telemetry.Proofs.Record
import Telemetry.Proofs.Source
import Telemetry.Proofs.Varint
import Telemetry.Record
import Telemetry.Record.Stream
import Telemetry.Sink
import Telemetry.Source
import Telemetry.Text.Blank
import Telemetry.Text.Lines
import Telemetry.Text.Natural
import Telemetry.Text.Utf8
import Telemetry.Varint
import Telemetry.Zlib.Bits
import Telemetry.Zlib.Compressor
import Telemetry.Zlib.Huffman
import Telemetry.Zlib.Inflate
import Telemetry.Zlib.Reach
import Telemetry.Zlib.Stored
import Telemetry.Proofs.Chunk.Shapes
import Telemetry.Proofs.Chunk.Reader
import Telemetry.Proofs.Collector.Buffered.Line
import Telemetry.Proofs.Collector.Buffered.Producer
import Telemetry.Proofs.Collector.Buffered.Run
import Telemetry.Proofs.Collector.Buffered.Transparency
import Telemetry.Proofs.Document.Canonical
import Telemetry.Proofs.Collector.Stack
import Telemetry.Proofs.Collector.Continues
import Telemetry.Proofs.Collector.Built
import Telemetry.Proofs.Collector.Buffered.Continues
import Telemetry.Proofs.Collector.Buffered.Rest
import Telemetry.Proofs.Collector.Refusal
import Telemetry.Proofs.Except
import Telemetry.Proofs.Record.Stream
import Telemetry.Proofs.Record.Reads
import Telemetry.Proofs.Chunk.Course
import Telemetry.Proofs.Chunk.Items
import Telemetry.Proofs.Chunk.Phase
import Telemetry.Proofs.Chunk.Iterator
import Telemetry.Proofs.Chunk.Schedule
import Telemetry.Proofs.Chunk.Malformed
import Telemetry.Proofs.Collector.Limits
import Telemetry.Proofs.Fingerprint
import Telemetry.Proofs.Collector.Homogeneous
import Telemetry.Proofs.Collector.Fresh
import Telemetry.Proofs.Crc32
import Telemetry.Proofs.Chunk.Drain
import Telemetry.Proofs.Chunk.Damage
import Telemetry.Proofs.Collector.Offers
import Telemetry.Proofs.Collector.Uniform
import Telemetry.Proofs.CommandLine.Intake
import Telemetry.Proofs.CommandLine.Output
import Telemetry.Proofs.CommandLine.Strict
import Telemetry.Proofs.Json
import Telemetry.Proofs.Json.Printer
import Telemetry.Proofs.Document.Json
import Telemetry.Proofs.Chunk.Contents
import Telemetry.Proofs.CommandLine.Files
import Telemetry.Proofs.CommandLine.Printing
import Telemetry.Proofs.CommandLine.RoundTrip
import Telemetry.Proofs.Delta.Grammar
import Telemetry.Proofs.Collector.Buffered.Counts
import Telemetry.Proofs.Collector.Mismatch
import Telemetry.Proofs.Varint.Positions
import Telemetry.Proofs.Collector.Metrics
import Telemetry.Proofs.Document.Everywhere
import Telemetry.Proofs.Document.Paths
import Telemetry.Proofs.Chunk.Addressing
import Telemetry.Proofs.Collector.Slots
