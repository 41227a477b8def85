import Telemetry.Crc32
import Telemetry.Metric

/-!
# Schema fingerprints

A fingerprint is a cheap stand-in for the list of a sample's metric-bearing fields: the CRC-32 of
their dotted keys, each closed by a zero byte, together with the number of series they produce.

Equal fingerprints are necessary for two samples to share a schema but not sufficient. Types are not
part of the digest, a timestamp writes its key once though it counts twice, two paths may have one
dotted key, and digests may collide.
-/

namespace Telemetry

/-- A digest of a schema, which is a check of its keys, with its number of series. -/
structure Fingerprint where
  digest : UInt32
  count : Nat
  deriving DecidableEq, Repr

/-- The bytes that stand for a schema: each dotted key, closed by a zero byte. -/
def schemaBytes (fields : List MetricField) : Bytes :=
  fields.flatMap fun f => textBytes f.key ++ [0]

/-- How many series fields produce. -/
def seriesCount : List MetricField → Nat
  | [] => 0
  | f :: rest => f.type.width + seriesCount rest

/-- The fingerprint of a sample. -/
def Document.fingerprint (d : Document) : Fingerprint where
  digest := Crc32.checksum (schemaBytes (Document.metricFields d))
  count := seriesCount (Document.metricFields d)

/-- The digest as eight hexadecimal digits. -/
def Fingerprint.hex (f : Fingerprint) : String :=
  Bytes.hex (Bytes.ofNat 4 f.digest.toNat).reverse

end Telemetry
