import Telemetry.Zlib.Inflate

/-!
# Compressors

A writer of zlib streams is free to choose its blocks, its codes and its copies, as long as a reader gets the
content back and the stream does not grow out of bounds. Nothing else is asked of a `Compressor`, and nothing
else is used of it.
-/

namespace Telemetry

/-- A stream that inflates to the content, without fault. Content that cannot be compressed grows little: the
stream is, but for a small constant, at most twice as long. -/
structure Zlib.Deflates (stream content : Bytes) : Prop where
  content_eq : (inflate stream).content = content
  fault?_eq : (inflate stream).fault? = none
  length_le : stream.length ≤ 2 * content.length + 256

/-- A writer of zlib streams: at every level of effort a stream for any content. -/
structure Compressor where
  deflate : (level : Nat) → (content : Bytes) → Bytes
  deflates : ∀ level content, Zlib.Deflates (deflate level content) content

end Telemetry
