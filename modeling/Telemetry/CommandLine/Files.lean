import Telemetry.Delta
import Telemetry.Zlib.Stored

/-!
# What a command finds around it

What a command asks of the files around it is little: to open a path and read it, to create the file at a
path, and to write to it. Each can fail, in the words of the operating system; a directory can be opened
but not read. The `Surroundings` of a command hold the answers. They also say how much time goes by between
the lines of a file, how payloads are compressed, and how much room there is in memory.

`Files` is the directory that a command works in, without other directories in it. A path is walked from
directory to directory (`Files.walk`) to the place it leads to; from that follow the surroundings of a command
(`Files.surroundings`) and the directory after a file has been written. Of what lies outside only directories and
devices are known, and what commands have put there.
-/

namespace Telemetry

/-- Why a path cannot be used: there is no such file or directory, one stands where the other is needed, a name
or the path as a whole is too long, the device takes no more, or anything else, in the words of the system. -/
inductive FileFault where
  | notFound
  | notADirectory
  | isADirectory
  | nameTooLong
  | noSpace
  | other (words : String)
  deriving DecidableEq, Repr

/-- The words of the operating system. -/
def FileFault.message : FileFault → String
  | .notFound => "No such file or directory (os error 2)"
  | .notADirectory => "Not a directory (os error 20)"
  | .isADirectory => "Is a directory (os error 21)"
  | .nameTooLong => "File name too long (os error 36)"
  | .noSpace => "No space left on device (os error 28)"
  | .other words => words

/-- What a command finds around it.

A path is opened, and what has been opened is read; a file may not be created at it, or nothing can be written to
the file that has been. Milliseconds go by before the sample on the line of a number is added. There is room for a
delta buffer if it has at most `memory` slots. -/
structure Surroundings where
  openFile : String → Except FileFault (Except FileFault Bytes)
  creationFault? : String → Option FileFault
  writeFault? : String → Option FileFault
  elapsed : Nat → Nat
  compressor : Compressor
  memory : Nat

/-! ## Directories -/

/-- A directory that a path can lead to: the one that a command works in, the one above it or so many levels
higher, the root, or one of those in the root. -/
inductive Folder where
  | here
  | above (more : Nat)
  | root
  | system (name : String)
  deriving DecidableEq, Repr

namespace Folder

/-- The directories that the root of any system holds. -/
def systemNames : List String :=
  ["bin", "boot", "dev", "etc", "home", "lib", "media", "mnt", "opt", "proc", "root", "run", "sbin",
   "srv", "sys", "tmp", "usr", "var"]

/-- The directory that two dots lead to; above the root there is none. -/
def parent : Folder → Folder
  | .here => .above 0
  | .above more => .above (more + 1)
  | .root | .system _ => .root

/-- The directory with a name in this one. -/
def child? (name : String) : Folder → Option Folder
  | .root => if systemNames.contains name then some (.system name) else none
  | _ => none

/-- What stands in front of the names of files in the directory. -/
def lead : Folder → String
  | .here => ""
  | .above more => String.join (List.replicate (more + 1) "../")
  | .root => "/"
  | .system name => "/" ++ name ++ "/"

end Folder

/-- What a path leads to: a directory, or a name in one that is not itself a directory, whether a file has it or
not. -/
inductive Place where
  | directory
  | entry (folder : Folder) (name : String)
  deriving DecidableEq, Repr

/-! ## Paths -/

/-- The most bytes of a name. -/
def maxNameLength : Nat := 255

/-- The most bytes of a path. -/
def maxPathLength : Nat := 4095

/-- The parts of a path between slashes. -/
def pathParts : List Char → List (List Char)
  | [] => [[]]
  | c :: rest =>
    if c = '/' then [] :: pathParts rest
    else match pathParts rest with
      | [] => [[c]]
      | part :: more => (c :: part) :: more

/-- The names in a path, in order; between slashes in a row there is none. -/
def pathNames (path : String) : List String :=
  ((pathParts path.toList).filter fun part => !part.isEmpty).map String.ofList

/-- Whether a path begins at the root. -/
def isAbsolute (path : String) : Bool :=
  path.toList.head? == some '/'

/-- Whether a path asks for a directory by a slash at its end. -/
def endsInSlash (path : String) : Bool :=
  path.toList.getLast? == some '/'

/-! ## Files -/

/-- The files that are known: those of the directory that commands work in by their names, others by
their directories and names. -/
abbrev Files := List (String × Bytes)

/-- A file that gives the same content, as far as anyone reads it, whatever is written to it. -/
structure Device where
  content : Bytes
  writeFault? : Option FileFault

/-- The devices, by their paths: one that is empty, one that goes on with zeros for ever, and one that also
takes nothing. -/
def devices : List (String × Device) :=
  [("/dev/null", ⟨[], none⟩), ("/dev/zero", ⟨List.replicate 4 0, none⟩),
   ("/dev/full", ⟨List.replicate 4 0, some .noSpace⟩)]

namespace Files

/-- The content of a known file. -/
def content? (path : String) (files : Files) : Option Bytes :=
  match devices.lookup path with
  | some device => some device.content
  | none => (files.find? fun file => file.1 == path).map (·.2)

/-- The files with one put in place of any of its name. -/
def put (path : String) (bytes : Bytes) (files : Files) : Files :=
  match devices.lookup path with
  | some _ => files
  | none => (path, bytes) :: files.filter fun file => file.1 != path

/-- Why a name does not lead on to a directory: it is too long, or a file has it, or nothing. -/
def passageFault (folder : Folder) (name : String) (files : Files) : FileFault :=
  if maxNameLength < name.utf8ByteSize then .nameTooLong
  else if (files.content? (folder.lead ++ name)).isSome then .notADirectory
  else .notFound

/-- Walk on from a directory: one dot stays, two dots lead up, and a name has to lead to a directory
unless it is the last. -/
def walk (files : Files) : Folder → List String → Except FileFault Place
  | _, [] => .ok .directory
  | folder, name :: rest =>
    if name = "." then walk files folder rest
    else if name = ".." then walk files folder.parent rest
    else
      match folder.child? name with
      | some inner => walk files inner rest
      | none =>
        if rest.isEmpty then .ok (.entry folder name) else .error (files.passageFault folder name)

/-- The place that a path leads to. The empty path leads nowhere. -/
def place (path : String) (files : Files) : Except FileFault Place :=
  if path.isEmpty then .error .notFound
  else if maxPathLength < path.utf8ByteSize then .error .nameTooLong
  else walk files (if isAbsolute path then .root else .here) (pathNames path)

/-- Open the file at a path. A directory opens, and turns out to be one when it is read. -/
def openFile (path : String) (files : Files) : Except FileFault (Except FileFault Bytes) :=
  match files.place path with
  | .error fault => .error fault
  | .ok .directory => .ok (.error .isADirectory)
  | .ok (.entry folder name) =>
    match files.content? (folder.lead ++ name) with
    | some bytes => if endsInSlash path then .error .notADirectory else .ok (.ok bytes)
    | none => .error (files.passageFault folder name)

/-- Why no file can be created at a path. -/
def creationFault? (path : String) (files : Files) : Option FileFault :=
  match files.place path with
  | .error fault => some fault
  | .ok .directory => some .isADirectory
  | .ok (.entry _ name) =>
    if endsInSlash path then some .isADirectory
    else if maxNameLength < name.utf8ByteSize then some .nameTooLong
    else none

/-- Why nothing can be written to the file at a path. -/
def writeFault? (path : String) (files : Files) : Option FileFault :=
  match files.place path with
  | .ok (.entry folder name) => (devices.lookup (folder.lead ++ name)).bind (·.writeFault?)
  | _ => none

/-- What a command in the directory finds around it, as far as the directory has a say in it. -/
def surroundings (elapsed : Nat → Nat) (zlib : Compressor) (memory : Nat) (files : Files) : Surroundings where
  openFile path := files.openFile path
  creationFault? path := files.creationFault? path
  writeFault? path := files.writeFault? path
  elapsed := elapsed
  compressor := zlib
  memory := memory

/-- What it finds if no time goes by, nothing is compressed and all memory that can be addressed is there. -/
def view (files : Files) : Surroundings :=
  files.surroundings (fun _ => 0) .stored Delta.maxSlots

/-- The files after the one at a path has been written. -/
def write (path : String) (bytes : Bytes) (files : Files) : Files :=
  match files.place path with
  | .ok (.entry folder name) => files.put (folder.lead ++ name) bytes
  | _ => files

end Files

end Telemetry
