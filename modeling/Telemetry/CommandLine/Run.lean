import Telemetry.Chunk.Iterator
import Telemetry.Collector.Config
import Telemetry.CommandLine.Arguments
import Telemetry.CommandLine.Files
import Telemetry.Json.Printer
import Telemetry.Text.Blank
import Telemetry.Text.Lines

/-!
# Running a command

`compress` reads a file of JSON lines, adds each object to a configured stack of collectors and writes
what that gives back. `dump` prints the samples of a file of chunks, one JSON text a line. `stats` prints
a line for every chunk.

A command that fails says why on the error output: what it was doing, and below it the cause. What it has
printed before stays printed. The output file of `compress` is created when all samples have been taken,
and before what they give is known, so that it is left empty when they give nothing.

A command is a function of what it finds around it; what it writes is part of its outcome.

## Without room

The first sample of a chunk asks for a delta buffer with a slot for every metric of every sample that may
follow. If there is no room for one, the program panics, or its worker does if it has one (`perform`). Nothing
is said about what is left behind then. Products beyond the largest machine word count as more than there is
room for.
-/

namespace Telemetry

/-- What a command leaves behind: its exit status, what it has printed, what it has to say about a failure, and the
file it has written, by its path, with its content. -/
structure Outcome where
  exit : Nat
  stdout : String
  stderr : String
  written? : Option (String × Bytes)
  deriving DecidableEq, Repr

/-- Why a command failed: what it was doing or what is wrong, and what is wrong if the message does not say it. -/
structure Failure where
  message : String
  cause? : Option String
  deriving DecidableEq, Repr

namespace Failure

/-- A failure that says all there is to say. -/
def plain (message : String) : Failure :=
  ⟨message, none⟩

/-- An error that nothing is said about; one of a file has the words of the system for a cause. -/
def ofError (e : Error) : Failure :=
  match e with
  | .io words => ⟨e.message, some words⟩
  | _ => ⟨e.message, none⟩

/-- The failure as it is printed. -/
def text (f : Failure) : String :=
  s!"Error: {f.message}\n" ++
    match f.cause? with
    | some cause => s!"\nCaused by:\n    {cause}\n"
    | none => ""

end Failure

namespace CommandLine

/-- Open the file at a path. -/
def openInput (path : String) (view : Surroundings) : Except Failure (Except FileFault Bytes) :=
  match view.openFile path with
  | .error fault => .error ⟨s!"opening {path}", some fault.message⟩
  | .ok content => .ok content

/-! ## Compressing -/

/-- The words for bytes that are no text. -/
def notText : String :=
  "stream did not contain valid UTF-8"

/-- The configuration in a file, or the default one. -/
def loadConfig (path? : Option String) (view : Surroundings) : Except Failure Config :=
  match path? with
  | none => .ok .default
  | some path =>
    match openInput path view with
    | .error f => .error f
    | .ok (.error _) => .error (.plain s!"parsing {path}")
    | .ok (.ok bytes) =>
      match Config.ofBytes? bytes with
      | some config => .ok config
      | none => .error (.plain s!"parsing {path}")

/-- The configuration with what the arguments ask for. -/
def adjust (request : CompressRequest) (config : Config) : Config :=
  let config := match request.maxSamples? with
    | some n => { config with maxSamples := n }
    | none => config
  let config := if request.strict then { config with followsSchema := false } else config
  if request.buffered && config.queue?.isNone then
    { config with queue? := some Config.defaultQueue }
  else config

/-- The metadata document that an argument holds. -/
def readMetadata (s : String) : Except Failure Document :=
  match Json.parse s with
  | none => .error (.plain "parsing metadata")
  | some j =>
    match Document.ofJson? j with
    | .ok d => .ok d
    | .error found => .error (.ofError (.serialization (.notAnObject found)))

/-- The metadata document of a request, if there is one. -/
def requestedMetadata (request : CompressRequest) : Except Failure (Option Document) :=
  match request.metadata? with
  | none => .ok none
  | some s => (readMetadata s).map some

/-- Add one line, number `n`, after some milliseconds; a blank line is none. Whether a sample was added is
told with it. -/
def addLine (n millis : Nat) (line : Bytes) (c : Stack) : Except Failure (Bool × Stack) :=
  match Utf8.decode line with
  | .error _ => .error (.plain notText)
  | .ok s =>
    if isBlankText s then .ok (false, c)
    else
      match Json.parse s with
      | none => .error (.plain s!"line {n}: invalid JSON")
      | some j =>
        match Collector.addJson j (Clocked.elapse millis c) with
        | (.ok (), c) => .ok (true, c)
        | (.error e, _) => .error ⟨s!"line {n}", some e.message⟩

/-- Add lines from number `n` on, and count the samples after those in hand. -/
def addLines (elapsed : Nat → Nat) (n count : Nat) (c : Stack) : List Bytes → Except Failure (Nat × Stack)
  | [] => .ok (count, c)
  | line :: rest =>
    match addLine n (elapsed n) line c with
    | .error f => .error f
    | .ok (true, c) => addLines elapsed (n + 1) (count + 1) c rest
    | .ok (false, c) => addLines elapsed (n + 1) count c rest

/-- The collectors of a request, and the lines that are to be added to them. -/
def prepare (request : CompressRequest) (view : Surroundings) : Except Failure (Stack × List Bytes) := do
  let config ← loadConfig request.config? view
  -- the input has to open before the metadata is looked at, and is read after it
  let content ← openInput request.input view
  let metadata? ← requestedMetadata request
  match content with
  | .error fault => .error (.plain fault.message)
  | .ok bytes => .ok ((adjust request config).started view.compressor metadata?, linesOf bytes)

/-- The collectors with all samples of a request, before anything is written. -/
def collect (request : CompressRequest) (view : Surroundings) : Except Failure Stack := do
  let (c, lines) ← prepare request view
  let (count, c) ← addLines view.elapsed 1 0 c lines
  if count = 0 then .error (.plain s!"{request.input} holds no samples") else .ok c

/-- The failure to create a file. -/
def creationFailure (path : String) (fault : FileFault) : Failure :=
  ⟨s!"creating {path}", some fault.message⟩

/-- Compress a file into another; the content of that other is told if it has been created. -/
def compress (request : CompressRequest) (view : Surroundings) : Except Failure Unit × Option Bytes :=
  match collect request view with
  | .error f => (.error f, none)
  | .ok c =>
    match view.creationFault? request.output with
    | some fault => (.error (creationFailure request.output fault), none)
    | none =>
      match Collector.resolve c with
      | (.error e, _) => (.error (.ofError e), some [])
      | (.ok bytes, _) =>
        match view.writeFault? request.output with
        | some fault => (.error (.plain fault.message), some [])
        | none => (.ok (), some bytes)

/-- Whether lines from number `n` on ask for a longer buffer than there is room for. -/
def overfill (memory : Nat) (elapsed : Nat → Nat) (n : Nat) (c : Stack) : List Bytes → Bool
  | [] => false
  | line :: rest =>
    match addLine n (elapsed n) line c with
    | .error _ => false
    | .ok (_, c) => memory < c.longestBuffer || overfill memory elapsed (n + 1) c rest

/-- Whether there is room for the buffers that a request asks for. -/
def hasRoom (request : CompressRequest) (view : Surroundings) : Bool :=
  match prepare request view with
  | .error _ => true
  | .ok (c, lines) => !overfill view.memory view.elapsed 1 c lines

/-! ## Printing -/

/-- The source that an open file is; a directory fails at its first byte. -/
def sourceOf : Except FileFault Bytes → Source
  | .ok bytes => .ofBytes bytes
  | .error fault => { Source.ofBytes [] with failure? := some ⟨0, fault.message⟩ }

/-- The iterator that a format asks for. -/
def iteratorOf (format : Format) (source : Source) : StreamIterator :=
  match format with
  | .structured => .samples (.ofSource source none .structured)
  | .flat => .samples (.ofSource source none .flattened)
  | .matrix => .matrices (.ofSource source none)

/-- A document on a line. -/
def documentLine (d : Document) : String :=
  (Document.toJson d).render ++ "\n"

/-- The line of an item; only documents are printed. -/
def itemLine : Item → String
  | .document d => documentLine d
  | .chunk _ => ""

/-- Print the samples of a file of chunks. The metadata document, if it is asked for, comes before the
first sample, if it is known by then. -/
def dump (input : String) (format : Format) (metadata : Bool) (view : Surroundings) :
    Except Failure Unit × String :=
  match openInput input view with
  | .error f => (.error f, "")
  | .ok content =>
    let (first?, it) := (iteratorOf format (sourceOf content)).next
    let front := match first?, it.metadata? with
      | some _, some d => if metadata then documentLine d else ""
      | _, _ => ""
    let (items, it) := match first? with
      | some first => it.drainAfter #[first]
      | none => (#[], it)
    let printed := front ++ String.join (items.toList.map itemLine)
    match it.close.1 with
    | .ok () => (.ok (), printed)
    | .error e => (.error (.ofError e), printed)

/-- A text moved to the right end of a field. -/
def padLeft (width : Nat) (s : String) : String :=
  String.ofList (List.replicate (width - s.length) ' ') ++ s

/-- A row of the table of chunks. -/
def row (chunk samples metrics start : String) : String :=
  padLeft 6 chunk ++ " " ++ padLeft 8 samples ++ " " ++ padLeft 8 metrics ++ "  " ++ start ++ "\n"

/-- The row of a chunk: its number, its sizes, and the first date of its first sample. -/
def chunkRow (number : Nat) (c : Chunk) : String :=
  let start := match c.startTime? with
    | some millis => (Value.date millis).toJson.render
    | none => "-"
  row (toString number) (toString c.length) (toString c.series.length) start

/-- The chunk that an item is. -/
def Item.chunk? : Item → Option Chunk
  | .chunk c => some c
  | .document _ => none

/-- Print a line for every chunk of a file, and the totals. -/
def stats (input : String) (view : Surroundings) : Except Failure Unit × String :=
  match openInput input view with
  | .error f => (.error f, "")
  | .ok content =>
    let (items, it) := (StreamIterator.chunks (.ofSource (sourceOf content) none)).drain
    let chunks := items.toList.filterMap Item.chunk?
    let table := row "chunk" "samples" "metrics" "start" ++
      String.join (chunks.zipIdx.map fun (c, number) => chunkRow number c)
    match it.close.1 with
    | .error e => (.error (.ofError e), table)
    | .ok () =>
      let samples := chunks.foldl (fun n c => n + c.length) 0
      (.ok (), table ++ s!"{chunks.length} chunks, {samples} samples\n")

/-! ## Commands -/

/-- What is left behind by a command that has printed something and may have failed. -/
def outcome (result : Except Failure Unit) (printed : String) : Outcome :=
  match result with
  | .ok () => ⟨0, printed, "", none⟩
  | .error f => ⟨1, printed, f.text, none⟩

/-- The name of the program and its version. -/
def versionText : String :=
  "ftdc-cli 0.1.0\n"

/-- What comes of a command for which there is room. -/
def execute (command : Command) (view : Surroundings) : Outcome :=
  match command with
  | .compress request =>
    let (result, content?) := compress request view
    { outcome result "" with written? := content?.map fun content => (request.output, content) }
  | .dump input format metadata =>
    let (result, printed) := dump input format metadata view
    outcome result printed
  | .stats input =>
    let (result, printed) := stats input view
    outcome result printed
  | .version => outcome (.ok ()) versionText

/-- Run a command; nothing comes of one for which there is no room. -/
def perform (command : Command) (view : Surroundings) : Option Outcome :=
  match command with
  | .compress request => if hasRoom request view then some (execute command view) else none
  | _ => some (execute command view)

/-- What is left behind by arguments that stand for no command: exit status 2. -/
def usageError : Outcome :=
  ⟨2, "", "", none⟩

/-- The files that a command leaves behind. -/
def filesAfter (o : Outcome) (files : Files) : Files :=
  match o.written? with
  | some (path, content) => files.write path content
  | none => files

/-- Run the command that arguments stand for in a directory. -/
def run (arguments : List String) (files : Files) : Option (Outcome × Files) :=
  match Command.parse? arguments with
  | none => some (usageError, files)
  | some command => (perform command files.view).map fun o => (o, filesAfter o files)

end CommandLine

end Telemetry
