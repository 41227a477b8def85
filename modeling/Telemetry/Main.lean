import Telemetry.CommandLine.Run

/-!
# The program

Opens the paths that a command names, runs the command on what was found there, and does what its outcome
says: writes the file, prints, exits.
-/

namespace Telemetry

/-- A fault of the operating system. -/
def FileFault.ofSystem (e : IO.Error) : FileFault :=
  match e with
  | .noFileOrDirectory _ _ _ => .notFound
  | .inappropriateType _ 20 _ => .notADirectory
  | .inappropriateType _ 21 _ => .isADirectory
  | .invalidArgument _ 36 _ => .nameTooLong
  | .resourceExhausted _ 28 _ => .noSpace
  | e => .other (toString e)

/-- What comes of an action on files. -/
def attempt {α : Type} (action : IO α) : IO (Except FileFault α) := do
  try
    return .ok (← action)
  catch e =>
    return .error (.ofSystem e)

/-- Open a path and read it. A directory opens but cannot be read. -/
def openPath (path : String) : IO (Except FileFault (Except FileFault Bytes)) := do
  match ← attempt (IO.FS.Handle.mk path .read) with
  | .error fault => return .error fault
  | .ok handle => return .ok ((← attempt handle.readBinToEnd).map fun content => content.toList)

/-- Write the file that an outcome tells of; if that fails, the outcome is the failure. -/
def Outcome.writeFile (o : Outcome) : IO Outcome := do
  match o.written? with
  | none => return o
  | some (path, content) =>
    match ← attempt (IO.FS.Handle.mk path .write) with
    | .error fault =>
      return CommandLine.outcome (.error (CommandLine.creationFailure path fault)) o.stdout
    | .ok handle =>
      match ← attempt (do handle.write ⟨content.toArray⟩; handle.flush) with
      | .error fault => return CommandLine.outcome (.error (.plain fault.message)) o.stdout
      | .ok () => return o

/-- What is said about arguments that stand for no command. -/
def usage : String :=
  "usage: compress [-c FILE] [-m COUNT] [--strict] [--buffered] [--metadata JSON] INPUT OUTPUT\n" ++
  "       dump [-f structured|flat|matrix] [--metadata] INPUT\n" ++
  "       stats INPUT"

/-- The exit status of a program that has panicked. -/
def panicked : UInt32 := 101

/-- Run the command that the arguments stand for, and give its exit status. -/
def runArguments (arguments : List String) : IO UInt32 := do
  match Command.parse? arguments with
  | none =>
    IO.eprintln usage
    return UInt32.ofNat CommandLine.usageError.exit
  | some command =>
    let opened ← command.reads.mapM fun path => do return (path, ← openPath path)
    let view : Surroundings := {
      openFile := fun path => (opened.lookup path).getD (.error .notFound)
      creationFault? := fun _ => none
      writeFault? := fun _ => none
      elapsed := fun _ => 0
      compressor := .stored
      memory := Delta.maxSlots }
    match CommandLine.perform command view with
    | none => return panicked
    | some o =>
      let o ← o.writeFile
      IO.print o.stdout
      IO.eprint o.stderr
      return UInt32.ofNat o.exit

end Telemetry

/-- The program. -/
def main (arguments : List String) : IO UInt32 :=
  Telemetry.runArguments arguments
