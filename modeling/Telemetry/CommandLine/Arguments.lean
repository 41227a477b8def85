import Telemetry.Text.Natural

/-!
# Arguments

Three commands: `compress INPUT OUTPUT` with options, `dump INPUT` with options, and `stats INPUT`.
Options and operands may come in any order after the command. An option with a value has it after an
equals sign or in the next argument, a short one also right behind its letter; no option may come twice.
After two hyphens everything is an operand. In place of a command, the version can be asked for.

`Command.parse?` gives nothing for arguments that are not of this form, whatever is wrong with them.
-/

namespace Telemetry

/-! ## Commands -/

/-- What `compress` is asked to do: the file with the samples and the one to write, the file with the configuration,
the most samples in a chunk, whether a change of schema is an error, whether a worker stands in between, and the
metadata document as JSON. -/
structure CompressRequest where
  input : String
  output : String
  config? : Option String
  maxSamples? : Option Nat
  strict : Bool
  buffered : Bool
  metadata? : Option String
  deriving DecidableEq, Repr

/-- The shapes in which samples are printed: that of the input, dotted keys on a line for each sample, or dotted keys
with arrays on a line for each chunk. -/
inductive Format where
  | structured
  | flat
  | matrix
  deriving DecidableEq, Repr

/-- The format of a name. -/
def Format.ofName? : String → Option Format
  | "structured" => some .structured
  | "flat" => some .flat
  | "matrix" => some .matrix
  | _ => none

/-- A command: write the samples of a file as chunks, print the samples of a file of chunks, print a line for every
chunk of a file, or print the name and the version of the program. -/
inductive Command where
  | compress (request : CompressRequest)
  | dump (input : String) (format : Format) (metadata : Bool)
  | stats (input : String)
  | version
  deriving DecidableEq, Repr

/-- The paths a command reads. -/
def Command.reads : Command → List String
  | .compress request => request.config?.toList ++ [request.input]
  | .dump input _ _ => [input]
  | .stats input => [input]
  | .version => []

/-! ## Options -/

/-- An option of a command, by its name after two hyphens or its letter after one, with a value or without. -/
structure OptionSpec where
  name : String
  letter? : Option Char
  hasValue : Bool

/-- Arguments taken apart: what is no option, in order, and the options that came, with the values of those that have
one. -/
structure Arguments where
  operands : List String
  options : List (String × Option String)

namespace Arguments

/-- No arguments. -/
def none : Arguments := ⟨[], []⟩

/-- The arguments with an operand after the ones in hand. -/
def withOperand (operand : String) (a : Arguments) : Arguments :=
  { a with operands := a.operands ++ [operand] }

/-- The arguments with an option, unless it has come before. -/
def withOption? (name : String) (value? : Option String) (a : Arguments) : Option Arguments :=
  if a.options.any fun option => option.1 == name then .none
  else some { a with options := a.options ++ [(name, value?)] }

/-- Whether an option has come. -/
def has (name : String) (a : Arguments) : Bool :=
  a.options.any fun option => option.1 == name

/-- The value of an option. -/
def value? (name : String) (a : Arguments) : Option String :=
  (a.options.lookup name).join

end Arguments

/-- Whether an argument cannot be the value of the option before it, because it looks like an option. -/
def looksLikeOption (argument : String) : Bool :=
  match argument.toList with
  | ['-'] => false
  | '-' :: _ => true
  | _ => false

/-- A name and what follows its first equals sign, if there is one. -/
def splitAtEquals (cs : List Char) : String × Option String :=
  let name := cs.takeWhile (· != '=')
  match cs.dropWhile (· != '=') with
  | _ :: value => (String.ofList name, some (String.ofList value))
  | [] => (String.ofList name, none)

/-- Arguments taken apart by the options of a command, after those in hand. -/
def Arguments.scan (specs : List OptionSpec) (a : Arguments) : List String → Option Arguments
  | [] => some a
  | argument :: rest =>
    match argument.toList with
    -- everything behind two hyphens is an operand
    | ['-', '-'] => some (rest.foldl (fun a operand => a.withOperand operand) a)
    | '-' :: '-' :: cs =>
      let (name, value?) := splitAtEquals cs
      match specs.find? fun spec => spec.name == name with
      | .none => .none
      | some spec =>
        match spec.hasValue, value?, rest with
        | false, .none, rest => (a.withOption? name .none).bind fun a => a.scan specs rest
        | true, some value, rest => (a.withOption? name (some value)).bind fun a => a.scan specs rest
        | true, .none, value :: rest =>
          if looksLikeOption value then .none
          else (a.withOption? name (some value)).bind fun a => a.scan specs rest
        | _, _, _ => .none
    | '-' :: letter :: cs =>
      match specs.find? fun spec => spec.letter? == some letter with
      | .none => .none
      | some spec =>
        match cs, rest with
        | '=' :: value, rest =>
          (a.withOption? spec.name (some (String.ofList value))).bind fun a => a.scan specs rest
        | c :: value, rest =>
          (a.withOption? spec.name (some (String.ofList (c :: value)))).bind fun a => a.scan specs rest
        | [], value :: rest =>
          if looksLikeOption value then .none
          else (a.withOption? spec.name (some value)).bind fun a => a.scan specs rest
        | [], [] => .none
    | _ => (a.withOperand argument).scan specs rest

/-! ## Each command -/

/-- The options of `compress`. -/
def compressOptions : List OptionSpec :=
  [⟨"config", some 'c', true⟩, ⟨"max-samples", some 'm', true⟩, ⟨"strict", none, false⟩,
   ⟨"buffered", none, false⟩, ⟨"metadata", none, true⟩]

/-- The options of `dump`. -/
def dumpOptions : List OptionSpec :=
  [⟨"format", some 'f', true⟩, ⟨"metadata", none, false⟩]

/-- A value that may be missing but must make sense when it is there. -/
def checked? {α : Type} (value? : Option String) (read? : String → Option α) : Option (Option α) :=
  match value? with
  | none => some none
  | some value => (read? value).map some

/-- A path; the empty text is none. -/
def path? (s : String) : Option String :=
  if s.isEmpty then none else some s

/-- What `compress` is asked to do by its arguments. -/
def CompressRequest.ofArguments? (a : Arguments) : Option CompressRequest :=
  match a.operands with
  | [input, output] => do
    let input ← path? input
    let output ← path? output
    let config? ← checked? (a.value? "config") path?
    let maxSamples? ← checked? (a.value? "max-samples") fun s => natural64? s.toList
    some { input, output, config?, maxSamples?
           strict := a.has "strict"
           buffered := a.has "buffered"
           metadata? := a.value? "metadata" }
  | _ => none

/-- Whether an argument in place of a command asks for the version. -/
def asksVersion (argument : String) : Bool :=
  argument == "--version" || argument.toList.take 2 == ['-', 'V']

/-- The command that arguments stand for. -/
def Command.parse? : List String → Option Command
  | "compress" :: rest => do
    let a ← Arguments.none.scan compressOptions rest
    (CompressRequest.ofArguments? a).map .compress
  | "dump" :: rest => do
    let a ← Arguments.none.scan dumpOptions rest
    match a.operands with
    | [input] =>
      let input ← path? input
      let format? ← checked? (a.value? "format") Format.ofName?
      some (.dump input (format?.getD .structured) (a.has "metadata"))
    | _ => none
  | "stats" :: rest => do
    let a ← Arguments.none.scan [] rest
    match a.operands with
    | [input] => (path? input).map .stats
    | _ => none
  | argument :: _ => if asksVersion argument then some .version else none
  | [] => none

end Telemetry
