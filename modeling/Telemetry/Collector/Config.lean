import Telemetry.Collector.Plan
import Telemetry.Json.Skip
import Telemetry.Payload

/-!
# Configuration of a stack

A configuration says how many samples a chunk holds, whether chunks follow the schema, whether samples
are thinned out by an interval, whether a worker stands in between, and how hard to compress. It is
written as JSON: an object in which what is missing takes its default and what is unknown is ignored, or
an array of the five settings in order, of which the last ones may be missing.
-/

namespace Telemetry

/-- The settings of a stack of collectors: the most samples in a chunk, whether chunks follow the schema, the
least time between two samples in milliseconds, the capacity of the queue in front of a worker, and the level of
compression. -/
structure Config where
  maxSamples : Nat
  followsSchema : Bool
  interval? : Option Nat
  queue? : Option Nat
  level : Nat
  deriving DecidableEq, Repr

namespace Config

/-- Chunks of three hundred samples that follow the schema, without interval and worker. -/
def default : Config where
  maxSamples := 300
  followsSchema := true
  interval? := none
  queue? := none
  level := Payload.defaultLevel

/-- The capacity of a queue that is asked for without one. -/
def defaultQueue : Nat := 100

/-! ## Building -/

/-- The design of the configured stack with a given compressor: chunks, then an interval around them, then a
worker around that. -/
def plan (zlib : Compressor) (c : Config) : Plan :=
  let chunks := if c.followsSchema then Plan.adaptive c.maxSamples ⟨zlib, c.level⟩
    else Plan.batch c.maxSamples ⟨zlib, c.level⟩
  let thinned := match c.interval? with
    | some interval => Plan.sampling interval chunks
    | none => chunks
  match c.queue? with
  | some capacity => Plan.buffered capacity thinned
  | none => thinned

/-- The stack of a configuration, with a metadata document if there is one. -/
def started (zlib : Compressor) (c : Config) (metadata? : Option Document) : Stack :=
  match metadata? with
  | none => .start (c.plan zlib) .empty .fresh
  | some d => Collector.setMetadata d (.start (c.plan zlib) .empty .fresh)

/-! ## As JSON -/

/-- A number that may be missing. -/
def optionalJson : Option Nat → Json
  | some n => .integer n
  | none => .null

/-- The names of the settings, in order. -/
def names : List String :=
  ["max_samples", "dynamic", "sampling_interval_ms", "buffer_size", "compression_level"]

/-- The configuration as an object. -/
def toJson (c : Config) : Json :=
  .object (names.zip [.integer c.maxSamples, .boolean c.followsSchema, optionalJson c.interval?,
    optionalJson c.queue?, .integer c.level])

/-- A number below a bound. -/
def natural? (bound : Nat) : Json → Option Nat
  | .integer n => if 0 ≤ n ∧ n < bound then some n.toNat else none
  | _ => none

/-- A number below a bound, or null for none. -/
def optional? (bound : Nat) : Json → Option (Option Nat)
  | .null => some none
  | j => (natural? bound j).map some

/-- The configuration with the setting at a position, in the order of `names`, taken from JSON. -/
def set? (c : Config) (position : Nat) (j : Json) : Option Config :=
  match position, j with
  | 0, j => (natural? UInt64.size j).map fun n => { c with maxSamples := n }
  | 1, .boolean b => some { c with followsSchema := b }
  | 2, j => (optional? UInt64.size j).map fun n? => { c with interval? := n? }
  | 3, j => (optional? UInt64.size j).map fun n? => { c with queue? := n? }
  | 4, j => (natural? UInt32.size j).map fun n => { c with level := n }
  | _, _ => none

/-- The configuration with settings taken from the items of an array, from a position on. -/
def setItems? (c : Config) (position : Nat) : List Json → Option Config
  | [] => some c
  | j :: rest => (c.set? position j).bind fun c => c.setItems? (position + 1) rest

/-! ## From bytes

An object is read member by member: a setting that comes twice is an error, and the value of an unknown
key is passed over whatever it says. What is passed over is not decoded, so its strings need not even be
text. The marks of JSON are single bytes, and no byte of a longer character is one of them; the bytes are
therefore read as if each were a character, and only keys are decoded. -/

/-- The bytes, each as the character of its number. -/
def octets (bytes : Bytes) : List Char :=
  bytes.map fun b => Char.ofNat b.toNat

/-- A key after its opening quote, and what follows its closing quote. -/
def readKey (cs : List Char) : Option (String × List Char) :=
  match Json.skipText cs with
  | none => none
  | some rest =>
    let written := cs.take (cs.length - rest.length)
    match Utf8.decode (written.map fun c => UInt8.ofNat c.toNat) with
    | .error _ => none
    | .ok s => (Json.readText s.toList).map fun (key, _) => (String.ofList key, rest)

/-- The configuration with settings taken from the members of an object that has at least one more, and
what follows the closing brace. The positions of the settings already seen come first. -/
def readMembers : (bound : Nat) → (seen : List Nat) → Config → List Char →
    Option (Config × List Char)
  | 0, _, _, _ => none
  | bound + 1, seen, c, cs =>
    match Json.skip cs with
    | '"' :: rest =>
      match readKey rest with
      | none => none
      | some (key, rest) =>
        match Json.skip rest with
        | ':' :: rest =>
          let found : Option (List Nat × Config × List Char) :=
            match names.idxOf? key with
            | none => (Json.skipValue (2 * rest.length + 2) rest).map fun rest => (seen, c, rest)
            | some position =>
              if seen.contains position then none
              else
                match Json.readValue (2 * rest.length + 2) Json.maxDepth rest with
                | none => none
                | some (j, rest) =>
                  (c.set? position j).map fun c => (position :: seen, c, rest)
          match found with
          | none => none
          | some (seen, c, rest) =>
            match Json.skip rest with
            | ',' :: rest => readMembers bound seen c rest
            | '}' :: rest => some (c, rest)
            | _ => none
        | _ => none
    | _ => none

/-- The configuration that bytes hold. -/
def ofBytes? (bytes : Bytes) : Option Config :=
  let cs := octets bytes
  match Json.skip cs with
  | '{' :: rest =>
    let found := match Json.skip rest with
      | '}' :: rest => some (default, rest)
      | _ => readMembers rest.length [] default rest
    match found with
    | some (c, rest) => if (Json.skip rest).isEmpty then some c else none
    | none => none
  | _ =>
    -- no setting is a string, so none of the items is decoded
    match Json.parseChars cs with
    | some (.array items) => default.setItems? 0 items
    | _ => none

/-- The configuration that a text holds. -/
def parse (s : String) : Option Config :=
  ofBytes? (textBytes s)

end Config

end Telemetry
