import Telemetry.Proofs.CommandLine.Intake
import Telemetry.Proofs.Collector.Uniform

/-!
# Strict requests

A strict request does not follow the schema: its chunks have a fixed number of samples, and only a sample that would go to
a chunk of another kind is an error. A change of kind at the first sample of a chunk passes (`strict_succeeds_iff`).
-/

namespace Telemetry.CommandLine

/-- Samples that are not thinned out and do not follow the schema are all written exactly if those in each chunk are of
one kind and all lengths fit their places. -/
theorem Intake.exists_result_iff {x : Intake} (hinterval : x.config.interval? = none)
    (hfixed : x.config.followsSchema = false) (hne : x.offers ≠ []) :
    (x.refusals = [] ∧ ∃ bytes, x.result = .ok bytes) ↔
      (∀ g ∈ inGroups (max x.config.maxSamples 1) x.samples, Uniform g) ∧
        ∀ s ∈ Segment.ofGroups x.metadata? (inGroups (max x.config.maxSamples 1) x.samples), s.Writable := by
  have hcut : x.config.cut = inGroups (max x.config.maxSamples 1) := by
    rw [Config.cut, hfixed, if_neg Bool.false_ne_true]
  have hkinds : x.refusals = [] ↔ ∀ g ∈ inGroups (max x.config.maxSamples 1) x.samples, Uniform g :=
    Config.refusals_eq_nil_iff x.zlib hinterval hfixed x.metadata?
  rw [hkinds]
  refine and_congr_right fun hsame => ?_
  rw [← hcut]
  exact Config.exists_resolve_iff hinterval (hkinds.mpr hsame) hne

/-- Without an interval, a strict request is fulfilled exactly if its file can be created and written, there are samples,
the samples in each chunk are of one kind, and all lengths fit their places. -/
theorem strict_succeeds_iff {request : CompressRequest} {view : Surroundings} (hstrict : request.strict = true)
    (hinterval : ∀ config, loadConfig request.config? view = .ok config → config.interval? = none) :
    (compress request view).1 = .ok () ↔
      view.creationFault? request.output = none ∧ view.writeFault? request.output = none ∧
        ∃ x, intake request view = .ok x ∧ x.offers ≠ [] ∧
          (∀ g ∈ inGroups (max x.config.maxSamples 1) x.samples, Uniform g) ∧
          ∀ s ∈ Segment.ofGroups x.metadata? (inGroups (max x.config.maxSamples 1) x.samples), s.Writable := by
  have hfulfilled : (compress request view).1 = .ok () ↔ ∃ content?, compress request view = (.ok (), content?) :=
    ⟨fun h => ⟨_, Prod.ext h rfl⟩, fun ⟨_, h⟩ => congrArg Prod.fst h⟩
  have hconfig {x : Intake} (hx : intake request view = .ok x) :
      x.config.interval? = none ∧ x.config.followsSchema = false := by
    obtain ⟨config, -, hload, -, -, -, -, hadjust⟩ := intake_eq_ok_iff.mp hx
    rw [hadjust, adjust_eq, hstrict]
    exact ⟨hinterval config hload, rfl⟩
  simp only [hfulfilled, compress_eq_ok_iff]
  constructor
  · rintro ⟨_, hcreation, hwrite, x, bytes, hx, hne, hnone, hresult, -⟩
    obtain ⟨hno, hfixed⟩ := hconfig hx
    exact ⟨hcreation, hwrite, x, hx, hne, (Intake.exists_result_iff hno hfixed hne).mp ⟨hnone, bytes, hresult⟩⟩
  · rintro ⟨hcreation, hwrite, x, hx, hne, hwritten⟩
    obtain ⟨hno, hfixed⟩ := hconfig hx
    obtain ⟨hnone, bytes, hresult⟩ := (Intake.exists_result_iff hno hfixed hne).mpr hwritten
    exact ⟨_, hcreation, hwrite, x, bytes, hx, hne, hnone, hresult, rfl⟩

/-- With room for one sample in a chunk, samples of two kinds are written though the request is strict. -/
theorem strict_succeeds_two_kinds :
    let files : Files := [("in", textBytes "\x7b\"a\":1\x7d\n\x7b\"a\":true\x7d\n")]
    let request : CompressRequest := ⟨"in", "out", none, some 1, true, false, none⟩
    (compress request files.view).1 = .ok () ∧
      ∃ x, intake request files.view = .ok x ∧ (∀ g ∈ inGroups (max x.config.maxSamples 1) x.samples, Uniform g) ∧
        ¬ Uniform x.samples := by
  intro files request
  have hok : (compress request files.view).1 = .ok () := by decide +kernel
  have hinterval : ∀ config, loadConfig request.config? files.view = .ok config → config.interval? = none := by
    intro config hload
    obtain rfl := Except.ok.inj hload
    rfl
  obtain ⟨-, -, x, hx, -, hsame, -⟩ := (strict_succeeds_iff rfl hinterval).mp hok
  refine ⟨hok, x, hx, hsame, fun huniform => ?_⟩
  have htypes : (intake request files.view).map (fun x => x.samples.map Document.types) = .ok [[.int64], [.boolean]] := by
    decide +kernel
  rw [hx] at htypes
  have hkinds : x.samples.map Document.types = [[.int64], [.boolean]] := Except.ok.inj htypes
  obtain ⟨d, hd, hinteger⟩ := List.mem_map.mp (hkinds ▸ List.mem_cons_self : [.int64] ∈ x.samples.map Document.types)
  obtain ⟨e, he, hboolean⟩ := List.mem_map.mp (by rw [hkinds]; simp : [.boolean] ∈ x.samples.map Document.types)
  have heq := huniform d hd e he
  rw [hinteger, hboolean] at heq
  exact absurd heq (by decide)

end Telemetry.CommandLine
