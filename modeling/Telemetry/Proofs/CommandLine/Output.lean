import Telemetry.Proofs.CommandLine.Intake

/-!
# What a failure does to the output file

The output file is created when all samples have been taken. A request that fails before that leaves the file at its path
as it was. What can go wrong later, the file being there and writable, is of two kinds (`Intake.LateFault`): a worker has
taken samples that its collectors then refused, or a length does not fit the place that it is written in. Then the file is
left empty, whatever it held (`failed_compress_leaves_output`).
-/

namespace Telemetry.CommandLine

/-- What can be wrong with samples that have been taken: a worker has kept what was refused until the samples were
asked for, or the samples go with each other, and a length does not fit its place. -/
inductive Intake.LateFault (x : Intake) : Error → Prop where
  | refused (hqueue : x.config.queue?.isSome) (hrefused : x.refusals ≠ []) :
      LateFault x (.background (.rejected (x.refusals.map Error.message)))
  | oversize {e : Error} (hnone : x.refusals = []) (hresult : x.result = .error e) (hlength : e.isOversize = true) :
      LateFault x e

theorem Intake.Taken.lateFault_iff {x : Intake} (h : x.Taken) {e : Error} : x.outcome = .error e ↔ x.LateFault e := by
  rw [Intake.outcome]
  constructor
  · intro houtcome
    by_cases hnone : x.refusals = []
    · rw [if_pos hnone] at houtcome
      exact .oversize hnone houtcome (Config.isOversize_of_resolve h.1 houtcome)
    · rw [if_neg hnone] at houtcome
      obtain rfl := Except.error.inj houtcome
      exact .refused (h.2.resolve_right hnone) hnone
  · rintro (⟨-, hrefused⟩ | ⟨hnone, hresult, -⟩)
    · rw [if_neg hrefused]
    · rw [if_pos hnone, hresult]

/-- Only a worker takes samples that are refused. -/
theorem Intake.LateFault.taken {x : Intake} {e : Error} (h : x.LateFault e) (hne : x.offers ≠ []) : x.Taken := by
  refine ⟨hne, ?_⟩
  cases h with
  | refused hqueue _ => exact .inl hqueue
  | oversize hnone _ _ => exact .inr hnone

/-- The request fails when its file has been created. -/
def FailsLate (request : CompressRequest) (view : Surroundings) (f : Failure) : Prop :=
  view.creationFault? request.output = none ∧
    ∃ x e, intake request view = .ok x ∧ x.offers ≠ [] ∧ x.LateFault e ∧ f = .ofError e

/-- A request that fails, though nothing is wrong with writing to its file, leaves all files as they are, unless it fails
late; then it leaves its own file empty. -/
theorem failed_compress_leaves_output {request : CompressRequest} {view : Surroundings} {f : Failure}
    (hfails : (compress request view).1 = .error f) (hwrite : view.writeFault? request.output = none) :
    (¬ FailsLate request view f → ∀ files, filesAfter (execute (.compress request) view) files = files) ∧
      (FailsLate request view f → ∀ files,
        filesAfter (execute (.compress request) view) files = files.write request.output []) := by
  -- what is written is what `compress` tells
  have hwritten : (execute (.compress request) view).written? =
      (compress request view).2.map fun content => (request.output, content) := rfl
  constructor
  · intro hearly files
    suffices hnone : (compress request view).2 = none by rw [filesAfter, hwritten, hnone]; rfl
    by_cases hx : ∃ x, intake request view = .ok x ∧ x.Taken
    · obtain ⟨x, hx, htaken⟩ := hx
      rw [compress_eq_of_taken hx htaken] at hfails ⊢
      cases hcreation : view.creationFault? request.output with
      | some fault => rfl
      | none =>
        cases houtcome : x.outcome with
        | ok bytes => simp [hcreation, houtcome, hwrite] at hfails
        | error e =>
          simp only [hcreation, houtcome, Except.error.injEq] at hfails
          exact absurd ⟨hcreation, x, e, hx, htaken.1, htaken.lateFault_iff.mp houtcome, hfails.symm⟩ hearly
    · obtain ⟨f', herror⟩ := exists_compress_eq_error hx
      rw [herror]
  · rintro ⟨hcreation, x, e, hx, hne, hfault, -⟩ files
    have htaken := hfault.taken hne
    rw [filesAfter, hwritten, compress_eq_of_taken hx htaken, hcreation, htaken.lateFault_iff.mpr hfault]
    rfl

/-- A worker takes a sample of another kind than the one before it, and when it tells, the file that was there is empty. -/
theorem failed_compress_leaves_output_two_kinds :
    let files : Files := [("in", textBytes "\x7b\"a\":1\x7d\n\x7b\"a\":true\x7d\n"), ("out", [7])]
    let request : CompressRequest := ⟨"in", "out", none, none, true, true, none⟩
    FailsLate request files.view (.plain
        "Background worker error: metric type changed at position 0: [current=boolean vs previous=int64]") ∧
      filesAfter (execute (.compress request) files.view) files = files.write "out" [] := by
  intro files request
  have hleaves := @failed_compress_leaves_output request files.view
    (.plain "Background worker error: metric type changed at position 0: [current=boolean vs previous=int64]")
    (by decide +kernel) (by decide +kernel)
  -- the file has changed, so the request has failed late
  have hlate : FailsLate request files.view (.plain
      "Background worker error: metric type changed at position 0: [current=boolean vs previous=int64]") := by
    by_contra hearly
    have hsame : filesAfter (execute (.compress request) files.view) files = files := hleaves.1 hearly files
    revert hsame
    decide +kernel
  exact ⟨hlate, hleaves.2 hlate files⟩

end Telemetry.CommandLine
