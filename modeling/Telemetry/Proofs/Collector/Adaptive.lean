import Telemetry.Collector.Adaptive
import Telemetry.Proofs.Collector.Batch

/-!
# How an adaptive collector divides samples

An adaptive collector stands to its batches as a batch stands to its windows: earlier batches and a current one,
each with one run of samples, and the metadata document in the first (`Turns`). A batch is closed by the first
sample with another fingerprint than the last one taken, which a new batch never refuses.

Told from outside, the windows of all batches hold the samples in groups of runs
(`Adaptive.Fills.windows_fill`).
-/

namespace Telemetry.Adaptive

/-- What becomes of the batches for a sample: the current one stays open, or is closed and a new one opened. -/
theorem turn_cases (f : Fingerprint) (a : Adaptive) :
    a.turn f = a ∨
      a.turn f = { a with closed := a.closed.push a.current, current := .empty a.maxSamples a.compression } := by
  rw [turn]
  split
  · split
    · exact .inl rfl
    · exact .inr rfl
  · exact .inl rfl

/-- A refused sample leaves the collector as it was: a batch that is opened for a sample does not refuse it. -/
theorem eq_of_add_error {a a' : Adaptive} {sample : Document} {e : Error} (h : a.add sample = (.error e, a')) :
    a' = a := by
  rw [add] at h
  rcases turn_cases sample.fingerprint a with hturn | hturn
  · rw [hturn] at h
    cases hadd : a.current.add sample with
    | mk result b =>
      cases result with
      | ok _ => simp [hadd] at h
      | error e' =>
        simp only [hadd] at h
        obtain ⟨-, rfl⟩ := Prod.mk.inj h
        rw [Batch.eq_of_add_error hadd]
  · obtain ⟨b, hadd⟩ := (Batch.Fills.empty a.maxSamples a.compression).exists_add_eq_ok rfl sample
    rw [hturn] at h
    simp [hadd] at h

/-- The runs of samples in the earlier batches and the run in the current one.

A new batch has room for so many samples in a window, and all are compressed alike. The first batch holds the
document. The current batch is not empty if it is not the first, and the fingerprint of its last sample is known. The
batches hold the longest runs of one fingerprint. -/
structure Turns (k : Nat) (z : Compression) (a : Adaptive) (metadata? : Option Document)
    (closed : List (List Document)) (last : List Document) : Prop where
  maxSamples_eq : max a.maxSamples 1 = k
  compression_eq : a.compression = z
  closed_fill : List.Forall₂ (Batch.Fills k z) a.closed.toList (Segment.ofGroups metadata? closed)
  current_fills : a.current.Fills k z ⟨if closed.isEmpty then metadata? else none, last⟩
  last_ne_nil : closed ≠ [] → last ≠ []
  runs_eq : last ≠ [] → inRuns (closed.flatten ++ last) = closed ++ [last]
  fingerprint?_eq : a.fingerprint? = last.getLast?.map Document.fingerprint

namespace Turns

variable {k : Nat} {z : Compression} {a : Adaptive} {metadata? : Option Document} {closed : List (List Document)}
  {last : List Document}

theorem empty (maxSamples : Nat) (z : Compression) :
    Turns (max maxSamples 1) z (.empty maxSamples z) none [] [] where
  maxSamples_eq := rfl
  compression_eq := rfl
  closed_fill := .nil
  current_fills := .empty maxSamples z
  last_ne_nil := by simp
  runs_eq := by simp
  fingerprint?_eq := rfl

/-- The batches hold the runs, the current one included. -/
theorem batches_fill (h : a.Turns k z metadata? closed last) :
    List.Forall₂ (Batch.Fills k z) a.batches (Segment.ofGroups metadata? (closed ++ [last])) := by
  rw [Segment.ofGroups_concat]
  exact List.rel_append h.closed_fill (.cons h.current_fills .nil)

/-- If nothing has been taken, there is the current batch only. -/
theorem eq_nil (h : a.Turns k z metadata? closed last) (hnil : closed.flatten ++ last = []) :
    closed = [] ∧ last = [] := by
  have hlast := (List.append_eq_nil_iff.mp hnil).2
  refine ⟨?_, hlast⟩
  by_contra hclosed
  exact h.last_ne_nil hclosed hlast

/-- If anything has been taken, the current batch is not empty. -/
theorem ne_nil (h : a.Turns k z metadata? closed last) (hne : closed.flatten ++ last ≠ []) :
    last ≠ [] := by
  intro hnil
  by_cases hclosed : closed = []
  · simp [hnil, hclosed] at hne
  · exact h.last_ne_nil hclosed hnil

/-! ### Requests -/

theorem reset (h : a.Turns k z metadata? closed last) : a.reset.Turns k z none [] [] := by
  rw [Adaptive.reset, h.compression_eq, ← h.maxSamples_eq]
  exact .empty a.maxSamples z

/-- The document goes to the first batch, wherever that is. -/
theorem setMetadata (h : a.Turns k z metadata? closed last) (d : Document) :
    (a.setMetadata d).Turns k z (some d) closed last := by
  have hempty := Segment.isEmpty_holders h.closed_fill
  rw [Adaptive.setMetadata]
  cases closed with
  | nil =>
    have hclosed : a.closed.isEmpty := hempty
    rw [if_pos hclosed]
    exact { h with
      closed_fill := h.closed_fill
      current_fills := h.current_fills.setMetadata d }
  | cons g closed =>
    have hclosed : ¬ a.closed.isEmpty := by simp [hempty]
    rw [if_neg hclosed]
    exact { h with
      closed_fill := Segment.modify_holders h.closed_fill fun b s hb => hb.setMetadata d
      current_fills := h.current_fills }

/-- The current batch stays open for a sample that has the fingerprint of the last one, or is the first. -/
theorem turn_same (h : a.Turns k z metadata? closed last) {f : Fingerprint}
    (hf : ∀ d ∈ last.getLast?, d.fingerprint = f) : a.turn f = a := by
  rw [turn, h.fingerprint?_eq]
  cases hlast : last.getLast? with
  | none => rfl
  | some d =>
    rw [hlast] at hf
    exact if_pos (hf d rfl)

/-- A sample with another fingerprint than the last one goes to a new batch. -/
theorem turn_other (h : a.Turns k z metadata? closed last) {f : Fingerprint} {d : Document}
    (hlast : last.getLast? = some d) (hf : d.fingerprint ≠ f) :
    a.turn f = { a with closed := a.closed.push a.current, current := .empty a.maxSamples a.compression } := by
  rw [turn, h.fingerprint?_eq, hlast]
  exact if_neg hf

/-- What taking a sample can do: it goes to the current batch, which may refuse it, or to a new one, which does
not. -/
theorem add_cases (h : a.Turns k z metadata? closed last) (sample : Document) :
    ((∀ d ∈ last.getLast?, d.fingerprint = sample.fingerprint) ∧
      ∃ b, a.current.add sample = (.ok (), b) ∧
        a.add sample = (.ok (), { a with current := b, fingerprint? := some sample.fingerprint })) ∨
    ((∀ d ∈ last.getLast?, d.fingerprint = sample.fingerprint) ∧
      ∃ e, a.current.add sample = (.error e, a.current) ∧ a.add sample = (.error e, a)) ∨
    (∃ d, last.getLast? = some d ∧ d.fingerprint ≠ sample.fingerprint ∧
      ∃ b, (Batch.empty a.maxSamples a.compression).add sample = (.ok (), b) ∧
        a.add sample = (.ok (), { a with
          closed := a.closed.push a.current
          current := b
          fingerprint? := some sample.fingerprint })) := by
  by_cases hsame : ∀ d ∈ last.getLast?, d.fingerprint = sample.fingerprint
  · have hturn := h.turn_same hsame
    cases hadd : a.current.add sample with
    | mk result b =>
      cases result with
      | ok _ => exact .inl ⟨hsame, b, rfl, by rw [add, hturn]; simp only [hadd]⟩
      | error e =>
        obtain rfl := Batch.eq_of_add_error hadd
        exact .inr (.inl ⟨hsame, e, rfl, by rw [add, hturn]; simp only [hadd]⟩)
  · push Not at hsame
    obtain ⟨d, hlast, hd⟩ := hsame
    have hturn := h.turn_other hlast hd
    obtain ⟨b, hadd⟩ := (Batch.Fills.empty a.maxSamples a.compression).exists_add_eq_ok rfl sample
    exact .inr (.inr ⟨d, hlast, hd, b, hadd, by rw [add, hturn]; simp only [hadd]⟩)

/-- A sample that is taken is the last one in the current batch, which may be a new one. -/
theorem added (h : a.Turns k z metadata? closed last) {sample : Document} {a' : Adaptive}
    (hadd : a.add sample = (.ok (), a')) :
    ∃ closed' last', a'.Turns k z metadata? closed' last' ∧
      closed'.flatten ++ last' = closed.flatten ++ last ++ [sample] := by
  rcases h.add_cases sample with ⟨hsame, b, hb, heq⟩ | ⟨-, e, -, heq⟩ | ⟨d, hlast, hd, b, hb, heq⟩
  · rw [heq] at hadd
    obtain ⟨-, rfl⟩ := Prod.mk.inj hadd
    refine ⟨closed, last ++ [sample], ?_, by simp⟩
    exact { h with
      closed_fill := h.closed_fill
      current_fills := h.current_fills.added hb
      last_ne_nil := by simp
      runs_eq := by
        intro _
        rw [← List.append_assoc]
        cases hlast : last.getLast? with
        | none =>
          -- nothing has been taken before, so the sample is a run of its own
          obtain rfl := List.getLast?_eq_none_iff.mp hlast
          have hclosed : closed = [] := by
            by_contra hclosed
            exact h.last_ne_nil hclosed rfl
          subst hclosed
          rfl
        | some d =>
          have hne : last ≠ [] := by
            rintro rfl
            simp at hlast
          exact inRuns_concat_same (h.runs_eq hne) hlast (hsame d hlast)
      fingerprint?_eq := by simp }
  · simp [heq] at hadd
  · rw [heq] at hadd
    obtain ⟨-, rfl⟩ := Prod.mk.inj hadd
    have hne : last ≠ [] := by
      rintro rfl
      simp at hlast
    refine ⟨closed ++ [last], [sample], ?_, by simp⟩
    exact { h with
      closed_fill := by
        rw [Array.toList_push]
        exact h.batches_fill
      current_fills := by
        have hfills := (Batch.Fills.empty a.maxSamples a.compression).added hb
        rw [h.maxSamples_eq, h.compression_eq] at hfills
        simpa using hfills
      last_ne_nil := by simp
      runs_eq := by
        intro _
        have hgetLast : (closed.flatten ++ last).getLast? = some d := by
          rw [List.getLast?_append_of_ne_nil _ hne, hlast]
        rw [List.flatten_concat, inRuns_concat_other hgetLast hd, h.runs_eq hne]
      fingerprint?_eq := by simp }

end Turns

/-- Every batch of a collector that resolves does so itself. -/
theorem exists_resolve_of_mem {a : Adaptive} {bytes : Bytes} (h : a.resolve = .ok bytes) :
    ∀ b ∈ a.batches, ∃ piece, b.resolve = .ok piece :=
  exists_of_map_mapM_eq_ok h

/-! ## An adaptive collector from outside -/

/-- A collector holds the samples of a segment and has its metadata document. -/
def Fills (k : Nat) (z : Compression) (a : Adaptive) (s : Segment) : Prop :=
  ∃ closed last, a.Turns k z s.metadata? closed last ∧ closed.flatten ++ last = s.samples

namespace Fills

variable {k : Nat} {z : Compression} {a : Adaptive} {s : Segment}

theorem empty (maxSamples : Nat) (z : Compression) :
    Fills (max maxSamples 1) z (.empty maxSamples z) ⟨none, []⟩ :=
  ⟨[], [], .empty maxSamples z, rfl⟩

theorem reset (h : a.Fills k z s) : a.reset.Fills k z ⟨none, []⟩ := by
  obtain ⟨closed, last, hturns, -⟩ := h
  exact ⟨[], [], hturns.reset, rfl⟩

theorem setMetadata (h : a.Fills k z s) (d : Document) :
    (a.setMetadata d).Fills k z ⟨some d, s.samples⟩ := by
  obtain ⟨closed, last, hturns, hsamples⟩ := h
  exact ⟨closed, last, hturns.setMetadata d, hsamples⟩

/-- A sample that is taken is the last one held. -/
theorem added (h : a.Fills k z s) {sample : Document} {a' : Adaptive}
    (hadd : a.add sample = (.ok (), a')) : a'.Fills k z ⟨s.metadata?, s.samples ++ [sample]⟩ := by
  obtain ⟨closed, last, hturns, hsamples⟩ := h
  obtain ⟨closed', last', hturns', hsamples'⟩ := hturns.added hadd
  exact ⟨closed', last', hturns', by rw [hsamples', hsamples]⟩

/-- A collector takes a sample with metrics of the types of those it holds. -/
theorem exists_add_of_types (h : a.Fills k z s) {sample : Document}
    (htypes : ∀ d ∈ s.samples, Document.types sample = Document.types d) : ∃ a', a.add sample = (.ok (), a') := by
  obtain ⟨closed, last, hturns, hsamples⟩ := h
  rw [← hsamples] at htypes
  rcases hturns.add_cases sample with ⟨-, b, -, heq⟩ | ⟨-, e, herror, -⟩ | ⟨-, -, -, b, -, heq⟩
  · exact ⟨_, heq⟩
  · obtain ⟨b, hadd⟩ := hturns.current_fills.exists_add_of_types fun d hd => htypes d (List.mem_append_right _ hd)
    simp [hadd] at herror
  · exact ⟨_, heq⟩

theorem pos (h : a.Fills k z s) : 0 < k := by
  obtain ⟨closed, last, hturns, -⟩ := h
  have hk := hturns.maxSamples_eq
  omega

/-- The batches of a collector that holds samples hold its runs. -/
theorem batches_fill (h : a.Fills k z s) (hne : s.samples ≠ []) :
    List.Forall₂ (Batch.Fills k z) a.batches (Segment.ofGroups s.metadata? (inRuns s.samples)) := by
  obtain ⟨closed, last, hturns, hsamples⟩ := h
  rw [← hsamples] at hne ⊢
  rw [hturns.runs_eq (hturns.ne_nil hne)]
  exact hturns.batches_fill

/-- The batches hold segments whose groups, taken together, are the groups of all runs. -/
theorem exists_segments (h : a.Fills k z s) (hne : s.samples ≠ []) :
    ∃ segments, List.Forall₂ (Batch.Fills k z) a.batches segments ∧
      (∀ s' ∈ segments, s'.samples ≠ []) ∧
      segments.flatMap (fun s' => Segment.ofGroups s'.metadata? (inGroups k s'.samples)) =
        Segment.ofGroups s.metadata? (inGroupsOfRuns k s.samples) := by
  have hruns : ∀ r ∈ inRuns s.samples, r ≠ [] := fun r hr => List.ne_nil_of_mem_splitBy hr
  refine ⟨_, h.batches_fill hne, ?_, ?_⟩
  · intro s' hs'
    exact hruns _ (Segment.mem_of_mem_ofGroups hs')
  · rw [inGroupsOfRuns]
    apply Segment.flatMap_ofGroups
    intro r hr
    exact (inGroups_eq_nil_iff h.pos).not.mpr (hruns r hr)

/-- The windows of all batches hold the runs in groups. -/
theorem windows_fill (h : a.Fills k z s) (hne : s.samples ≠ []) :
    List.Forall₂ (Window.Fills z) (a.batches.flatMap Batch.windows)
      (Segment.ofGroups s.metadata? (inGroupsOfRuns k s.samples)) := by
  obtain ⟨segments, hfill, hne', heq⟩ := h.exists_segments hne
  rw [← heq]
  exact Batch.flatMap_windows_fill hfill hne'

/-- A collector without samples has nothing to give. -/
theorem resolve_nil (h : a.Fills k z s) (hnil : s.samples = []) : a.resolve = .error .noReference := by
  obtain ⟨closed, last, hturns, hsamples⟩ := h
  rw [hnil] at hsamples
  obtain ⟨rfl, rfl⟩ := hturns.eq_nil hsamples
  have hbatches : a.closed.toList = [] := List.forall₂_nil_right_iff.mp hturns.closed_fill
  rw [resolve, batches, hbatches, List.nil_append, List.mapM_cons, hturns.current_fills.resolve_nil rfl]
  rfl

/-- A collector gives the segments of its windows, unless a length does not fit. -/
theorem resolve_eq (h : a.Fills k z s) (hne : s.samples ≠ [])
    (hw : ∀ s' ∈ Segment.ofGroups s.metadata? (inGroupsOfRuns k s.samples), s'.Writable) :
    a.resolve =
      .ok ((Segment.ofGroups s.metadata? (inGroupsOfRuns k s.samples)).map (·.bytes z)).flatten := by
  obtain ⟨segments, hfill, hne', heq⟩ := h.exists_segments hne
  rw [← heq] at hw ⊢
  rw [resolve, Batch.mapM_resolve_eq hfill hne' hw]
  simp only [← List.flatMap_def, List.flatMap_assoc, Except.map]

theorem exists_resolve (h : a.Fills k z s)
    (hw : ∀ s' ∈ Segment.ofGroups s.metadata? (inGroupsOfRuns k s.samples), s'.Writable) :
    s.samples ≠ [] → ∃ bytes, a.resolve = .ok bytes := by
  intro hne
  exact ⟨_, h.resolve_eq hne hw⟩

/-- A collector tells how many samples it holds, and how many metrics their chunks have. -/
theorem info_eq (h : a.Fills k z s) :
    a.info = ⟨s.samples.length, ((inGroupsOfRuns k s.samples).map Segment.metrics).sum⟩ := by
  by_cases hnil : s.samples = []
  · obtain ⟨closed, last, hturns, hsamples⟩ := h
    rw [hnil] at hsamples
    obtain ⟨rfl, rfl⟩ := hturns.eq_nil hsamples
    have hbatches : a.closed.toList = [] := List.forall₂_nil_right_iff.mp hturns.closed_fill
    rw [info, batches, hbatches, hnil, List.nil_append, List.map_singleton, hturns.current_fills.info_eq]
    simp [inGroupsOfRuns, inRuns, Info.sum_eq]
  · have hinfo := Window.sum_info_eq (h.windows_fill hnil)
    rw [flatten_inGroupsOfRuns h.pos] at hinfo
    rw [← hinfo, List.map_flatMap, ← Info.sum_map_sum]
    rfl

end Fills

end Telemetry.Adaptive
