import Mathlib.Algebra.GroupWithZero.Nat
import Telemetry.Collector.Batch
import Telemetry.Proofs.Collector.Grouping
import Telemetry.Proofs.Collector.Segment

/-!
# How a batch divides samples

A batch holds full windows and an open one. The samples it was given are the groups in the full windows followed
by those in the open window, and the metadata document is in the first window, whichever that is (`Divides`). A
full window is closed by the sample after it, so the open window is empty only if nothing has been taken at all.

Told from outside, a batch holds samples and a document, like a single window does, and its windows hold the
samples in groups (`Batch.Fills.windows_fill`).
-/

namespace Telemetry

/-! ## Sums of what is held -/

theorem Info.foldl_add (infos : List Info) (start : Info) :
    infos.foldl Info.add start =
      ⟨start.samples + (infos.map Info.samples).sum, start.metrics + (infos.map Info.metrics).sum⟩ := by
  induction infos generalizing start with
  | nil => simp
  | cons i infos ih =>
    rw [List.foldl_cons, ih]
    simp only [Info.add, List.map_cons, List.sum_cons, Nat.add_assoc]

/-- Sums are taken of both counts. -/
theorem Info.sum_eq (infos : List Info) :
    Info.sum infos = ⟨(infos.map Info.samples).sum, (infos.map Info.metrics).sum⟩ := by
  rw [Info.sum, Info.foldl_add]
  simp [Info.zero]

/-- Sums of sums are sums. -/
theorem Info.sum_map_sum {α : Type} (infos : α → List Info) (as : List α) :
    Info.sum (as.map fun a => Info.sum (infos a)) = Info.sum (as.flatMap infos) := by
  induction as with
  | nil => rfl
  | cons a as ih =>
    simp only [Info.sum_eq, Info.mk.injEq] at ih
    simp only [Info.sum_eq, List.map_cons, List.sum_cons, List.flatMap_cons, List.map_append,
      List.sum_append, ih.1, ih.2]

/-- Windows with groups of samples hold as many samples as there are in the groups. -/
theorem Window.sum_info_eq {z : Compression} {windows : List Window} {metadata? : Option Document}
    {groups : List (List Document)}
    (h : List.Forall₂ (Window.Fills z) windows (Segment.ofGroups metadata? groups)) :
    Info.sum (windows.map Window.info) = ⟨groups.flatten.length, (groups.map Segment.metrics).sum⟩ := by
  have hinfo : windows.map Window.info = groups.map fun g => ⟨g.length, Segment.metrics g⟩ := by
    rw [← Segment.samples_ofGroups metadata? groups]
    rw [List.map_map]
    generalize Segment.ofGroups metadata? groups = segments at h
    induction h with
    | nil => rfl
    | cons hfills hmore ih =>
      rw [List.map_cons, List.map_cons, hfills.info_eq, ih]
      rfl
  rw [Info.sum_eq, hinfo, List.map_map, List.map_map, List.length_flatten]
  rfl

namespace Batch

/-- A refused sample leaves the batch as it was: a window that is opened for a sample does not refuse it. -/
theorem eq_of_add_error {b b' : Batch} {sample : Document} {e : Error} (h : b.add sample = (.error e, b')) :
    b' = b := by
  rw [add] at h
  by_cases hfull : b.maxSamples ≤ b.current.info.samples
  · have hroll : b.roll = { b with closed := b.closed.push b.current, current := window b.maxSamples b.compression } :=
      if_pos hfull
    obtain ⟨w, hadd⟩ : ∃ w, (window b.maxSamples b.compression).add sample = (.ok (), w) :=
      Window.exists_add_of_samples_eq_zero (by rfl) sample
    rw [hroll] at h
    simp [hadd] at h
  · have hroll : b.roll = b := if_neg hfull
    rw [hroll] at h
    cases hadd : b.current.add sample with
    | mk result w =>
      simp only [hadd] at h
      obtain ⟨rfl, rfl⟩ := Prod.mk.inj h
      rw [Window.eq_of_add_error hadd]

/-- The groups of samples in the full windows of a batch and the samples in its open window.

A window holds so many samples at most, at least one, and all are compressed alike. The first window holds the
document. The full windows are full; the open window is not empty if it is not the first, and has room for a group. -/
structure Divides (k : Nat) (z : Compression) (b : Batch) (metadata? : Option Document)
    (closed : List (List Document)) (last : List Document) : Prop where
  pos : 0 < k
  maxSamples_eq : b.maxSamples = k
  compression_eq : b.compression = z
  closed_fills : List.Forall₂ (Window.Fills z) b.closed.toList (Segment.ofGroups metadata? closed)
  current_fills : b.current.Fills z ⟨if closed.isEmpty then metadata? else none, last⟩
  closed_full : ∀ g ∈ closed, g.length = k
  last_ne_nil : closed ≠ [] → last ≠ []
  room_eq : b.current.maxDeltas + 1 = k

namespace Divides

variable {k : Nat} {z : Compression} {b : Batch} {metadata? : Option Document} {closed : List (List Document)}
  {last : List Document}

theorem empty (maxSamples : Nat) (z : Compression) :
    Divides (max maxSamples 1) z (.empty maxSamples z) none [] [] where
  pos := by omega
  maxSamples_eq := rfl
  compression_eq := rfl
  closed_fills := .nil
  current_fills := .empty _ _
  closed_full := by simp
  last_ne_nil := by simp
  room_eq := by simp only [Batch.empty, window, Window.empty]; omega

theorem length_last_le (h : b.Divides k z metadata? closed last) : last.length ≤ k := by
  have hlen := h.current_fills.holds.length_le
  rw [h.room_eq] at hlen
  exact hlen

/-- The windows hold the groups, the open one included. -/
theorem windows_fill (h : b.Divides k z metadata? closed last) :
    List.Forall₂ (Window.Fills z) b.windows (Segment.ofGroups metadata? (closed ++ [last])) := by
  rw [Segment.ofGroups_concat]
  exact List.rel_append h.closed_fills (.cons h.current_fills .nil)

/-- If nothing has been taken, there is the open window only. -/
theorem eq_nil (h : b.Divides k z metadata? closed last) (hnil : closed.flatten ++ last = []) :
    closed = [] ∧ last = [] := by
  have hlast := (List.append_eq_nil_iff.mp hnil).2
  refine ⟨?_, hlast⟩
  by_contra hclosed
  exact h.last_ne_nil hclosed hlast

/-- If anything has been taken, the open window is not empty. -/
theorem ne_nil (h : b.Divides k z metadata? closed last) (hne : closed.flatten ++ last ≠ []) :
    last ≠ [] := by
  intro hnil
  by_cases hclosed : closed = []
  · simp [hnil, hclosed] at hne
  · exact h.last_ne_nil hclosed hnil

/-- If anything has been taken, the groups are those of all samples. -/
theorem inGroups_eq (h : b.Divides k z metadata? closed last) (hne : closed.flatten ++ last ≠ []) :
    inGroups k (closed.flatten ++ last) = closed ++ [last] :=
  inGroups_flatten_append h.pos h.closed_full (h.ne_nil hne) h.length_last_le

/-! ### Requests -/

theorem reset (h : b.Divides k z metadata? closed last) : b.reset.Divides k z none [] [] where
  pos := h.pos
  maxSamples_eq := h.maxSamples_eq
  compression_eq := h.compression_eq
  closed_fills := .nil
  current_fills := h.compression_eq ▸ .empty _ _
  closed_full := by simp
  last_ne_nil := by simp
  room_eq := by
    have hpos := h.pos
    simp only [Batch.reset, window, Window.empty, h.maxSamples_eq]
    omega

/-- The document goes to the first window, wherever that is. -/
theorem setMetadata (h : b.Divides k z metadata? closed last) (d : Document) :
    (b.setMetadata d).Divides k z (some d) closed last := by
  have hempty := Segment.isEmpty_holders h.closed_fills
  rw [Batch.setMetadata]
  cases closed with
  | nil =>
    have hclosed : b.closed.isEmpty := hempty
    rw [if_pos hclosed]
    exact { h with
      closed_fills := h.closed_fills
      current_fills := h.current_fills.setMetadata d }
  | cons g closed =>
    have hclosed : ¬ b.closed.isEmpty := by simp [hempty]
    rw [if_neg hclosed]
    exact { h with
      closed_fills := Segment.modify_holders h.closed_fills fun w s hw => hw.setMetadata d
      current_fills := h.current_fills }

/-- What taking a sample can do: it goes to the open window, which may refuse it, or to a new one, which does
not. -/
theorem add_cases (h : b.Divides k z metadata? closed last) (sample : Document) :
    (last.length < k ∧ ∃ w, b.current.add sample = (.ok (), w) ∧
      b.add sample = (.ok (), { b with current := w })) ∨
    (last.length < k ∧ ∃ e, b.current.add sample = (.error e, b.current) ∧ b.add sample = (.error e, b)) ∨
    (last.length = k ∧ ∃ w, (window b.maxSamples b.compression).add sample = (.ok (), w) ∧
      b.add sample = (.ok (), { b with closed := b.closed.push b.current, current := w })) := by
  have hsamples : b.current.info.samples = last.length := h.current_fills.holds.samples_info
  have hle := h.length_last_le
  by_cases hfull : last.length = k
  · refine .inr (.inr ⟨hfull, ?_⟩)
    have hroll : b.roll = { b with closed := b.closed.push b.current, current := window b.maxSamples b.compression } := by
      rw [roll, if_pos (by rw [h.maxSamples_eq, hsamples]; omega)]
    obtain ⟨w, hadd⟩ := (Window.Holds.empty (b.maxSamples - 1) b.compression).exists_add_eq_ok sample
    have hadd : (window b.maxSamples b.compression).add sample = (.ok (), w) := hadd
    exact ⟨w, hadd, by rw [add, hroll]; simp only [hadd]⟩
  · have hroll : b.roll = b := by
      rw [roll, if_neg (by rw [h.maxSamples_eq, hsamples]; omega)]
    cases hadd : b.current.add sample with
    | mk result w =>
      cases result with
      | ok _ => exact .inl ⟨by omega, w, rfl, by rw [add, hroll]; simp only [hadd]⟩
      | error e =>
        obtain rfl := Window.eq_of_add_error hadd
        exact .inr (.inl ⟨by omega, e, rfl, by rw [add, hroll]; simp only [hadd]⟩)

/-- A sample that is taken is the last one in the open window, which may be a new one. -/
theorem added (h : b.Divides k z metadata? closed last) {sample : Document} {b' : Batch}
    (hadd : b.add sample = (.ok (), b')) :
    ∃ closed' last', b'.Divides k z metadata? closed' last' ∧
      closed'.flatten ++ last' = closed.flatten ++ last ++ [sample] := by
  rcases h.add_cases sample with ⟨hlt, w, hw, heq⟩ | ⟨-, e, -, heq⟩ | ⟨hfull, w, hw, heq⟩
  · rw [heq] at hadd
    obtain ⟨-, rfl⟩ := Prod.mk.inj hadd
    have hdeltas := (Window.frame_add sample b.current).1
    rw [hw] at hdeltas
    refine ⟨closed, last ++ [sample], ?_, by simp⟩
    exact { h with
      current_fills := h.current_fills.added hw
      last_ne_nil := by simp
      room_eq := by rw [hdeltas]; exact h.room_eq }
  · simp [heq] at hadd
  · rw [heq] at hadd
    obtain ⟨-, rfl⟩ := Prod.mk.inj hadd
    have hdeltas := (Window.frame_add sample (window b.maxSamples b.compression)).1
    rw [hw] at hdeltas
    have hfills := (Window.Fills.empty (b.maxSamples - 1) b.compression).added hw
    rw [h.compression_eq] at hfills
    -- a full window holds at least one sample, so the group that it closes is not empty
    have hne : last ≠ [] := by
      rintro rfl
      have hpos := h.pos
      simp at hfull
      omega
    refine ⟨closed ++ [last], [sample], ?_, by simp⟩
    exact { h with
      closed_fills := by
        rw [Array.toList_push]
        exact h.windows_fill
      current_fills := by simpa using hfills
      closed_full := by
        intro g hg
        rcases List.mem_append.mp hg with hg | hg
        · exact h.closed_full g hg
        · rw [List.mem_singleton.mp hg, hfull]
      last_ne_nil := by simp
      room_eq := by
        have hpos := h.pos
        rw [hdeltas]
        simp only [window, Window.empty, h.maxSamples_eq]
        omega }

end Divides

/-- Every window of a batch that resolves does so itself. -/
theorem exists_resolve_of_mem {b : Batch} {bytes : Bytes} (h : b.resolve = .ok bytes) :
    ∀ w ∈ b.windows, ∃ piece, w.resolve = .ok piece :=
  exists_of_map_mapM_eq_ok h

theorem exists_resolve_current {b : Batch} {bytes : Bytes} (h : b.resolve = .ok bytes) :
    ∃ piece, b.current.resolve = .ok piece :=
  exists_resolve_of_mem h _ (by simp [windows])

/-! ## A batch from outside -/

/-- A batch holds the samples of a segment and has its metadata document. -/
def Fills (k : Nat) (z : Compression) (b : Batch) (s : Segment) : Prop :=
  ∃ closed last, b.Divides k z s.metadata? closed last ∧ closed.flatten ++ last = s.samples

namespace Fills

variable {k : Nat} {z : Compression} {b : Batch} {s : Segment}

theorem empty (maxSamples : Nat) (z : Compression) :
    Fills (max maxSamples 1) z (.empty maxSamples z) ⟨none, []⟩ :=
  ⟨[], [], .empty maxSamples z, rfl⟩

theorem reset (h : b.Fills k z s) : b.reset.Fills k z ⟨none, []⟩ := by
  obtain ⟨closed, last, hdivides, -⟩ := h
  exact ⟨[], [], hdivides.reset, rfl⟩

theorem setMetadata (h : b.Fills k z s) (d : Document) :
    (b.setMetadata d).Fills k z ⟨some d, s.samples⟩ := by
  obtain ⟨closed, last, hdivides, hsamples⟩ := h
  exact ⟨closed, last, hdivides.setMetadata d, hsamples⟩

/-- A sample that is taken is the last one held. -/
theorem added (h : b.Fills k z s) {sample : Document} {b' : Batch}
    (hadd : b.add sample = (.ok (), b')) : b'.Fills k z ⟨s.metadata?, s.samples ++ [sample]⟩ := by
  obtain ⟨closed, last, hdivides, hsamples⟩ := h
  obtain ⟨closed', last', hdivides', hsamples'⟩ := hdivides.added hadd
  exact ⟨closed', last', hdivides', by rw [hsamples', hsamples]⟩

/-- A batch without samples takes any sample. -/
theorem exists_add_eq_ok (h : b.Fills k z s) (hnil : s.samples = []) (sample : Document) :
    ∃ b', b.add sample = (.ok (), b') := by
  obtain ⟨closed, last, hdivides, hsamples⟩ := h
  rw [hnil] at hsamples
  obtain ⟨rfl, rfl⟩ := hdivides.eq_nil hsamples
  rcases hdivides.add_cases sample with ⟨-, w, -, heq⟩ | ⟨-, e, herror, -⟩ | ⟨-, w, -, heq⟩
  · exact ⟨_, heq⟩
  · obtain ⟨w, hadd⟩ := Window.Holds.exists_add_eq_ok hdivides.current_fills.holds sample
    simp [hadd] at herror
  · exact ⟨_, heq⟩

/-- A batch takes a sample with metrics of the types of those it holds. -/
theorem exists_add_of_types (h : b.Fills k z s) {sample : Document}
    (htypes : ∀ d ∈ s.samples, Document.types sample = Document.types d) : ∃ b', b.add sample = (.ok (), b') := by
  obtain ⟨closed, last, hdivides, hsamples⟩ := h
  rw [← hsamples] at htypes
  rcases hdivides.add_cases sample with ⟨-, w, -, heq⟩ | ⟨hlt, e, herror, -⟩ | ⟨-, w, -, heq⟩
  · exact ⟨_, heq⟩
  · have hroom := hdivides.room_eq
    have hle : last.length ≤ b.current.maxDeltas := by omega
    obtain ⟨w, hadd⟩ := hdivides.current_fills.holds.exists_add_of_types hle fun d hd =>
      htypes d (List.mem_append_right _ hd)
    simp [hadd] at herror
  · exact ⟨_, heq⟩

/-- The open window of a batch that holds samples holds one of them. -/
theorem current_ne (h : b.Fills k z s) (hne : s.samples ≠ []) : b.current.info.samples ≠ 0 := by
  obtain ⟨closed, last, hdivides, hsamples⟩ := h
  rw [← hsamples] at hne
  have hinfo : b.current.info.samples = last.length := hdivides.current_fills.holds.samples_info
  rw [hinfo]
  exact List.length_eq_zero_iff.not.mpr (hdivides.ne_nil hne)

/-- A batch without samples has an open window only, which holds none. -/
theorem eq_nil (h : b.Fills k z s) (hnil : s.samples = []) :
    b.closed.toList = [] ∧ b.current.info.samples = 0 := by
  obtain ⟨closed, last, hdivides, hsamples⟩ := h
  rw [hnil] at hsamples
  obtain ⟨rfl, rfl⟩ := hdivides.eq_nil hsamples
  exact ⟨List.forall₂_nil_right_iff.mp hdivides.closed_fills, hdivides.current_fills.holds.samples_info⟩

/-- The windows of a batch that holds samples hold them in groups. -/
theorem windows_fill (h : b.Fills k z s) (hne : s.samples ≠ []) :
    List.Forall₂ (Window.Fills z) b.windows (Segment.ofGroups s.metadata? (inGroups k s.samples)) := by
  obtain ⟨closed, last, hdivides, hsamples⟩ := h
  rw [← hsamples] at hne ⊢
  rw [hdivides.inGroups_eq hne]
  exact hdivides.windows_fill

/-- A batch without samples has nothing to give. -/
theorem resolve_nil (h : b.Fills k z s) (hnil : s.samples = []) : b.resolve = .error .noReference := by
  obtain ⟨closed, last, hdivides, hsamples⟩ := h
  rw [hnil] at hsamples
  obtain ⟨rfl, rfl⟩ := hdivides.eq_nil hsamples
  have hwindows : b.closed.toList = [] := List.forall₂_nil_right_iff.mp hdivides.closed_fills
  rw [resolve, windows, hwindows, List.nil_append, List.mapM_cons,
    hdivides.current_fills.resolve_nil rfl]
  rfl

/-- A batch tells how many samples it holds, and how many metrics their chunks have. -/
theorem info_eq (h : b.Fills k z s) :
    b.info = ⟨s.samples.length, ((inGroups k s.samples).map Segment.metrics).sum⟩ := by
  obtain ⟨closed, last, hdivides, hsamples⟩ := h
  have hinfo : b.info = _ := Window.sum_info_eq hdivides.windows_fill
  rw [List.flatten_concat] at hinfo
  rw [hinfo, ← hsamples]
  by_cases hne : closed.flatten ++ last = []
  · obtain ⟨rfl, rfl⟩ := hdivides.eq_nil hne
    simp [Segment.metrics]
  · rw [hdivides.inGroups_eq hne]

/-- A batch gives the segments of its windows, unless a length does not fit. -/
theorem resolve_eq (h : b.Fills k z s) (hne : s.samples ≠ [])
    (hw : ∀ s' ∈ Segment.ofGroups s.metadata? (inGroups k s.samples), s'.Writable) :
    b.resolve = .ok ((Segment.ofGroups s.metadata? (inGroups k s.samples)).map (·.bytes z)).flatten := by
  have hfill := h.windows_fill hne
  rw [resolve, Window.mapM_resolve_eq hfill
    (fun s' hs' => ne_nil_of_mem_inGroups (Segment.mem_of_mem_ofGroups hs')) hw]
  rfl

theorem exists_resolve (h : b.Fills k z s)
    (hw : ∀ s' ∈ Segment.ofGroups s.metadata? (inGroups k s.samples), s'.Writable) :
    s.samples ≠ [] → ∃ bytes, b.resolve = .ok bytes := by
  intro hne
  exact ⟨_, h.resolve_eq hne hw⟩

end Fills

/-! ## Several batches -/

section Several

variable {k : Nat} {z : Compression} {batches : List Batch} {segments : List Segment}

/-- The windows of batches hold the groups of each batch, one batch after the other. -/
theorem flatMap_windows_fill (h : List.Forall₂ (Fills k z) batches segments)
    (hne : ∀ s ∈ segments, s.samples ≠ []) :
    List.Forall₂ (Window.Fills z) (batches.flatMap windows)
      (segments.flatMap fun s => Segment.ofGroups s.metadata? (inGroups k s.samples)) := by
  induction h with
  | nil => exact .nil
  | @cons b s batches segments hb hmore ih =>
    exact List.rel_append (hb.windows_fill (hne s (by simp))) (ih fun s' hs' => hne s' (by simp [hs']))

/-- Batches leave the segments of their windows one after the other. -/
theorem mapM_resolve_eq (h : List.Forall₂ (Fills k z) batches segments)
    (hne : ∀ s ∈ segments, s.samples ≠ [])
    (hw : ∀ s ∈ segments.flatMap fun s => Segment.ofGroups s.metadata? (inGroups k s.samples), s.Writable) :
    batches.mapM resolve = .ok (segments.map fun s =>
      ((Segment.ofGroups s.metadata? (inGroups k s.samples)).map (·.bytes z)).flatten) := by
  rw [mapM_eq_ok_iff, List.forall₂_map_right_iff]
  induction h with
  | nil => exact .nil
  | @cons b s batches segments hb hmore ih =>
    rw [List.flatMap_cons] at hw
    refine .cons (hb.resolve_eq (hne s (by simp)) ?_) (ih ?_ ?_)
    · exact fun s' hs' => hw s' (List.mem_append_left _ hs')
    · exact fun s' hs' => hne s' (by simp [hs'])
    · exact fun s' hs' => hw s' (List.mem_append_right _ hs')

end Several

end Batch

end Telemetry
