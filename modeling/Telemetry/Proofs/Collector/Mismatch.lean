import Telemetry.Proofs.Collector.Offers
import Telemetry.Proofs.Fingerprint
import Telemetry.Zlib.Stored

/-!
# Exactly when a sample is refused

A chunk refuses a sample for the types of its metrics, and for nothing else: it is asked only while there is room. So a
batch refuses a sample exactly if its open chunk is neither empty nor full, and the types are not those of the first
sample in it. An adaptive collector refuses one only if, besides, it has the fingerprint of the last sample taken; then
it has as many metrics, so what is wrong is a type (`Collector.refuses_mismatches`). That does not depend on digests
being different for different schemas, because a fingerprint has the number of metrics in it.

## Shape of the proof

What a window reports is told by the samples it holds (`Window.Holds.add_eq_error_iff`). Which of these are in the open
window is told by all samples and the size of a chunk: they are the last of the groups that the samples are cut into
(`lastGroup`).
-/

namespace Telemetry

/-! ## Types that are not the same -/

/-- Types are the same up to a position, and different there. -/
structure DiffersAt (index : Nat) (current previous : List MetricType) (a b : MetricType) : Prop where
  take_eq : current.take index = previous.take index
  current_eq : current[index]? = some a
  previous_eq : previous[index]? = some b
  ne : a ≠ b

/-- What is reported when metrics have other types than those in a chunk of `held` samples: that there are not as many
of them, or the first position at which their types differ. -/
inductive Mismatch (held : Nat) (current previous : List MetricType) : Error → Prop
  | count (hlength : current.length ≠ previous.length) :
    Mismatch held current previous (.schemaMismatch held current.length previous.length)
  | type {index : Nat} {a b : MetricType} (hlength : current.length = previous.length)
    (h : DiffersAt index current previous a b) : Mismatch held current previous (.typeMismatch index a b)

namespace DiffersAt

variable {a b c d : MetricType} {current previous : List MetricType}

theorem zero_iff : DiffersAt 0 (c :: current) (d :: previous) a b ↔ c ≠ d ∧ c = a ∧ d = b := by
  constructor
  · rintro ⟨-, hc, hd, hne⟩
    obtain rfl := Option.some.inj hc
    obtain rfl := Option.some.inj hd
    exact ⟨hne, rfl, rfl⟩
  · rintro ⟨hne, rfl, rfl⟩
    exact ⟨rfl, rfl, rfl, hne⟩

theorem succ_iff {index : Nat} :
    DiffersAt (index + 1) (c :: current) (d :: previous) a b ↔ c = d ∧ DiffersAt index current previous a b := by
  constructor
  · rintro ⟨htake, hcurrent, hprevious, hne⟩
    obtain ⟨rfl, hmore⟩ := List.cons.inj htake
    exact ⟨rfl, hmore, hcurrent, hprevious, hne⟩
  · rintro ⟨rfl, htake, hcurrent, hprevious, hne⟩
    exact ⟨congrArg (c :: ·) htake, hcurrent, hprevious, hne⟩

/-- Types that are not the same differ somewhere for the first time. -/
theorem exists_of_ne (hlength : current.length = previous.length) (hne : current ≠ previous) :
    ∃ index a b, DiffersAt index current previous a b := by
  induction current generalizing previous with
  | nil => exact absurd (List.length_eq_zero_iff.mp hlength.symm).symm hne
  | cons c current ih =>
    cases previous with
    | nil => simp at hlength
    | cons d previous =>
      by_cases hhead : c = d
      · subst hhead
        obtain ⟨index, a, b, h⟩ := ih (by simpa using hlength) fun heq => hne (congrArg _ heq)
        exact ⟨index + 1, a, b, succ_iff.mpr ⟨rfl, h⟩⟩
      · exact ⟨0, c, d, zero_iff.mpr ⟨hhead, rfl, rfl⟩⟩

end DiffersAt

/-- Something is reported exactly if the types are not the same. -/
theorem Mismatch.exists_iff {held : Nat} {current previous : List MetricType} :
    (∃ e, Mismatch held current previous e) ↔ current ≠ previous := by
  constructor
  · rintro ⟨e, hlength | ⟨hlength, h⟩⟩ rfl
    · exact hlength rfl
    · exact h.ne (Option.some.inj (h.current_eq.symm.trans h.previous_eq))
  · intro hne
    by_cases hlength : current.length = previous.length
    · obtain ⟨index, a, b, h⟩ := DiffersAt.exists_of_ne hlength hne
      exact ⟨_, .type hlength h⟩
    · exact ⟨_, .count hlength⟩

/-! ## What a window reports -/

namespace Window

/-- A change of types is found where it first is. -/
theorem typeChange?_eq_some_iff {start position : Nat} {a b : MetricType} {current previous : List Reading} :
    typeChange? start current previous = some (position, a, b) ↔
      ∃ index, start + index = position ∧
        DiffersAt index (current.map Reading.type) (previous.map Reading.type) a b := by
  induction current generalizing start previous with
  | nil =>
    constructor
    · intro h
      simp [typeChange?] at h
    · rintro ⟨index, -, h⟩
      exact absurd h.current_eq (by simp)
  | cons c current ih =>
    cases previous with
    | nil =>
      constructor
      · intro h
        simp [typeChange?] at h
      · rintro ⟨index, -, h⟩
        exact absurd h.previous_eq (by simp)
    | cons d previous =>
      rw [typeChange?, List.map_cons, List.map_cons]
      by_cases hhead : c.type = d.type
      · rw [if_pos hhead, ih]
        constructor
        · rintro ⟨index, rfl, h⟩
          exact ⟨index + 1, by omega, DiffersAt.succ_iff.mpr ⟨hhead, h⟩⟩
        · rintro ⟨_ | index, rfl, h⟩
          · exact absurd hhead (DiffersAt.zero_iff.mp h).1
          · exact ⟨index, by omega, (DiffersAt.succ_iff.mp h).2⟩
      · rw [if_neg hhead]
        constructor
        · intro h
          obtain ⟨rfl, htypes⟩ := Prod.mk.inj (Option.some.inj h)
          exact ⟨0, rfl, DiffersAt.zero_iff.mpr ⟨hhead, Prod.mk.inj htypes⟩⟩
        · rintro ⟨_ | index, rfl, h⟩
          · obtain ⟨-, rfl, rfl⟩ := DiffersAt.zero_iff.mp h
            rfl
          · exact absurd (DiffersAt.succ_iff.mp h).1 hhead

/-- What is wrong with readings is told by their types. -/
theorem schemaError?_eq_some_iff {w : Window} {current : List Reading} {e : Error} :
    w.schemaError? current = some e ↔
      Mismatch (w.count + 1) (current.map Reading.type) (w.last.map Reading.type) e := by
  have hcurrent : (current.map Reading.type).length = current.length := List.length_map _
  have hlast : (w.last.map Reading.type).length = w.last.length := List.length_map _
  rw [schemaError?]
  by_cases hlength : current.length = w.last.length
  · rw [if_neg (not_not.mpr hlength), Option.map_eq_some_iff]
    constructor
    · rintro ⟨⟨position, a, b⟩, hchange, rfl⟩
      obtain ⟨index, rfl, h⟩ := typeChange?_eq_some_iff.mp hchange
      rw [Nat.zero_add]
      exact .type (by omega) h
    · rintro (hcount | ⟨-, h⟩)
      · exact absurd (by omega) hcount
      · exact ⟨_, typeChange?_eq_some_iff.mpr ⟨_, Nat.zero_add _, h⟩, rfl⟩
  · rw [if_pos hlength]
    constructor
    · intro h
      obtain rfl := Option.some.inj h
      rw [← hcurrent, ← hlast]
      exact .count (by omega)
    · rintro (hcount | ⟨htypes, -⟩)
      · rw [hcurrent, hlast]
      · omega

/-- A window with room for a sample refuses it exactly if its metrics have other types than those of the first sample
held. -/
theorem Holds.add_eq_error_iff {w : Window} {samples : List Document} (h : w.Holds samples)
    (hroom : samples.length ≤ w.maxDeltas) {sample : Document} {e : Error} :
    (w.add sample).1 = .error e ↔
      ∃ first ∈ samples.head?, Mismatch samples.length sample.types first.types e := by
  cases samples with
  | nil =>
    obtain ⟨w', hadd⟩ := h.exists_add_eq_ok sample
    simp [hadd]
  | cons first rest =>
    have hcarries : w.Carries first rest := h
    have hfull : ¬ w.maxDeltas ≤ w.count := by
      rw [hcarries.count_eq]
      simp only [List.length_cons] at hroom
      omega
    have hadd : (w.add sample).1 = .error e ↔ w.schemaError? (Document.readings sample) = some e := by
      simp only [Window.add, hcarries.reference_eq, if_neg hfull]
      cases w.schemaError? (Document.readings sample) <;> simp
    rw [hadd, schemaError?_eq_some_iff, hcarries.types_last, hcarries.count_eq, List.head?_cons]
    simp [Document.types]

end Window

/-! ## The open chunk -/

/-- The samples of the open chunk, when samples have been cut into groups: those of the last group. -/
def lastGroup (groups : List (List Document)) : List Document :=
  groups.getLastD []

theorem lastGroup_concat (front : List (List Document)) (g : List Document) : lastGroup (front ++ [g]) = g :=
  List.getLastD_concat ..

theorem dropLast_concat_lastGroup {groups : List (List Document)} (hne : groups ≠ []) :
    groups.dropLast ++ [lastGroup groups] = groups := by
  rw [lastGroup, List.getLastD_eq_getLast?, List.getLast?_eq_getLast_of_ne_nil hne]
  exact List.dropLast_append_getLast hne

/-- The open chunk is not told by what has been cut before. -/
theorem lastGroup_append {groups : List (List Document)} (hne : groups ≠ []) (front : List (List Document)) :
    lastGroup (front ++ groups) = lastGroup groups := by
  rw [← dropLast_concat_lastGroup hne, ← List.append_assoc, lastGroup_concat, lastGroup_concat]

/-- There is a first sample in the open chunk only if it is one of the groups. -/
theorem lastGroup_mem {groups : List (List Document)} {first : Document} (h : first ∈ (lastGroup groups).head?) :
    lastGroup groups ∈ groups := by
  have hne : groups ≠ [] := by
    rintro rfl
    exact absurd h (by simp [lastGroup])
  rw [← dropLast_concat_lastGroup hne, lastGroup_concat]
  simp

/-- The last sample is in the open chunk. -/
theorem getLast?_lastGroup {groups : List (List Document)} (hne : ∀ g ∈ groups, g ≠ []) :
    (lastGroup groups).getLast? = groups.flatten.getLast? := by
  rcases List.eq_nil_or_concat groups with rfl | ⟨front, g, rfl⟩
  · rfl
  · rw [List.concat_eq_append] at hne ⊢
    rw [lastGroup_concat, List.flatten_concat, List.getLast?_append_of_ne_nil _ (hne g (by simp))]

theorem length_lastGroup_le (k : Nat) (samples : List Document) : (lastGroup (inGroups k samples)).length ≤ k := by
  by_cases hnil : inGroups k samples = []
  · rw [hnil]
    exact Nat.zero_le k
  · apply length_le_of_mem_inGroups
    rw [← dropLast_concat_lastGroup hnil, lastGroup_concat]
    simp

/-- The open chunk of a number of samples is empty or full exactly if the number is a multiple of the size. -/
theorem dvd_length_iff {k : Nat} (hk : 0 < k) (samples : List Document) :
    k ∣ samples.length ↔
      (lastGroup (inGroups k samples)).length = 0 ∨ (lastGroup (inGroups k samples)).length = k := by
  by_cases hnil : samples = []
  · rw [hnil, inGroups_nil]
    simp [lastGroup]
  · have hconcat := dropLast_concat_lastGroup ((inGroups_eq_nil_iff hk).not.mpr hnil)
    have hfull : ∀ g ∈ (inGroups k samples).dropLast, g.length = k := fun g => length_of_mem_dropLast_inGroups
    have hlength : samples.length =
        (inGroups k samples).dropLast.length * k + (lastGroup (inGroups k samples)).length := by
      conv_lhs => rw [← flatten_inGroups hk samples, ← hconcat]
      rw [List.flatten_concat, List.length_append, List.length_flatten, List.map_congr_left hfull, List.map_const',
        List.sum_replicate_nat]
    have hle := length_lastGroup_le k samples
    rw [hlength, Nat.dvd_add_right (Nat.dvd_mul_left k _)]
    constructor
    · intro hdvd
      rcases Nat.eq_zero_or_pos (lastGroup (inGroups k samples)).length with hzero | hpos
      · exact .inl hzero
      · exact .inr (Nat.le_antisymm hle (Nat.le_of_dvd hpos hdvd))
    · rintro (hzero | heq)
      · rw [hzero]
        exact Nat.dvd_zero k
      · rw [heq]

/-! ## Batches -/

namespace Batch

variable {k : Nat} {z : Compression} {b : Batch} {s : Segment}

/-- The open window holds the last group of samples. -/
theorem Divides.lastGroup_eq {metadata? : Option Document} {closed : List (List Document)} {last : List Document}
    (h : b.Divides k z metadata? closed last) : lastGroup (inGroups k (closed.flatten ++ last)) = last := by
  by_cases hnil : closed.flatten ++ last = []
  · obtain ⟨rfl, rfl⟩ := h.eq_nil hnil
    rw [List.flatten_nil, List.nil_append, inGroups_nil]
    rfl
  · rw [h.inGroups_eq hnil, lastGroup_concat]

/-- A sample is refused exactly if the open window refuses it while there is room. -/
theorem Divides.add_eq_error_iff {metadata? : Option Document} {closed : List (List Document)} {last : List Document}
    (h : b.Divides k z metadata? closed last) {sample : Document} {e : Error} :
    (b.add sample).1 = .error e ↔
      last.length < k ∧ ∃ first ∈ last.head?, Mismatch last.length sample.types first.types e := by
  have hroom := h.room_eq
  have hholds : b.current.Holds last := h.current_fills.holds
  have hwindow : last.length < k → ((b.current.add sample).1 = .error e ↔
      ∃ first ∈ last.head?, Mismatch last.length sample.types first.types e) := fun hlt =>
    hholds.add_eq_error_iff (by omega)
  rcases h.add_cases sample with ⟨hlt, w, hw, hadd⟩ | ⟨hlt, e', hw, hadd⟩ | ⟨hfull, w, -, hadd⟩
  · rw [← hwindow hlt, hw, hadd]
    simp
  · rw [← hwindow hlt, hw, hadd]
    simp [hlt]
  · rw [hadd]
    simp [hfull]

namespace Fills

theorem holds_lastGroup (h : b.Fills k z s) : b.current.Holds (lastGroup (inGroups k s.samples)) := by
  obtain ⟨closed, last, hdivides, hsamples⟩ := h
  rw [← hsamples, hdivides.lastGroup_eq]
  exact hdivides.current_fills.holds

theorem add_eq_error_iff (h : b.Fills k z s) {sample : Document} {e : Error} :
    (b.add sample).1 = .error e ↔ (lastGroup (inGroups k s.samples)).length < k ∧
      ∃ first ∈ (lastGroup (inGroups k s.samples)).head?,
        Mismatch (lastGroup (inGroups k s.samples)).length sample.types first.types e := by
  obtain ⟨closed, last, hdivides, hsamples⟩ := h
  rw [← hsamples, hdivides.lastGroup_eq]
  exact hdivides.add_eq_error_iff

theorem pos (h : b.Fills k z s) : 0 < k := by
  obtain ⟨closed, last, hdivides, -⟩ := h
  exact hdivides.pos

end Fills

/-- What a batch refuses, and why, when it has accepted samples, the last group of which is in the open chunk.

A sample is refused exactly if the number of samples is not a multiple of the size, and the types are not those of the
first sample in the open chunk. It is said how the types differ. -/
structure RefusesExactly (k : Nat) (b : Batch) (accepted : List Document) : Prop where
  holds : b.current.Holds (lastGroup (inGroups k accepted))
  refused_iff : ∀ sample, (∃ e, (b.add sample).1 = .error e) ↔ ¬ k ∣ accepted.length ∧
    ∃ first ∈ (lastGroup (inGroups k accepted)).head?, sample.types ≠ first.types
  mismatch : ∀ sample e, (b.add sample).1 = .error e → ∃ first ∈ (lastGroup (inGroups k accepted)).head?,
    Mismatch (lastGroup (inGroups k accepted)).length sample.types first.types e

theorem Fills.refusesExactly (h : b.Fills k z s) : b.RefusesExactly k s.samples where
  holds := h.holds_lastGroup
  refused_iff sample := by
    have hroom := length_lastGroup_le k s.samples
    simp only [h.add_eq_error_iff]
    rw [dvd_length_iff h.pos]
    constructor
    · rintro ⟨e, hlt, first, hfirst, hmismatch⟩
      have hpos := List.length_pos_of_mem (List.mem_of_mem_head? hfirst)
      exact ⟨by omega, first, hfirst, Mismatch.exists_iff.mp ⟨e, hmismatch⟩⟩
    · rintro ⟨hnot, first, hfirst, hne⟩
      obtain ⟨e, hmismatch⟩ := Mismatch.exists_iff.mpr hne
      exact ⟨e, by omega, first, hfirst, hmismatch⟩
  mismatch sample e hadd := (h.add_eq_error_iff.mp hadd).2

end Batch

/-! ## Adaptive collectors -/

namespace Adaptive

variable {k : Nat} {z : Compression} {a : Adaptive} {s : Segment}

/-- A sample is refused exactly if it has the fingerprint of the last one, and the current batch refuses it. -/
theorem Turns.add_eq_error_iff {metadata? : Option Document} {closed : List (List Document)} {last : List Document}
    (h : a.Turns k z metadata? closed last) {sample : Document} {e : Error} :
    (a.add sample).1 = .error e ↔
      (∀ d ∈ last.getLast?, d.fingerprint = sample.fingerprint) ∧ (a.current.add sample).1 = .error e := by
  rcases h.add_cases sample with ⟨-, b, hb, hadd⟩ | ⟨hsame, e', hb, hadd⟩ | ⟨d, hlast, hd, b, -, hadd⟩
  · rw [hadd, hb]
    simp
  · rw [hadd, hb]
    exact ⟨fun heq => ⟨hsame, heq⟩, fun heq => heq.2⟩
  · rw [hadd]
    constructor
    · intro heq
      simp at heq
    · rintro ⟨hsame, -⟩
      exact absurd (hsame d hlast) hd

/-- The open chunk is that of the last run. -/
theorem Turns.lastGroup_eq {metadata? : Option Document} {closed : List (List Document)} {last : List Document}
    (h : a.Turns k z metadata? closed last) :
    lastGroup (inGroupsOfRuns k (closed.flatten ++ last)) = lastGroup (inGroups k last) := by
  by_cases hlast : last = []
  · obtain rfl : closed = [] := by
      by_contra hclosed
      exact h.last_ne_nil hclosed hlast
    rw [hlast, inGroups_nil]
    rfl
  · have hk : 0 < k := by
      have hmax := h.maxSamples_eq
      omega
    rw [inGroupsOfRuns, h.runs_eq hlast, List.flatMap_append, List.flatMap_singleton,
      lastGroup_append ((inGroups_eq_nil_iff hk).not.mpr hlast)]

/-- What an adaptive collector refuses, and why, when it has accepted samples, the last group of whose last run is in
the open chunk.

A sample is refused exactly if it has the fingerprint of the last one, there is room in the open chunk, and the types
are not those of the first sample in it. It is said at which position the types first differ. -/
structure RefusesExactly (k : Nat) (a : Adaptive) (accepted : List Document) : Prop where
  holds : a.current.current.Holds (lastGroup (inGroupsOfRuns k accepted))
  refused_iff : ∀ sample, (∃ e, (a.add sample).1 = .error e) ↔
    (∃ last ∈ accepted.getLast?, last.fingerprint = sample.fingerprint) ∧
    (lastGroup (inGroupsOfRuns k accepted)).length < k ∧
    ∃ first ∈ (lastGroup (inGroupsOfRuns k accepted)).head?, sample.types ≠ first.types
  mismatch : ∀ sample e, (a.add sample).1 = .error e → ∃ first ∈ (lastGroup (inGroupsOfRuns k accepted)).head?,
    ∃ index current previous, DiffersAt index sample.types first.types current previous ∧
      e = .typeMismatch index current previous

namespace Fills

theorem holds_lastGroup (h : a.Fills k z s) :
    a.current.current.Holds (lastGroup (inGroupsOfRuns k s.samples)) := by
  obtain ⟨closed, last, hturns, hsamples⟩ := h
  rw [← hsamples, hturns.lastGroup_eq]
  exact hturns.current_fills.holds_lastGroup

theorem add_eq_error_iff (h : a.Fills k z s) {sample : Document} {e : Error} :
    (a.add sample).1 = .error e ↔ (∃ last ∈ s.samples.getLast?, last.fingerprint = sample.fingerprint) ∧
      (lastGroup (inGroupsOfRuns k s.samples)).length < k ∧
      ∃ first ∈ (lastGroup (inGroupsOfRuns k s.samples)).head?,
        Mismatch (lastGroup (inGroupsOfRuns k s.samples)).length sample.types first.types e := by
  obtain ⟨closed, last, hturns, hsamples⟩ := h
  have hbatch : a.current.Fills k z ⟨_, last⟩ := hturns.current_fills
  rw [← hsamples, hturns.lastGroup_eq, hturns.add_eq_error_iff, hbatch.add_eq_error_iff]
  refine and_congr_left fun ⟨_, first, hfirst, _⟩ => ?_
  -- there is a last sample, because there is a first one in the open chunk
  have hne : last ≠ [] := by
    rintro rfl
    rw [inGroups_nil] at hfirst
    exact absurd hfirst (by simp [lastGroup])
  rw [List.getLast?_append_of_ne_nil _ hne, List.getLast?_eq_getLast_of_ne_nil hne]
  simp

/-- All samples in the open chunk have as many metrics as the last one. -/
theorem length_types_eq (h : a.Fills k z s) {first last : Document}
    (hfirst : first ∈ (lastGroup (inGroupsOfRuns k s.samples)).head?) (hlast : last ∈ s.samples.getLast?) :
    first.types.length = last.types.length := by
  rw [← flatten_inGroupsOfRuns h.pos s.samples,
    ← getLast?_lastGroup fun g hg => ne_nil_of_mem_inGroupsOfRuns hg] at hlast
  have hfingerprint := fingerprint_eq_of_mem_inGroupsOfRuns (lastGroup_mem hfirst) first
    (List.mem_of_mem_head? hfirst) last (List.mem_of_mem_getLast? hlast)
  rw [← first.count_fingerprint, ← last.count_fingerprint, hfingerprint]

theorem refusesExactly (h : a.Fills k z s) : a.RefusesExactly k s.samples where
  holds := h.holds_lastGroup
  refused_iff sample := by
    simp only [h.add_eq_error_iff]
    constructor
    · rintro ⟨e, hlast, hlt, first, hfirst, hmismatch⟩
      exact ⟨hlast, hlt, first, hfirst, Mismatch.exists_iff.mp ⟨e, hmismatch⟩⟩
    · rintro ⟨hlast, hlt, first, hfirst, hne⟩
      obtain ⟨e, hmismatch⟩ := Mismatch.exists_iff.mpr hne
      exact ⟨e, hlast, hlt, first, hfirst, hmismatch⟩
  mismatch sample e hadd := by
    obtain ⟨⟨last, hlast, hsame⟩, -, first, hfirst, hmismatch⟩ := h.add_eq_error_iff.mp hadd
    refine ⟨first, hfirst, ?_⟩
    cases hmismatch with
    | count hlength =>
      rw [h.length_types_eq hfirst hlast, ← last.count_fingerprint, hsame, sample.count_fingerprint] at hlength
      exact absurd rfl hlength
    | type hlength hdiffers => exact ⟨_, _, _, hdiffers, rfl⟩

end Fills

end Adaptive

/-! ## After any requests -/

namespace Collector

/-- The error that is in an answer. -/
def Answer.error? : Answer → Option Error
  | .added (.error e) => some e
  | .resolved (.error e) => some e
  | _ => none

theorem Answer.mem_error?_added {result : Except Error Unit} {e : Error} :
    e ∈ (Answer.added result).error? ↔ result = .error e := by
  cases result <;> simp [error?]

theorem Answer.mem_error?_resolved {result : Except Error Bytes} {e : Error} :
    e ∈ (Answer.resolved result).error? ↔ result = .error e := by
  cases result <;> simp [error?]

/-- What is true of the errors of a collector in a state that requests preserve is true of all errors that it ever
answers with. -/
theorem Tracks.errors {σ : Type} [Collector σ] {P : σ → Ledger → Prop} (h : Tracks P) {Q : Error → Prop}
    (hadd : ∀ {c l}, P c l → ∀ sample e, (add sample c).1 = .error e → Q e)
    (hresolve : ∀ {c l}, P c l → ∀ e, (resolve c).1 = .error e → Q e) {c : σ} {l : Ledger} (hc : P c l)
    (requests : List Request) : ∀ answer ∈ Collector.answers c requests, ∀ e ∈ answer.error?, Q e := by
  refine h.answers (fun {c l} hc r e he => ?_) hc requests
  cases r with
  | add sample => exact hadd hc sample e (Answer.mem_error?_added.mp he)
  | resolve => exact hresolve hc e (Answer.mem_error?_resolved.mp he)
  | _ => simp [Collector.serve, Answer.error?] at he

/-- What keeps samples from being given back is that there are none, or a length, and nothing that a sample is refused
for. -/
theorem Filling.ne_of_resolve {σ : Type} [Collector σ] {P : σ → Segment → Prop} (h : Filling P)
    (hnil : ∀ {c s}, P c s → s.samples = [] → (resolve c).1 = .error .noReference) {c : σ} {s : Segment} (hc : P c s)
    {e : Error} (he : (resolve c).1 = .error e) :
    (∀ max, e ≠ .overfull max) ∧ ∀ held current previous, e ≠ .schemaMismatch held current previous := by
  by_cases hempty : s.samples = []
  · obtain rfl : e = .noReference := Except.error.inj (he.symm.trans (hnil hc hempty))
    simp
  · have hoversize := h.isOversize hc hempty he
    refine ⟨fun max => ?_, fun held current previous => ?_⟩ <;> rintro rfl <;> simp [Error.isOversize] at hoversize

/-- After any requests, a batch refuses a sample exactly if its open chunk is neither empty nor full and the types of
the metrics are not those of the first sample in it; and an adaptive collector exactly if the sample has the
fingerprint of the last one, there is room in the open chunk, and the types are not those of the first sample in it.
A batch says that the number of metrics differs, or else at which position the types first do; an adaptive collector
always says the latter, whichever schemas have one digest. Neither is ever asked for more than it has room for. -/
theorem refuses_mismatches :
    (∀ (maxSamples : Nat) (z : Compression) (requests : List Request),
      (run (Batch.empty maxSamples z) .empty requests).1.RefusesExactly (max maxSamples 1)
        (run (Batch.empty maxSamples z) .empty requests).2.accepted) ∧
    (∀ (maxSamples : Nat) (z : Compression) (requests : List Request),
      (run (Adaptive.empty maxSamples z) .empty requests).1.RefusesExactly (max maxSamples 1)
        (run (Adaptive.empty maxSamples z) .empty requests).2.accepted) ∧
    (∀ (maxSamples : Nat) (z : Compression) (requests : List Request),
      ∀ answer ∈ answers (Batch.empty maxSamples z) requests, ∀ e ∈ answer.error?, ∀ max, e ≠ .overfull max) ∧
    ∀ (maxSamples : Nat) (z : Compression) (requests : List Request),
      ∀ answer ∈ answers (Adaptive.empty maxSamples z) requests, ∀ e ∈ answer.error?,
        (∀ max, e ≠ .overfull max) ∧ ∀ held current previous, e ≠ .schemaMismatch held current previous := by
  have hbatch (maxSamples : Nat) (z : Compression) := Batch.tracks_fills (max maxSamples 1) z
  have hadaptive (maxSamples : Nat) (z : Compression) := Adaptive.tracks_fills (max maxSamples 1) z
  refine ⟨?_, ?_, ?_, ?_⟩
  · intro maxSamples z requests
    have hfills := (hbatch maxSamples z).run (l := .empty) (Batch.Fills.empty maxSamples z) requests
    exact hfills.refusesExactly
  · intro maxSamples z requests
    have hfills := (hadaptive maxSamples z).run (l := .empty) (Adaptive.Fills.empty maxSamples z) requests
    exact hfills.refusesExactly
  · intro maxSamples z requests
    refine (hbatch maxSamples z).errors (l := .empty) ?_ ?_ (Batch.Fills.empty maxSamples z) requests
    · rintro b l hfills sample e he max rfl
      obtain ⟨first, -, hmismatch⟩ := hfills.refusesExactly.mismatch sample _ he
      cases hmismatch
    · intro b l hfills e he
      exact ((Batch.filling _ z).ne_of_resolve (fun h => h.resolve_nil) hfills he).1
  · intro maxSamples z requests
    refine (hadaptive maxSamples z).errors (l := .empty) ?_ ?_ (Adaptive.Fills.empty maxSamples z) requests
    · intro a l hfills sample e he
      obtain ⟨first, -, index, current, previous, -, rfl⟩ := hfills.refusesExactly.mismatch sample _ he
      exact ⟨fun max => by simp, fun held current previous => by simp⟩
    · intro a l hfills e he
      exact (Adaptive.filling _ z).ne_of_resolve (fun h => h.resolve_nil) hfills he

/-- A sample with the same key and another type behind it has the fingerprint of the one before, and is refused while
there is room. -/
theorem refuses_mismatches_one_key :
    (Adaptive.add [("x", .int64 1)] (run (Adaptive.empty 2 ⟨.stored, 6⟩) .empty [.add [("x", .int32 1)]]).1).1 =
      .error (.typeMismatch 0 .int64 .int32) := by
  have hrefuses :
      (run (Adaptive.empty 2 ⟨.stored, 6⟩) .empty [.add [("x", .int32 1)]]).1.RefusesExactly 2 [[("x", .int32 1)]] :=
    refuses_mismatches.2.1 2 ⟨.stored, 6⟩ [.add [("x", .int32 1)]]
  have hgroup : lastGroup (inGroupsOfRuns 2 [[("x", .int32 1)]]) = [[("x", .int32 1)]] := by
    rw [inGroupsOfRuns_of_fingerprint (by simp), inGroups_of_length_le (by simp) (by simp)]
    rfl
  obtain ⟨e, he⟩ := (hrefuses.refused_iff [("x", .int64 1)]).mpr
    ⟨⟨_, rfl, rfl⟩, by rw [hgroup]; decide, [("x", .int32 1)], by rw [hgroup]; rfl, by decide⟩
  obtain ⟨first, hfirst, index, current, previous, hdiffers, rfl⟩ := hrefuses.mismatch _ e he
  rw [hgroup] at hfirst
  obtain rfl := Option.some.inj hfirst
  cases index with
  | zero =>
    obtain ⟨-, rfl, rfl⟩ := DiffersAt.zero_iff.mp hdiffers
    exact he
  | succ index => exact absurd hdiffers.current_eq (by simp [Document.types, Document.readings, Value.readings])

end Collector

end Telemetry
