import Mathlib.Data.List.SplitBy
import Telemetry.Fingerprint

/-!
# How samples are cut into chunks

Samples are cut into groups of a fixed number, the last of which may be shorter (`inGroups`), or first into runs
of one fingerprint and the runs into groups (`inRuns`, `inGroupsOfRuns`). These are statements about lists; which
collector cuts how is proved elsewhere.

A collector sees one sample at a time, so what it needs is how a cut changes when the list grows by one:
`inGroups_flatten_append` for groups, `inRuns_concat_same` and `inRuns_concat_other` for runs.
-/

namespace Telemetry

/-! ## Groups of a fixed number -/

section Groups

variable {α : Type} {k : Nat}

/-- Consecutive groups of `k`, the last of which may be shorter. -/
def inGroups (k : Nat) (xs : List α) : List (List α) :=
  if _ : k = 0 ∨ xs = [] then [] else xs.take k :: inGroups k (xs.drop k)
termination_by xs.length
decreasing_by
  have := List.length_pos_iff.mpr (by tauto : xs ≠ [])
  rw [List.length_drop]
  omega

@[simp] theorem inGroups_nil (k : Nat) : inGroups k ([] : List α) = [] := by
  rw [inGroups, dif_pos (.inr rfl)]

/-- Groups are taken off the front. -/
theorem inGroups_append {g : List α} (hk : 0 < k) (hg : g.length = k) (xs : List α) :
    inGroups k (g ++ xs) = g :: inGroups k xs := by
  have hne : g ++ xs ≠ [] := by
    intro h
    rw [List.append_eq_nil_iff] at h
    rw [h.1] at hg
    exact absurd hg (Nat.ne_of_lt hk)
  rw [inGroups, dif_neg (by simp only [not_or]; exact ⟨by omega, hne⟩), List.take_left' hg,
    List.drop_left' hg]

/-- What is not too long is one group. -/
theorem inGroups_of_length_le {xs : List α} (hne : xs ≠ []) (hlen : xs.length ≤ k) :
    inGroups k xs = [xs] := by
  have hpos := List.length_pos_iff.mpr hne
  rw [inGroups, dif_neg (by simp only [not_or]; exact ⟨by omega, hne⟩), List.take_of_length_le hlen,
    List.drop_of_length_le hlen, inGroups_nil]

/-- Full groups stay as they are, whatever comes after them. -/
theorem inGroups_full_append {closed : List (List α)} (hk : 0 < k) (hclosed : ∀ g ∈ closed, g.length = k)
    (xs : List α) : inGroups k (closed.flatten ++ xs) = closed ++ inGroups k xs := by
  induction closed with
  | nil => rfl
  | cons g closed ih =>
    rw [List.flatten_cons, List.append_assoc, inGroups_append hk (hclosed g (by simp)),
      ih fun g' hg' => hclosed g' (by simp [hg'])]
    rfl

/-- Full groups and a last one that may be shorter are the groups of all their members: there is no other way to
cut them. -/
theorem inGroups_flatten_append {closed : List (List α)} {last : List α} (hk : 0 < k)
    (hclosed : ∀ g ∈ closed, g.length = k) (hne : last ≠ []) (hlen : last.length ≤ k) :
    inGroups k (closed.flatten ++ last) = closed ++ [last] := by
  rw [inGroups_full_append hk hclosed, inGroups_of_length_le hne hlen]

/-- What comes first is in one group as long as it fits. -/
theorem exists_group_of_length_le {xs : List α} (hne : xs ≠ []) (hlen : xs.length ≤ k) (more : List α) :
    ∃ g ∈ inGroups k (xs ++ more), xs <+: g := by
  have hpos := List.length_pos_iff.mpr hne
  rw [inGroups, dif_neg (by simp only [not_or]; exact ⟨by omega, by simp [hne]⟩)]
  exact ⟨_, List.mem_cons_self, List.prefix_take_iff.mpr ⟨List.prefix_append xs more, hlen⟩⟩

/-- No group is empty. -/
theorem ne_nil_of_mem_inGroups {xs g : List α} (hg : g ∈ inGroups k xs) : g ≠ [] := by
  induction xs using inGroups.induct k with
  | case1 xs h =>
    rw [inGroups, dif_pos h] at hg
    simp at hg
  | case2 xs h ih =>
    rw [inGroups, dif_neg h, List.mem_cons] at hg
    rcases hg with rfl | hg
    · rw [Ne, List.take_eq_nil_iff]
      tauto
    · exact ih hg

/-- What is in a group was in the list. -/
theorem mem_of_mem_inGroups {xs g : List α} (hg : g ∈ inGroups k xs) {x : α} (hx : x ∈ g) : x ∈ xs := by
  induction xs using inGroups.induct k with
  | case1 xs h =>
    rw [inGroups, dif_pos h] at hg
    simp at hg
  | case2 xs h ih =>
    rw [inGroups, dif_neg h, List.mem_cons] at hg
    rcases hg with rfl | hg
    · exact List.mem_of_mem_take hx
    · exact List.mem_of_mem_drop (ih hg)

/-- No group is longer than `k`. -/
theorem length_le_of_mem_inGroups {xs g : List α} (hg : g ∈ inGroups k xs) : g.length ≤ k := by
  induction xs using inGroups.induct k with
  | case1 xs h =>
    rw [inGroups, dif_pos h] at hg
    simp at hg
  | case2 xs h ih =>
    rw [inGroups, dif_neg h, List.mem_cons] at hg
    rcases hg with rfl | hg
    · rw [List.length_take]
      omega
    · exact ih hg

/-- Only the last group may be shorter than `k`. -/
theorem length_of_mem_dropLast_inGroups {xs g : List α} (hg : g ∈ (inGroups k xs).dropLast) :
    g.length = k := by
  induction xs using inGroups.induct k with
  | case1 xs h =>
    rw [inGroups, dif_pos h] at hg
    simp at hg
  | case2 xs h ih =>
    rw [inGroups, dif_neg h] at hg
    by_cases hmore : inGroups k (xs.drop k) = []
    · simp [hmore] at hg
    · rw [List.dropLast_cons_of_ne_nil hmore, List.mem_cons] at hg
      rcases hg with rfl | hg
      · -- there is something after this group, so it is full
        have hdrop : xs.drop k ≠ [] := fun hnil => hmore (by rw [hnil, inGroups_nil])
        have hlen := List.length_pos_iff.mpr hdrop
        rw [List.length_drop] at hlen
        rw [List.length_take]
        omega
      · exact ih hg

theorem inGroups_eq_nil_iff {xs : List α} (hk : 0 < k) : inGroups k xs = [] ↔ xs = [] := by
  constructor
  · intro h
    by_contra hne
    rw [inGroups, dif_neg (by simp only [not_or]; exact ⟨by omega, hne⟩)] at h
    simp at h
  · rintro rfl
    exact inGroups_nil k

/-- Nothing is lost, and nothing changes its place. -/
theorem flatten_inGroups (hk : 0 < k) (xs : List α) : (inGroups k xs).flatten = xs := by
  induction xs using inGroups.induct k with
  | case1 xs h =>
    rw [inGroups, dif_pos h]
    rcases h with h | rfl
    · omega
    · rfl
  | case2 xs h ih => rw [inGroups, dif_neg h, List.flatten_cons, ih, List.take_append_drop]

end Groups

/-! ## Runs of one fingerprint -/

namespace Document

/-- Whether two samples have one fingerprint. -/
def sameFingerprint (d e : Document) : Bool :=
  d.fingerprint = e.fingerprint

end Document

/-- The longest runs of samples with one fingerprint. -/
def inRuns (samples : List Document) : List (List Document) :=
  samples.splitBy Document.sameFingerprint

/-- The longest runs of samples with one fingerprint, each in groups of `k`. -/
def inGroupsOfRuns (k : Nat) (samples : List Document) : List (List Document) :=
  (inRuns samples).flatMap (inGroups k)

/-- Nothing is lost, and nothing changes its place. -/
theorem flatten_inGroupsOfRuns {k : Nat} (hk : 0 < k) (samples : List Document) :
    (inGroupsOfRuns k samples).flatten = samples := by
  have hgroups : ∀ runs : List (List Document), (runs.flatMap (inGroups k)).flatten = runs.flatten := by
    intro runs
    induction runs with
    | nil => rfl
    | cons r runs ih => rw [List.flatMap_cons, List.flatten_append, flatten_inGroups hk, ih, List.flatten_cons]
  rw [inGroupsOfRuns, hgroups, inRuns, List.flatten_splitBy]

theorem exists_run_of_mem_inGroupsOfRuns {k : Nat} {samples g : List Document}
    (hg : g ∈ inGroupsOfRuns k samples) : ∃ r ∈ inRuns samples, g ∈ inGroups k r :=
  List.mem_flatMap.mp hg

theorem ne_nil_of_mem_inGroupsOfRuns {k : Nat} {samples g : List Document}
    (hg : g ∈ inGroupsOfRuns k samples) : g ≠ [] := by
  obtain ⟨r, -, hg⟩ := exists_run_of_mem_inGroupsOfRuns hg
  exact ne_nil_of_mem_inGroups hg

theorem length_le_of_mem_inGroupsOfRuns {k : Nat} {samples g : List Document}
    (hg : g ∈ inGroupsOfRuns k samples) : g.length ≤ k := by
  obtain ⟨r, -, hg⟩ := exists_run_of_mem_inGroupsOfRuns hg
  exact length_le_of_mem_inGroups hg

/-- All samples of a run have one fingerprint. -/
theorem fingerprint_eq_of_mem_inRuns {samples r : List Document} (hr : r ∈ inRuns samples) :
    ∀ d ∈ r, ∀ e ∈ r, d.fingerprint = e.fingerprint := by
  have hchain : r.IsChain fun d e => d.fingerprint = e.fingerprint :=
    (List.isChain_of_mem_splitBy hr).imp fun d e h => by simpa [Document.sameFingerprint] using h
  -- neighbours agree, and agreement is transitive
  have htrans : Trans (fun d e : Document => d.fingerprint = e.fingerprint)
      (fun d e : Document => d.fingerprint = e.fingerprint)
      (fun d e : Document => d.fingerprint = e.fingerprint) := ⟨Eq.trans⟩
  have hpairs : (r.map Document.fingerprint).Pairwise Eq :=
    List.pairwise_map.mpr (List.isChain_iff_pairwise.mp hchain)
  intro d hd e he
  exact hpairs.forall_of_forall (fun _ _ => rfl) (List.mem_map_of_mem hd) (List.mem_map_of_mem he)

/-- All samples of a group of a run have one fingerprint. -/
theorem fingerprint_eq_of_mem_inGroupsOfRuns {k : Nat} {samples g : List Document}
    (hg : g ∈ inGroupsOfRuns k samples) : ∀ d ∈ g, ∀ e ∈ g, d.fingerprint = e.fingerprint := by
  obtain ⟨r, hr, hg⟩ := exists_run_of_mem_inGroupsOfRuns hg
  intro d hd e he
  exact fingerprint_eq_of_mem_inRuns hr d (mem_of_mem_inGroups hg hd) e (mem_of_mem_inGroups hg he)

/-- Samples of one fingerprint are one run, so they are cut as if there were no runs. -/
theorem inGroupsOfRuns_of_fingerprint {k : Nat} {samples : List Document}
    (h : ∀ d ∈ samples, ∀ e ∈ samples, d.fingerprint = e.fingerprint) : inGroupsOfRuns k samples = inGroups k samples := by
  by_cases hne : samples = []
  · rw [hne, inGroups_nil]
    rfl
  · have hrun : inRuns samples = [samples] := by
      refine List.splitBy_eq_iff.mpr ⟨by simp, by simpa using Ne.symm hne, fun g hg => ?_, List.isChain_singleton _⟩
      obtain rfl := List.mem_singleton.mp hg
      refine (List.pairwise_of_forall_mem_list fun d hd e he => ?_).isChain
      exact decide_eq_true (h d hd e he)
    rw [inGroupsOfRuns, hrun, List.flatMap_singleton]

/-- A sample with another fingerprint than the last begins a run. -/
theorem inRuns_concat_other {samples : List Document} {d last : Document}
    (hlast : samples.getLast? = some last) (hd : last.fingerprint ≠ d.fingerprint) :
    inRuns (samples ++ [d]) = inRuns samples ++ [[d]] := by
  have hother : ∀ x ∈ samples.getLast?, ∀ y ∈ [d].head?, Document.sameFingerprint x y = false := by
    intro x hx y hy
    rw [hlast, Option.mem_some_iff] at hx
    rw [List.head?_cons, Option.mem_some_iff] at hy
    subst hx hy
    simpa [Document.sameFingerprint] using hd
  rw [inRuns, List.splitBy_append hother]
  rfl

/-- A sample with the fingerprint of the last belongs to the last run. -/
theorem inRuns_concat_same {samples : List Document} {front : List (List Document)} {run : List Document}
    {d last : Document} (hruns : inRuns samples = front ++ [run]) (hlast : run.getLast? = some last)
    (hd : last.fingerprint = d.fingerprint) : inRuns (samples ++ [d]) = front ++ [run ++ [d]] := by
  obtain ⟨hflatten, hnil, hwithin, hbetween⟩ := List.splitBy_eq_iff.mp hruns
  refine List.splitBy_eq_iff.mpr ⟨?_, ?_, ?_, ?_⟩
  · rw [hflatten]
    simp
  · simp only [List.mem_append, List.mem_singleton, not_or] at hnil ⊢
    exact ⟨hnil.1, by simp⟩
  · intro g hg
    rcases List.mem_append.mp hg with hg | hg
    · exact hwithin g (List.mem_append_left _ hg)
    · rw [List.mem_singleton] at hg
      subst hg
      refine List.isChain_append.mpr ⟨hwithin run (by simp), List.isChain_singleton d, ?_⟩
      intro x hx y hy
      rw [hlast, Option.mem_some_iff] at hx
      rw [List.head?_cons, Option.mem_some_iff] at hy
      subst hx hy
      simpa [Document.sameFingerprint] using hd
  · -- the last run begins as it did, so the run before it still ends there
    obtain ⟨hfront, -, hlink⟩ := List.isChain_append.mp hbetween
    refine List.isChain_append.mpr ⟨hfront, List.isChain_singleton _, ?_⟩
    intro g hg g' hg'
    rw [List.head?_cons, Option.mem_some_iff] at hg'
    subst hg'
    obtain ⟨ha, hb, hne⟩ := hlink g hg run rfl
    exact ⟨ha, by simp, by rw [List.head_append_of_ne_nil hb]; exact hne⟩

end Telemetry
