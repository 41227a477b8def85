import Telemetry.Source

/-!
# Requests that a source fills

What a source has to give are its bytes, down to the position where it fails (`Source.supply`). It fills every request
that these suffice for, however it hands them out (`Source.fill_append`), and no other (`Source.fill_of_lt`). Both
follow the calls of `Source.fill`: an interruption changes nothing that matters here, and a call that completes takes at
least one byte off the front, unless there is nothing left to give.
-/

namespace Telemetry.Source

/-- The bytes that a source gives: all that it holds, or those before the position where it fails. -/
def supply (s : Source) : Bytes :=
  match s.failure? with
  | some failure => s.rest.take (failure.position - s.position)
  | none => s.rest

theorem supply_of_failure?_eq_none {s : Source} (h : s.failure? = none) : s.supply = s.rest := by
  rw [supply, h]

/-- A source after another one has delivered `n` bytes. -/
structure IsAfter (t : Source) (n : Nat) (s : Source) : Prop where
  rest_eq : t.rest = s.rest.drop n
  position_eq : t.position = s.position + n
  failure?_eq : t.failure? = s.failure?

namespace IsAfter

variable {s t u : Source} {m n : Nat}

theorem refl (s : Source) : s.IsAfter 0 s :=
  ⟨rfl, rfl, rfl⟩

theorem trans (h : t.IsAfter m s) (h' : u.IsAfter n t) : u.IsAfter (m + n) s where
  rest_eq := by rw [h'.rest_eq, h.rest_eq, List.drop_drop]
  position_eq := by rw [h'.position_eq, h.position_eq, Nat.add_assoc]
  failure?_eq := h'.failure?_eq.trans h.failure?_eq

theorem supply_eq (h : t.IsAfter n s) : t.supply = s.supply.drop n := by
  rw [supply, supply, h.failure?_eq]
  cases s.failure? with
  | none => exact h.rest_eq
  | some failure => simp only [h.rest_eq, h.position_eq, List.drop_take, Nat.sub_sub]

end IsAfter

/-! ## One call -/

/-- What a call does: it delivers what comes first in the supply, and nothing only if the supply is used up. -/
theorem read_spec {want : Nat} (hwant : want ≠ 0) (s : Source) :
    match s.read want with
    | (.interruption, t) => t.IsAfter 0 s
    | (.failure _, _) => s.failure? ≠ none ∧ s.supply = []
    | (.bytes front, t) => t.IsAfter front.length s ∧ front <+: s.supply ∧ front.length ≤ want ∧
        (front = [] → s.supply = []) := by
  by_cases hleft : 0 < s.interruptionsLeft
  · rw [read, if_pos hleft]
    exact ⟨rfl, rfl, rfl⟩
  · cases hfailure : s.failure? with
    | none =>
      have hwords : s.failureWords? = none := by rw [failureWords?, hfailure]
      have hreach : s.reach ≠ 0 := by simp [reach, hfailure]
      rw [read, if_neg hleft, hwords, supply_of_failure?_eq_none hfailure]
      refine ⟨⟨by simp [advance], rfl, rfl⟩, List.take_prefix _ _, ?_, fun hnil => ?_⟩
      · rw [List.length_take]
        omega
      · exact (List.take_eq_nil_iff.mp hnil).resolve_left (by omega)
    | some failure =>
      have hsupply : s.supply = s.rest.take (failure.position - s.position) := by rw [supply, hfailure]
      by_cases hreached : failure.position ≤ s.position
      · have hwords : s.failureWords? = some failure.words := by simp [failureWords?, hfailure, hreached]
        rw [read, if_neg hleft, hwords, hsupply, Nat.sub_eq_zero_of_le hreached]
        exact ⟨Option.some_ne_none _, List.take_zero⟩
      · have hwords : s.failureWords? = none := by simp [failureWords?, hfailure, hreached]
        have hreach : s.reach ≠ 0 ∧ s.reach ≤ failure.position - s.position := by
          simp only [reach, hfailure]
          omega
        rw [read, if_neg hleft, hwords, hsupply]
        refine ⟨⟨by simp [advance], rfl, rfl⟩, List.take_prefix_take_left (by omega), ?_, fun hnil => ?_⟩
        · rw [List.length_take]
          omega
        · rw [(List.take_eq_nil_iff.mp hnil).resolve_left (by omega), List.take_nil]

/-- After an interruption the request is as it was. -/
theorem fill_of_interruption {want : Nat} {s t : Source} (hwant : want ≠ 0)
    (hread : s.read want = (.interruption, t)) : s.fill want = t.fill want := by
  rw [fill, dif_neg hwant]
  split <;> rename_i heq <;> rw [hread] at heq <;> simp at heq
  rw [heq]

/-- A failure ends the request. -/
theorem fill_of_failure {want : Nat} {s t : Source} {words : String} (hwant : want ≠ 0)
    (hread : s.read want = (.failure words, t)) : s.fill want = (.failed words, t) := by
  rw [fill, dif_neg hwant]
  split <;> rename_i heq <;> rw [hread] at heq <;> simp at heq
  rw [heq.1, heq.2]

/-- A call that returns nothing ends the request. -/
theorem fill_of_end {want : Nat} {s t : Source} (hwant : want ≠ 0)
    (hread : s.read want = (.bytes [], t)) : s.fill want = (.short [], t) := by
  rw [fill, dif_neg hwant]
  split <;> rename_i heq <;> rw [hread] at heq <;> simp at heq
  rw [heq]

/-- A call that returns something leaves a request for what is missing. -/
theorem fill_of_bytes {want : Nat} {s t : Source} {b : UInt8} {bytes : Bytes} (hwant : want ≠ 0)
    (hread : s.read want = (.bytes (b :: bytes), t)) :
    s.fill want =
      match t.fill (want - (b :: bytes).length) with
      | (.full more, u) => (.full (b :: bytes ++ more), u)
      | (.short more, u) => (.short (b :: bytes ++ more), u)
      | (.failed words, u) => (.failed words, u) := by
  rw [fill, dif_neg hwant]
  split <;> rename_i heq <;> rw [hread] at heq <;> simp at heq
  obtain ⟨⟨rfl, rfl⟩, rfl⟩ := heq
  rfl

/-! ## Whole requests -/

/-- A source fills a request from the front of its supply. -/
theorem fill_append {s : Source} {front more : Bytes} (hsupply : s.supply = front ++ more) :
    ∃ t, s.fill front.length = (.full front, t) ∧ t.IsAfter front.length s := by
  generalize hwant : front.length = want
  induction want, s using fill.induct generalizing front with
  | case1 s =>
    obtain rfl := List.length_eq_zero_iff.mp hwant
    exact ⟨s, by rw [fill, dif_pos rfl], .refl s⟩
  | case2 want s hpos u hread ih =>
    have hstep := read_spec hpos s
    rw [hread] at hstep
    obtain ⟨t, ht, hafter⟩ := ih (hstep.supply_eq.trans hsupply) hwant
    refine ⟨t, by rw [fill_of_interruption hpos hread, ht], ?_⟩
    rw [← Nat.zero_add want]
    exact hstep.trans hafter
  | case3 want s hpos words u hread =>
    have hstep := read_spec hpos s
    rw [hread, hsupply, List.append_eq_nil_iff] at hstep
    rw [hstep.2.1] at hwant
    exact absurd hwant.symm hpos
  | case4 want s hpos u hread =>
    have hstep := read_spec hpos s
    rw [hread, hsupply, List.append_eq_nil_iff] at hstep
    rw [(hstep.2.2.2 rfl).1] at hwant
    exact absurd hwant.symm hpos
  | case5 want s hpos b bytes u hread more' v hmore ih
  | case6 want s hpos b bytes u hread more' v hmore ih
  | case7 want s hpos b bytes u hread words v hmore ih =>
    have hstep := read_spec hpos s
    rw [hread] at hstep
    obtain ⟨hafter, hprefix, hle, -⟩ := hstep
    -- what the call returned is the front of what was asked for
    have hprefix : b :: bytes <+: front := by
      rw [hsupply] at hprefix
      exact List.prefix_of_prefix_length_le hprefix ⟨more, rfl⟩ (by omega)
    obtain ⟨left, rfl⟩ := hprefix
    have hleft : u.supply = left ++ more := by
      rw [hafter.supply_eq, hsupply, List.append_assoc, List.drop_left]
    have hlen : left.length = want - (b :: bytes).length := by
      rw [List.length_append] at hwant
      omega
    obtain ⟨t, ht, hafter'⟩ := ih hleft hlen
    refine ⟨t, by rw [fill_of_bytes hpos hread, ht], ?_⟩
    have hboth := hafter.trans hafter'
    rwa [Nat.add_sub_cancel' hle] at hboth

/-- A source that has too little for a request gives what it has and says that it has ended, or it fails. -/
theorem fill_of_lt {want : Nat} {s : Source} (h : s.supply.length < want) :
    (∃ t, s.fill want = (.short s.supply, t) ∧ t.IsAfter s.supply.length s) ∨
      s.failure? ≠ none ∧ ∃ words t, s.fill want = (.failed words, t) := by
  induction want, s using fill.induct with
  | case1 s => omega
  | case2 want s hpos u hread ih =>
    have hstep := read_spec hpos s
    rw [hread] at hstep
    have hsupply : u.supply = s.supply := hstep.supply_eq
    rw [fill_of_interruption hpos hread]
    rcases ih (by rwa [hsupply]) with ⟨t, ht, hafter⟩ | ⟨hfailure, hfailed⟩
    · rw [hsupply] at ht hafter
      refine .inl ⟨t, ht, ?_⟩
      rw [← Nat.zero_add s.supply.length]
      exact hstep.trans hafter
    · exact .inr ⟨hstep.failure?_eq ▸ hfailure, hfailed⟩
  | case3 want s hpos words u hread =>
    have hstep := read_spec hpos s
    rw [hread] at hstep
    exact .inr ⟨hstep.1, words, u, fill_of_failure hpos hread⟩
  | case4 want s hpos u hread =>
    have hstep := read_spec hpos s
    rw [hread] at hstep
    obtain ⟨hafter, -, -, hnil⟩ := hstep
    refine .inl ⟨u, ?_, ?_⟩
    · rw [fill_of_end hpos hread, hnil rfl]
    · rw [hnil rfl]
      exact hafter
  | case5 want s hpos b bytes u hread more v hmore ih
  | case6 want s hpos b bytes u hread more v hmore ih
  | case7 want s hpos b bytes u hread words v hmore ih =>
    have hstep := read_spec hpos s
    rw [hread] at hstep
    obtain ⟨hafter, ⟨left, hsupply⟩, hle, -⟩ := hstep
    have hleft : u.supply = left := by rw [hafter.supply_eq, ← hsupply, List.drop_left]
    rw [← hsupply, List.length_append] at h
    rw [fill_of_bytes hpos hread, ← hsupply, List.length_append, ← hleft]
    rcases ih (by rw [hleft]; omega) with ⟨t, ht, hafter'⟩ | ⟨hfailure, words', t, ht⟩
    · exact .inl ⟨t, by rw [ht], hafter.trans hafter'⟩
    · exact .inr ⟨hafter.failure?_eq ▸ hfailure, words', t, by rw [ht]⟩

end Telemetry.Source
