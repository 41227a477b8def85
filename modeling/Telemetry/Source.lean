import Telemetry.Bytes

/-!
# Byte sources that deliver as they please

A source holds bytes and hands them out in calls. What a call returns is up to the source: some of the
bytes asked for, at least one while any are left; an interruption, after which the call is simply made
again; or a failure, from some position on for good. A call at the end of the bytes returns none.

How calls go is a `Schedule`: for each call that completes, how many interruptions precede it and how
many bytes it returns at most. Interruptions are finite in number before each call, so that asking again
always ends.

`Source.fill` keeps asking until it has what it wants or the source has ended or failed.
-/

namespace Telemetry

/-- How the calls on a source go; calls that complete are counted from zero. So many interruptions precede a call, and
it returns at most one byte more than `most` says. -/
structure Schedule where
  interruptions : Nat → Nat
  most : Nat → Nat

/-- A failure of a source: the first position whose byte is never delivered, and what the source says. -/
structure SourceFailure where
  position : Nat
  words : String

/-- A source of bytes: those that have not been delivered, how many have been, and how its calls go. So many calls
have completed, and the current one has been interrupted so many times. -/
structure Source where
  rest : Bytes
  position : Nat
  failure? : Option SourceFailure
  schedule : Schedule
  calls : Nat
  interrupted : Nat

/-- What a call on a source returns: some bytes, none at the end; nothing yet; or a failure. -/
inductive Delivery where
  | bytes (front : Bytes)
  | interruption
  | failure (words : String)

/-- What became of a request for a number of bytes: all of them came, the source ended after some, or it failed. -/
inductive Filled where
  | full (bytes : Bytes)
  | short (bytes : Bytes)
  | failed (words : String)

namespace Source

/-- A source that delivers all it is asked for and does not fail. -/
def ofBytes (bytes : Bytes) : Source where
  rest := bytes
  position := 0
  failure? := none
  schedule := { interruptions := fun _ => 0, most := fun _ => UInt64.size }
  calls := 0
  interrupted := 0

/-- A source whose calls return at most `most` bytes each. A call that returns none says that there are no
more, so if calls return none at all the source is empty. -/
def inPieces (most : Nat) (bytes : Bytes) : Source :=
  let s := ofBytes (if most = 0 then [] else bytes)
  { s with schedule := { s.schedule with most := fun _ => most - 1 } }

/-- The most bytes the next call may return, by the schedule and by where the source fails. -/
def reach (s : Source) : Nat :=
  match s.failure? with
  | some failure => min (s.schedule.most s.calls + 1) (failure.position - s.position)
  | none => s.schedule.most s.calls + 1

/-- What the source says when it stands at the position where it fails. -/
def failureWords? (s : Source) : Option String :=
  match s.failure? with
  | some failure => if failure.position ≤ s.position then some failure.words else none
  | none => none

/-- How many interruptions are still to precede the current call. -/
def interruptionsLeft (s : Source) : Nat :=
  s.schedule.interruptions s.calls - s.interrupted

/-- The source after a call that returned `n` bytes. -/
def advance (n : Nat) (s : Source) : Source :=
  { s with
    rest := s.rest.drop n
    position := s.position + n
    calls := s.calls + 1
    interrupted := 0 }

/-- A call that asks for `want` bytes. -/
def read (want : Nat) (s : Source) : Delivery × Source :=
  if 0 < s.interruptionsLeft then (.interruption, { s with interrupted := s.interrupted + 1 })
  else
    match s.failureWords? with
    | some words => (.failure words, s.advance 0)
    | none =>
      let front := s.rest.take (min want s.reach)
      (.bytes front, s.advance front.length)

/-! ## Filling a request -/

/-- An interruption brings the call closer. -/
theorem read_interruption {want : Nat} {s t : Source} (h : s.read want = (.interruption, t)) :
    t.interruptionsLeft < s.interruptionsLeft ∧ t.rest = s.rest := by
  unfold read at h
  split at h
  · next hleft =>
    obtain ⟨-, rfl⟩ := Prod.mk.inj h
    simp only [interruptionsLeft] at hleft ⊢
    exact ⟨by omega, trivial⟩
  · split at h <;> simp at h

/-- Delivered bytes come off the front, no more than were asked for. -/
theorem read_bytes {want : Nat} {s t : Source} {front : Bytes}
    (h : s.read want = (.bytes front, t)) :
    front.length ≤ want ∧ s.rest = front ++ t.rest := by
  unfold read at h
  split at h
  · simp at h
  · split at h
    · simp at h
    · obtain ⟨hfront, rfl⟩ := Prod.mk.inj h
      obtain rfl := Delivery.bytes.inj hfront
      refine ⟨by simp only [List.length_take]; omega, ?_⟩
      simp only [advance, List.length_take]
      generalize min want s.reach = n
      by_cases hn : n ≤ s.rest.length
      · simp [Nat.min_eq_left hn]
      · have hn : s.rest.length ≤ n := by omega
        simp [Nat.min_eq_right hn, List.take_of_length_le hn]

/-- Ask until there are `want` bytes, or the source has ended or failed. -/
def fill (want : Nat) (s : Source) : Filled × Source :=
  if _ : want = 0 then (.full [], s)
  else
    match _ : s.read want with
    | (.interruption, t) => fill want t
    | (.failure words, t) => (.failed words, t)
    | (.bytes [], t) => (.short [], t)
    | (.bytes (b :: front), t) =>
      match fill (want - (b :: front).length) t with
      | (.full more, t) => (.full (b :: front ++ more), t)
      | (.short more, t) => (.short (b :: front ++ more), t)
      | (.failed words, t) => (.failed words, t)
termination_by (want, s.interruptionsLeft)
decreasing_by
  · exact Prod.Lex.right _ (read_interruption (by assumption)).1
  · exact Prod.Lex.left _ _ (by simp only [List.length_cons]; omega)

/-- What fills a request comes off the front of the source, as many bytes as were wanted. -/
theorem fill_full {want : Nat} {s t : Source} {bytes : Bytes}
    (h : s.fill want = (.full bytes, t)) : bytes.length = want ∧ s.rest = bytes ++ t.rest := by
  induction want, s using fill.induct generalizing t bytes with
  | case1 s =>
    rw [fill, dif_pos rfl] at h
    obtain ⟨hbytes, rfl⟩ := Prod.mk.inj h
    obtain rfl := Filled.full.inj hbytes
    simp
  | case2 want s hwant u hread ih =>
    rw [fill, dif_neg hwant] at h
    split at h <;> rename_i heq <;> rw [hread] at heq <;> simp at heq
    subst heq
    obtain ⟨hlen, hrest⟩ := ih h
    exact ⟨hlen, (read_interruption hread).2 ▸ hrest⟩
  | case3 want s hwant words u hread | case4 want s hwant u hread =>
    rw [fill, dif_neg hwant] at h
    split at h <;> rename_i heq <;> rw [hread] at heq <;> simp at heq
    simp at h
  | case5 want s hwant b front u hread more v hmore ih
  | case6 want s hwant b front u hread more v hmore ih
  | case7 want s hwant b front u hread words v hmore ih =>
    rw [fill, dif_neg hwant] at h
    split at h <;> rename_i heq <;> rw [hread] at heq <;> simp at heq
    obtain ⟨⟨rfl, rfl⟩, rfl⟩ := heq
    split at h <;> simp at h
    rename_i hfill
    obtain ⟨rfl, rfl⟩ := h
    obtain ⟨hwanted, hfront⟩ := read_bytes hread
    obtain ⟨hlen, hrest⟩ := ih hfill
    simp only [List.length_cons, List.length_append] at *
    exact ⟨by omega, by simp [hfront, hrest]⟩

end Source

end Telemetry
