import Telemetry.Collector

/-!
# Runs of requests

A collector is asked to take samples and metadata, to give back what it holds, to say how much that is, and to
begin again, in any order (`Request`). What can be known from outside about such a run is which samples were
taken and which metadata document was set since the collector last began again (`Ledger`). A statement about all
states that a collector can get into is a statement about the state and the ledger after every run; it holds if
every kind of request preserves it (`Tracks.run`).
-/

namespace Telemetry.Collector

/-! ## Requests and answers -/

/-- What a collector can be asked. -/
inductive Request where
  | add (sample : Document)
  | setMetadata (d : Document)
  | resolve
  | info
  | reset

/-- What a collector answers: whether a sample was taken, records, how much is held, or nothing. -/
inductive Answer where
  | added (result : Except Error Unit)
  | resolved (result : Except Error Bytes)
  | told (info : Info)
  | done

variable {σ : Type} [Collector σ]

/-- The answer to a request, and the collector after it. -/
def serve (c : σ) : Request → Answer × σ
  | .add sample => (.added (add sample c).1, (add sample c).2)
  | .setMetadata d => (.done, setMetadata d c)
  | .resolve => (.resolved (resolve c).1, (resolve c).2)
  | .info => (.told (info c), c)
  | .reset => (.done, reset c)

/-! ## Ledgers -/

/-- What is known about a collector from its answers: the samples that were taken since it last began again, in order,
and the metadata document that was last set since then. -/
structure Ledger where
  accepted : List Document
  metadata? : Option Document

namespace Ledger

/-- The ledger of a collector that has begun. -/
def empty : Ledger :=
  ⟨[], none⟩

/-- The ledger after a request and its answer. -/
def note (l : Ledger) : Request → Answer → Ledger
  | .add sample, .added (.ok ()) => { l with accepted := l.accepted ++ [sample] }
  | .setMetadata d, _ => { l with metadata? := some d }
  | .reset, _ => empty
  | _, _ => l

end Ledger

/-! ## Runs -/

/-- The collector and its ledger after requests, one after the other. -/
def run (c : σ) (l : Ledger) : List Request → σ × Ledger
  | [] => (c, l)
  | r :: requests => run (serve c r).2 (l.note r (serve c r).1) requests

/-- A statement about a collector and its ledger that every request preserves. -/
structure Tracks (P : σ → Ledger → Prop) : Prop where
  added : ∀ {c c' l sample}, P c l → add sample c = (.ok (), c') →
    P c' { l with accepted := l.accepted ++ [sample] }
  refused : ∀ {c c' l sample e}, P c l → add sample c = (.error e, c') → P c' l
  metadataSet : ∀ {c l d}, P c l → P (setMetadata d c) { l with metadata? := some d }
  resolved : ∀ {c l}, P c l → P (resolve c).2 l
  begun : ∀ {c l}, P c l → P (reset c) Ledger.empty

/-- What every request preserves holds after each of them. -/
theorem Tracks.serve {P : σ → Ledger → Prop} (h : Tracks P) {c : σ} {l : Ledger} (hc : P c l) (r : Request) :
    P (Collector.serve c r).2 (l.note r (Collector.serve c r).1) := by
  cases r with
  | add sample =>
    simp only [Collector.serve]
    cases hadd : Collector.add sample c with
    | mk result c' =>
      cases result with
      | ok _ => exact h.added hc hadd
      | error e => exact h.refused hc hadd
  | setMetadata d => exact h.metadataSet hc
  | resolve => exact h.resolved hc
  | info => exact hc
  | reset => exact h.begun hc

/-- What every request preserves holds after every run. -/
theorem Tracks.run {P : σ → Ledger → Prop} (h : Tracks P) {c : σ} {l : Ledger} (hc : P c l)
    (requests : List Request) : P (Collector.run c l requests).1 (Collector.run c l requests).2 := by
  induction requests generalizing c l with
  | nil => exact hc
  | cons r requests ih =>
    rw [Collector.run]
    exact ih (h.serve hc r)

/-- The answers to requests, one after the other. -/
def answers (c : σ) : List Request → List Answer
  | [] => []
  | r :: requests => (serve c r).1 :: answers (serve c r).2 requests

/-- What is true of every answer of a collector in a state that requests preserve is true of all its answers. -/
theorem Tracks.answers {P : σ → Ledger → Prop} (h : Tracks P) {Q : Answer → Prop}
    (hanswer : ∀ {c l}, P c l → ∀ r, Q (Collector.serve c r).1) {c : σ} {l : Ledger} (hc : P c l)
    (requests : List Request) : ∀ answer ∈ Collector.answers c requests, Q answer := by
  induction requests generalizing c l with
  | nil => simp [Collector.answers]
  | cons r requests ih =>
    rw [Collector.answers]
    exact List.forall_mem_cons.mpr ⟨hanswer hc r, ih (h.serve hc r)⟩

/-! ## Two collectors side by side -/

/-- Requests to put documents in front, and then to take samples. -/
def feeding (metadata samples : List Document) : List Request :=
  metadata.map .setMetadata ++ samples.map .add

/-- The document in the ledger of a collector that was fed is one of those it was fed. -/
theorem mem_of_metadata?_feeding (c : σ) (l : Ledger) (metadata samples : List Document) :
    ∀ d ∈ (run c l (feeding metadata samples)).2.metadata?, d ∈ l.metadata? ∨ d ∈ metadata := by
  induction metadata generalizing c l with
  | nil =>
    intro d hd
    refine .inl ?_
    rw [feeding, List.map_nil, List.nil_append] at hd
    induction samples generalizing c l with
    | nil => exact hd
    | cons sample samples ih =>
      have hmore := ih _ _ hd
      simp only [serve] at hmore
      cases hresult : (add sample c).1 <;> (rw [hresult] at hmore; exact hmore)
  | cons e metadata ih =>
    intro d hd
    rcases ih _ _ d hd with hd | hd
    · have hde : d = e := (Option.mem_some_iff.mp hd).symm
      exact .inr (hde ▸ List.mem_cons_self)
    · exact .inr (List.mem_cons_of_mem e hd)

variable {τ : Type} [Collector τ]

/-- One collector does what another does while both are fed, as long as the other stays good: it may be good no
more after a sample, but never good again after that. -/
structure Simulates (Before : σ → τ → Prop) (R : σ → τ → Prop) (Good : τ → Prop) : Prop where
  metadataSet : ∀ {s t d}, Before s t → Before (setMetadata d s) (setMetadata d t)
  begun : ∀ {s t}, Before s t → R s t
  added : ∀ {s t d}, R s t → Good (add d t).2 →
    (add d s).1 = (add d t).1 ∧ R (add d s).2 (add d t).2
  good_of_add : ∀ {t d}, Good (add d t).2 → Good t

namespace Simulates

variable {Before R : σ → τ → Prop} {Good : τ → Prop}

theorem good_of_run (h : Simulates Before R Good) {t : τ} {l : Ledger} {samples : List Document}
    (hgood : Good (run t l (samples.map .add)).1) : Good t := by
  induction samples generalizing t l with
  | nil => exact hgood
  | cons sample samples ih => exact h.good_of_add (ih hgood)

/-- The samples get the same answers. -/
theorem answers_samples (h : Simulates Before R Good) {s : σ} {t : τ} (hst : R s t) (l l' : Ledger)
    {samples : List Document} (hgood : Good (run t l' (samples.map .add)).1) :
    answers s (samples.map .add) = answers t (samples.map .add) ∧
      R (run s l (samples.map .add)).1 (run t l' (samples.map .add)).1 := by
  induction samples generalizing s t l l' with
  | nil => exact ⟨rfl, hst⟩
  | cons sample samples ih =>
    -- what is good at the end was good after this sample already
    obtain ⟨hanswer, hnext⟩ := h.added hst (h.good_of_run hgood)
    obtain ⟨hanswers, hlast⟩ := ih hnext _ _ hgood
    refine ⟨?_, hlast⟩
    simp only [List.map_cons, answers, serve]
    rw [hanswer, hanswers]

/-- Two collectors that are fed the same give the same answers, and end up as they should be. -/
theorem answers_feeding (h : Simulates Before R Good) {s : σ} {t : τ} (hst : Before s t) (l l' : Ledger)
    {metadata samples : List Document} (hgood : Good (run t l' (feeding metadata samples)).1) :
    answers s (feeding metadata samples) = answers t (feeding metadata samples) ∧
      R (run s l (feeding metadata samples)).1 (run t l' (feeding metadata samples)).1 := by
  induction metadata generalizing s t l l' with
  | nil => exact h.answers_samples (h.begun hst) l l' hgood
  | cons d metadata ih =>
    obtain ⟨hanswers, hlast⟩ := ih (h.metadataSet hst) _ _ hgood
    refine ⟨?_, hlast⟩
    simp only [feeding, List.map_cons, List.cons_append, answers, serve]
    exact congrArg _ hanswers

end Simulates

end Telemetry.Collector
