import Telemetry.Proofs.Chunk.RoundTrip
import Telemetry.Proofs.Collector.Requests
import Telemetry.Proofs.Payload
import Telemetry.Zlib.Stored

/-!
# From samples to a chunk and back

Whatever has been asked of a window, it holds the samples that it took since it last began again
(`Window.tracks_holds`). So its payload is that of the samples, and the chunk that is read from it represents
them: `Window.chunk_of_samples` is the round trip through the whole of the codec.
-/

namespace Telemetry

open Collector

namespace Window

/-- A window holds the samples in its ledger, and its metadata document is the one in the ledger. -/
theorem tracks_holds : Tracks fun (w : Window) l => w.Holds l.accepted ∧ w.metadata? = l.metadata? where
  added := by
    rintro w w' l sample ⟨hholds, hmetadata⟩ hadd
    refine ⟨hholds.add hadd, ?_⟩
    have hframe := (frame_add sample w).2.2
    rw [show w.add sample = (.ok (), w') from hadd] at hframe
    exact hframe.trans hmetadata
  refused := by
    intro w w' l sample e h hadd
    rw [eq_of_add_error hadd]
    exact h
  metadataSet := by
    intro w l d h
    exact ⟨h.1.setMetadata d, rfl⟩
  resolved := id
  begun := by
    intro w l _
    exact ⟨Holds.reset w, rfl⟩

/-- A window with room takes all samples that have the types of those it holds. -/
theorem Holds.accepted_eq {w : Window} {before : List Document} (h : w.Holds before) (samples : List Document)
    (hroom : before.length + samples.length ≤ w.maxDeltas + 1)
    (htypes : ∀ d ∈ before ++ samples, ∀ e ∈ before ++ samples, Document.types d = Document.types e)
    (metadata? : Option Document) :
    (run w ⟨before, metadata?⟩ (samples.map .add)).2 = ⟨before ++ samples, metadata?⟩ := by
  induction samples generalizing w before with
  | nil => rw [List.append_nil]; rfl
  | cons d samples ih =>
    rw [List.length_cons] at hroom
    obtain ⟨w', hadd⟩ := h.exists_add_of_types (by omega) fun e he =>
      htypes d (by simp) e (List.mem_append_left _ he)
    have hframe : w'.maxDeltas = w.maxDeltas := by simpa [hadd] using (frame_add d w).1
    have hsplit : before ++ d :: samples = before ++ [d] ++ samples := by simp
    rw [hsplit] at htypes ⊢
    have hmore := ih (h.add hadd) (by rw [hframe, List.length_append, List.length_singleton]; omega) htypes
    rw [List.map_cons, run]
    simp only [serve]
    rw [show Collector.add d w = (.ok (), w') from hadd]
    exact hmore

/-- A window that is asked to take samples of the same types, and has room for them, holds them. -/
theorem holds_of_adds {maxDeltas : Nat} {samples : List Document} (hroom : samples.length ≤ maxDeltas + 1)
    (htypes : ∀ d ∈ samples, ∀ e ∈ samples, Document.types d = Document.types e) (z : Compression) :
    (run (empty maxDeltas z) .empty (samples.map .add)).1.Holds samples := by
  have hledger := (Holds.empty maxDeltas z).accepted_eq samples (by simpa [empty] using hroom) htypes none
  have hholds := (tracks_holds.run (l := Ledger.empty) ⟨Holds.empty maxDeltas z, rfl⟩ (samples.map .add)).1
  have haccepted : (run (empty maxDeltas z) .empty (samples.map .add)).2.accepted = samples :=
    congrArg Ledger.accepted hledger
  rwa [haccepted] at hholds

end Window

namespace Chunk

/-- The chunk in a body is that of the samples whose payload the body holds. -/
theorem exists_ofBody_eq {first : Document} {rest : List Document}
    (htypes : ∀ d ∈ rest, Document.types d = Document.types first)
    (hsize : (Window.chunkPayload first rest).length ≤ maxPayloadSize)
    (hcount : rest.length ≤ maxChunkValues)
    (hvalues : (Document.readings first).length * rest.length ≤ maxChunkValues) {body : Bytes}
    (hbody : Payload.decompress body = .ok (Window.chunkPayload first rest))
    (metadata? : Option Document) :
    ∃ c, ofBody metadata? body = .ok c ∧ c.Represents first rest := by
  refine ⟨ofSamples metadata? first rest, ?_, represents_ofSamples htypes metadata?⟩
  rw [ofBody, hbody]
  exact ofPayload_chunkPayload hsize hcount hvalues metadata?

end Chunk

namespace Window

/-- The samples that a window took come back from it. After any requests, if what it took is within the limits of
a reader, the window has a payload and a body that holds it; and every body that holds it, however it was
compressed, holds a chunk that represents the samples. From that chunk every sample can be restored, and one
with the outline of the first, whose doubles are finite and have not changed, is restored as it was. -/
theorem chunk_of_samples (maxDeltas : Nat) (z : Compression) (requests : List Request) (first : Document)
    (rest : List Document)
    (haccepted : (run (empty maxDeltas z) .empty requests).2.accepted = first :: rest)
    (hsize : (chunkPayload first rest).length ≤ maxPayloadSize)
    (hcount : rest.length ≤ maxChunkValues)
    (hvalues : (Document.readings first).length * rest.length ≤ maxChunkValues) :
    let w := (run (empty maxDeltas z) .empty requests).1
    w.payload = .ok (chunkPayload first rest) ∧
    (∃ body, w.body = .ok body ∧ Payload.decompress body = .ok (chunkPayload first rest)) ∧
    ∀ (metadata? : Option Document) (body : Bytes),
      Payload.decompress body = .ok (chunkPayload first rest) →
      ∃ c, Chunk.ofBody metadata? body = .ok c ∧ c.Represents first rest ∧
        (∀ i ≤ rest.length, ∃ d, c.structured i = .ok d ∧
          Chunk.Restores Document.outline Document.readings i c.series first d) ∧
        ∀ (i : Nat) (d : Document), (first :: rest)[i]? = some d →
          Document.outline d = Document.outline first →
          (∀ {metric : Nat} {x : Double},
            (Document.readings first)[metric]? = some (Reading.mk .double (.double x)) →
              x.isFinite = true ∧ ∀ e ∈ rest.take i,
                (Document.readings e)[metric]? = some (Reading.mk .double (.double x))) →
          c.structured i = .ok d := by
  intro w
  have hstart : (empty maxDeltas z).Holds Ledger.empty.accepted ∧
      (empty maxDeltas z).metadata? = Ledger.empty.metadata? := ⟨Holds.empty maxDeltas z, rfl⟩
  have htracks := tracks_holds.run hstart requests
  have hholds : w.Holds (first :: rest) := haccepted ▸ htracks.1
  have hcarries : w.Carries first rest := hholds
  have hword : maxPayloadSize < UInt32.size := by decide
  have hfirst : Document.size first < UInt32.size := by
    simp only [chunkPayload, List.length_append, Document.length_bytes] at hsize
    omega
  have hpayload := hcarries.payload_eq hfirst
  refine ⟨hpayload, ?_, ?_⟩
  · have hcompress := Payload.compress_eq (Nat.lt_of_le_of_lt hsize hword) w.compression
    refine ⟨_, ?_, Payload.decompress_compress hsize hcompress⟩
    rw [Window.body, hpayload]
    simp only [hcompress]
  · intro metadata? body hbody
    obtain ⟨c, hc, hrepresents⟩ :=
      Chunk.exists_ofBody_eq hcarries.types_eq hsize hcount hvalues hbody metadata?
    refine ⟨c, hc, hrepresents, fun i hi => hrepresents.exists_structured_eq hi, ?_⟩
    intro i d hd houtline hdoubles
    exact hrepresents.structured_eq_sample hcarries.types_eq hd houtline hdoubles

/-- Two samples with a timestamp and a double in an array come back; one of another schema between them was
refused. -/
theorem chunk_of_two_samples :
    ∃ body c, (run (empty 4 ⟨.stored, 6⟩) .empty
        [.add [("t", .timestamp 3 4), ("a", .array [.double ⟨0⟩])], .add [("t", .null)],
          .add [("t", .timestamp 3 5), ("a", .array [.double ⟨0⟩])]]).1.body = .ok body ∧
      Chunk.ofBody none body = .ok c ∧
      c.structured 1 = .ok [("t", .timestamp 3 5), ("a", .array [.double ⟨0⟩])] := by
  obtain ⟨-, ⟨body, hbody, hcontent⟩, hchunk⟩ := chunk_of_samples 4 ⟨.stored, 6⟩
    [.add [("t", .timestamp 3 4), ("a", .array [.double ⟨0⟩])], .add [("t", .null)],
      .add [("t", .timestamp 3 5), ("a", .array [.double ⟨0⟩])]]
    [("t", .timestamp 3 4), ("a", .array [.double ⟨0⟩])]
    [[("t", .timestamp 3 5), ("a", .array [.double ⟨0⟩])]]
    rfl (by decide +kernel) (by decide) (by decide)
  obtain ⟨c, hc, -, -, hsample⟩ := hchunk none body hcontent
  refine ⟨body, c, hbody, hc, hsample 1 _ rfl rfl ?_⟩
  intro metric x hx
  rcases metric with _ | _ | _ | metric <;> simp [Document.readings, Value.readings,
    Value.readingsOfItems] at hx
  subst hx
  exact ⟨by decide, by simp [Document.readings, Value.readings, Value.readingsOfItems]⟩

end Window

end Telemetry
