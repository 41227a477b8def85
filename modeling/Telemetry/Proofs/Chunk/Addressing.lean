import Telemetry.Proofs.Chunk.Shapes
import Telemetry.Proofs.Document.Canonical
import Telemetry.Proofs.Document.Paths

/-!
# Dotted keys are paths into the samples

The keys of a flattened sample are paths into the structured one: under each key, what is found there is the value
that the flattened sample has (`Chunk.getPath?_flattened`). This asks for keys that can be told apart after they
were joined with dots, that is for distinct keys without dots at every level of the reference. Arrays are no
concern, for a reference that was read is too small to have positions beyond 64 bits
(`Chunk.size_reference_lt_of_ofBody`).
-/

namespace Telemetry.Chunk

variable {metadata? : Option Document} {c : Chunk}

/-- The reference of a chunk that was decoded fits its length field. -/
theorem size_reference_lt_of_ofBody {body : Bytes} (h : ofBody metadata? body = .ok c) :
    c.reference.size < UInt32.size := by
  obtain ⟨payload, -, hpayload⟩ := exists_of_ofBody h
  obtain ⟨reference, used, _, _, _, _, hreference, -, -, -, rfl⟩ := exists_of_ofPayload hpayload
  obtain ⟨rfl, hlow, hhigh, hbody⟩ := Document.decode_eq_ok_iff.mp hreference
  exact Document.size_lt_of_front (Nat.le_trans hlow hhigh) hbody hlow

/-- Of a chunk that was decoded, whose reference has at every level distinct keys without dots, each sample can be
given flattened and structured, and the value under each key of the flattened sample is the value that the key leads
to in the structured one. -/
theorem getPath?_flattened {body : Bytes} (h : ofBody metadata? body = .ok c)
    (hdistinct : (Value.document c.reference).Everywhere Value.KeysDistinct)
    (hkeys : (Value.document c.reference).Everywhere (Value.NoKeyHas '.')) {i : Nat} (hi : i < c.length) :
    ∃ flat d, c.flattened i = .ok flat ∧ c.structured i = .ok d ∧
      ∀ key v, (key, v) ∈ flat → d.getPath? key = some v := by
  have hstep := inStep_of_ofBody h
  obtain ⟨d, hd, hrestores⟩ := hstep.exists_structured_eq hi
  -- the sample has the outline of the reference, and keys and lengths of arrays are part of the outline
  have houtline := hrestores.outline_eq.symm
  have hdistinct' := Document.everywhere_of_outline Value.keysDistinct_outline houtline hdistinct
  have hkeys' := Document.everywhere_of_outline (Value.noKeyHas_outline '.') houtline hkeys
  have hshort' := Document.everywhere_of_outline Value.isShort_outline houtline
    (Document.everywhere_isShort_of_size (size_reference_lt_of_ofBody h))
  refine ⟨_, d, hstep.flattened_eq hi hd, hd, ?_⟩
  intro key v hmem
  obtain ⟨f, hf, hpair⟩ := List.mem_map.mp hmem
  obtain ⟨rfl, rfl⟩ := Prod.mk.inj hpair
  exact Document.getPath?_key hdistinct' hkeys' hshort' hf

set_option maxRecDepth 2000 in
/-- A truth value in a document under the key `0`, which is the second item of an array under the empty key. -/
theorem getPath?_flattened_nested :
    ∃ body c flat d, ofBody none body = .ok c ∧ c.flattened 1 = .ok flat ∧ c.structured 1 = .ok d ∧
      flat = [(".1.0", .boolean true)] ∧ d.getPath? ".1.0" = some (.boolean true) := by
  have hbody : ofBody none [71, 0, 0, 0, 120, 1, 1, 71, 0, 184, 255, 62, 0, 0, 0, 1, 0, 0, 0, 0, 0, 0, 0, 0, 0, 0, 0, 0,
      0, 0, 0, 11, 0, 0, 0, 2, 0, 0, 0, 0, 0, 0, 0, 9, 0, 0, 0, 10, 0, 0, 0, 1, 0, 0, 0, 0, 0, 0, 0, 1, 0, 0, 0, 0, 0,
      0, 0, 48, 0, 0, 0, 0, 0, 1, 0, 0, 0, 1, 0, 0, 0, 1, 26, 29, 0, 149] =
      .ok ⟨[("", .array [.null, .document [("0", .boolean false)]])], none,
        [⟨⟨["", "1", "0"], .boolean, 0⟩, #[0, 1]⟩], 1⟩ := by
    with_unfolding_all rfl
  obtain ⟨flat, d, hflat, hd, hpath⟩ := getPath?_flattened (i := 1) hbody
    (by simp [Value.Everywhere, Document.EverywhereInFields, Value.EverywhereInItems, Value.KeysDistinct, Document.keys])
    (by simp [Value.Everywhere, Document.EverywhereInFields, Value.EverywhereInItems, Value.NoKeyHas, Document.keys])
    (by decide)
  have heq : flat = [(".1.0", .boolean true)] := (Except.ok.inj hflat).symm
  exact ⟨_, _, flat, d, hbody, hflat, hd, heq, hpath _ _ (by rw [heq]; exact List.mem_cons_self)⟩

end Telemetry.Chunk
