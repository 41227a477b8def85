import Mathlib.Data.List.Basic
import Telemetry.Fingerprint
import Telemetry.Proofs.Collector.Window
import Telemetry.Proofs.Metric

/-!
# What a fingerprint says of a schema

The bytes behind a fingerprint are the dotted keys of a sample's metric-bearing fields, each closed by a zero byte. If
no key has a zero byte in it, the keys can be read off the bytes (`Document.map_key_of_schemaBytes`); and if no segment
has a dot in it either, so can the paths (`Document.map_path_of_map_key`). The types are not among the bytes. They
follow from the types of the readings, although a timestamp is one field and two readings (`Document.map_type_of_types`).
The number of readings is in the fingerprint beside the digest (`Document.count_fingerprint`).

Without these conditions the bytes do not tell: a key `a.b` is one segment, or two.
-/

namespace Telemetry

/-! ## Bytes of texts -/

theorem textBytes_inj {s t : String} (h : textBytes s = textBytes t) : s = t := by
  have hs := Utf8.decode_textBytes s
  rw [h, Utf8.decode_textBytes] at hs
  exact (Except.ok.inj hs).symm

/-- The character whose UTF-8 form is a zero byte. -/
def nul : Char :=
  Char.ofNat 0

theorem eq_nul_of_zero_mem {c : Char} (h : 0 ∈ String.utf8EncodeChar c) : c = nul := by
  suffices hzero : c.val.toNat = 0 from Char.ext (UInt32.toNat_inj.mp hzero)
  rw [String.utf8EncodeChar] at h
  generalize c.val.toNat = v at h ⊢
  have hbyte {n : Nat} (hn : (0 : UInt8) = UInt8.ofNat n) : n % 256 = 0 := by
    simpa using (congrArg UInt8.toNat hn).symm
  -- the bytes of a longer form have a high bit each
  split at h
  · have hn := hbyte (List.mem_singleton.mp h)
    omega
  · split at h
    · simp only [List.mem_cons, List.not_mem_nil, or_false] at h
      rcases h with h | h <;> (have hn := hbyte h; omega)
    · split at h <;> simp only [List.mem_cons, List.not_mem_nil, or_false] at h
      · rcases h with h | h | h <;> (have hn := hbyte h; omega)
      · rcases h with h | h | h | h <;> (have hn := hbyte h; omega)

/-- A text has a zero byte only for a character that is one. -/
theorem zero_notMem_textBytes {s : String} (h : nul ∉ s.toList) : 0 ∉ textBytes s := by
  intro hzero
  rw [textBytes, ← String.utf8Encode_toList, List.utf8Encode, List.data_toByteArray, List.mem_flatMap] at hzero
  obtain ⟨c, hc, hbyte⟩ := hzero
  exact h (eq_nul_of_zero_mem hbyte ▸ hc)

/-! ## Joining and closing -/

/-- A zero byte that follows bytes without zeros shows where they end. -/
theorem append_zero_inj {x y u v : Bytes} (hx : 0 ∉ x) (hy : 0 ∉ y) (h : x ++ 0 :: u = y ++ 0 :: v) :
    x = y ∧ u = v := by
  rcases List.append_eq_append_iff.mp h with ⟨between, rfl, hrest⟩ | ⟨between, rfl, hrest⟩
  all_goals
    cases between with
    | nil => simpa [eq_comm] using hrest
    | cons b between =>
      obtain ⟨rfl, -⟩ := List.cons.inj hrest
      simp at hx hy

/-- Bytes without zeros can be told apart when each is closed by one. -/
theorem flatMap_closed_inj {xs ys : List Bytes} (hx : ∀ x ∈ xs, 0 ∉ x) (hy : ∀ y ∈ ys, 0 ∉ y)
    (h : xs.flatMap (· ++ [0]) = ys.flatMap (· ++ [0])) : xs = ys := by
  induction xs generalizing ys with
  | nil =>
    cases ys with
    | nil => rfl
    | cons y ys => simp at h
  | cons x xs ih =>
    cases ys with
    | nil => simp at h
    | cons y ys =>
      rw [List.flatMap_cons, List.flatMap_cons, List.append_assoc, List.append_assoc, List.singleton_append,
        List.singleton_append] at h
      obtain ⟨rfl, hmore⟩ := append_zero_inj (hx x List.mem_cons_self) (hy y List.mem_cons_self) h
      rw [ih (fun z hz => hx z (List.mem_cons_of_mem _ hz)) (fun z hz => hy z (List.mem_cons_of_mem _ hz)) hmore]

/-- Segments without dots can be told apart when they are joined by dots. -/
theorem intercalate_dot_inj {xs ys : List String} (hxs : xs ≠ []) (hys : ys ≠ [])
    (hx : ∀ x ∈ xs, '.' ∉ x.toList) (hy : ∀ y ∈ ys, '.' ∉ y.toList)
    (h : ".".intercalate xs = ".".intercalate ys) : xs = ys := by
  have hchars := congrArg String.toList h
  rw [String.toList_intercalate, String.toList_intercalate] at hchars
  have hsplit := congrArg (List.splitOn '.') hchars
  rw [show ".".toList = ['.'] from rfl, List.splitOn_intercalate _ (by simpa using hx) (by simpa using hxs),
    List.splitOn_intercalate _ (by simpa using hy) (by simpa using hys)] at hsplit
  exact List.map_injective_iff.mpr (fun _ _ => String.toList_inj.mp) hsplit

/-- A character other than the dot is in joined segments only if it is in one of them. -/
theorem exists_mem_of_mem_intercalate_dot {c : Char} (hc : c ≠ '.') : ∀ {xs : List String},
    c ∈ (".".intercalate xs).toList → ∃ x ∈ xs, c ∈ x.toList
  | [], h => by simp at h
  | [x], h => ⟨x, by simp, by simpa using h⟩
  | x :: y :: xs, h => by
    rw [String.intercalate_cons_cons, String.toList_append, String.toList_append, List.mem_append,
      List.mem_append] at h
    rcases h with (h | h) | h
    · exact ⟨x, by simp, h⟩
    · exact absurd (List.mem_singleton.mp h) hc
    · obtain ⟨z, hz, hmem⟩ := exists_mem_of_mem_intercalate_dot hc h
      exact ⟨z, List.mem_cons_of_mem _ hz, hmem⟩

/-- What can be told from one thing of each item, item by item, can be told from the list of these things. -/
theorem map_eq_of_map_eq {α β γ : Type} {f : α → β} {g : α → γ} {xs ys : List α}
    (htell : ∀ x ∈ xs, ∀ y ∈ ys, f x = f y → g x = g y) (h : xs.map f = ys.map f) : xs.map g = ys.map g := by
  induction xs generalizing ys with
  | nil =>
    cases ys with
    | nil => rfl
    | cons y ys => simp at h
  | cons x xs ih =>
    cases ys with
    | nil => simp at h
    | cons y ys =>
      obtain ⟨hhead, hmore⟩ := List.cons.inj h
      rw [List.map_cons, List.map_cons, htell x List.mem_cons_self y List.mem_cons_self hhead,
        ih (fun a ha b hb => htell a (List.mem_cons_of_mem _ ha) b (List.mem_cons_of_mem _ hb)) hmore]

/-! ## Fields -/

/-- Each type so often as it has series. -/
def MetricType.spread (types : List MetricType) : List MetricType :=
  types.flatMap fun type => List.replicate type.width type

theorem MetricType.spread_inj {types types' : List MetricType} (h : spread types = spread types') :
    types = types' := by
  induction types generalizing types' with
  | nil =>
    cases types' with
    | nil => rfl
    | cons type types' => cases type <;> simp [spread, width] at h
  | cons type types ih =>
    cases types' with
    | nil => cases type <;> simp [spread, width] at h
    | cons type' types' =>
      have hhead : type = type' := by
        have hfirst := congrArg List.head? h
        cases type <;> cases type' <;> simp [spread, width] at hfirst ⊢
      subst hhead
      rw [spread, spread, List.flatMap_cons, List.flatMap_cons, List.append_cancel_left_eq] at h
      rw [ih h]

theorem MetricType.length_spread_cons (type : MetricType) (types : List MetricType) :
    (spread (type :: types)).length = type.width + (spread types).length := by
  rw [spread, List.flatMap_cons, List.length_append, List.length_replicate]
  rfl

namespace Document

/-- No segment on the way to a metric-bearing field has the character. -/
def NoSegmentHas (c : Char) (d : Document) : Prop :=
  ∀ f ∈ Document.metricFields d, ∀ segment ∈ f.path, c ∉ segment.toList

/-- The dotted keys and the types of the metric-bearing fields. -/
def keyedTypes (d : Document) : List (String × MetricType) :=
  (Document.metricFields d).map fun f => (f.key, f.type)

/-- The paths and the types of the metric-bearing fields. -/
def places (d : Document) : List (List String × MetricType) :=
  (Document.metricFields d).map MetricField.place

/-- The types of the readings are those of the fields, each so often as it has series. -/
theorem types_eq_spread (d : Document) : types d = MetricType.spread ((Document.metricFields d).map MetricField.type) := by
  rw [types, ← Document.flatMap_readings, List.map_flatMap, MetricType.spread, List.flatMap_map]
  refine List.flatMap_congr fun f hf => ?_
  have htype := Document.metricType?_of_mem_metricFields d f hf
  cases hvalue : f.value <;> simp [hvalue, Value.metricType?] at htype <;> rw [← htype] <;> rfl

/-- A fingerprint has the number of metrics in it. -/
theorem count_fingerprint (d : Document) : d.fingerprint.count = d.types.length := by
  rw [types_eq_spread]
  show seriesCount (Document.metricFields d) = _
  induction Document.metricFields d with
  | nil => rfl
  | cons f fields ih => rw [seriesCount, ih, List.map_cons, MetricType.length_spread_cons]

/-- Samples with readings of the same types have fields of the same types. -/
theorem map_type_of_types {d e : Document} (h : types d = types e) :
    (Document.metricFields d).map MetricField.type = (Document.metricFields e).map MetricField.type := by
  rw [types_eq_spread, types_eq_spread] at h
  exact MetricType.spread_inj h

/-- Every field of a document stands under a key. -/
theorem path_ne_nil {d : Document} {f : MetricField} (hf : f ∈ Document.metricFields d) : f.path ≠ [] := by
  induction d with
  | nil => simp [Document.metricFields] at hf
  | cons field d ih =>
    rw [Document.metricFields, List.mem_append, List.mem_map] at hf
    rcases hf with ⟨g, -, rfl⟩ | hf
    · exact List.cons_ne_nil _ _
    · exact ih hf

theorem nul_notMem_key {d : Document} (h : d.NoSegmentHas nul) {f : MetricField} (hf : f ∈ Document.metricFields d) :
    nul ∉ f.key.toList := by
  intro hmem
  obtain ⟨segment, hsegment, hnul⟩ := exists_mem_of_mem_intercalate_dot (by decide) hmem
  exact h f hf segment hsegment hnul

/-- The dotted keys can be read off the bytes of a schema. -/
theorem map_key_of_schemaBytes {d e : Document} (hd : d.NoSegmentHas nul) (he : e.NoSegmentHas nul)
    (h : schemaBytes (Document.metricFields d) = schemaBytes (Document.metricFields e)) :
    (Document.metricFields d).map MetricField.key = (Document.metricFields e).map MetricField.key := by
  have hclosed (d : Document) : schemaBytes (Document.metricFields d) =
      (((Document.metricFields d).map MetricField.key).map textBytes).flatMap (· ++ [0]) := by
    rw [schemaBytes, List.flatMap_map, List.flatMap_map]
  have hfree {d : Document} (hd : d.NoSegmentHas nul) :
      ∀ x ∈ ((Document.metricFields d).map MetricField.key).map textBytes, 0 ∉ x := by
    simp only [List.map_map, List.mem_map, Function.comp_apply]
    rintro - ⟨f, hf, rfl⟩
    exact zero_notMem_textBytes (nul_notMem_key hd hf)
  rw [hclosed, hclosed] at h
  exact List.map_injective_iff.mpr (fun _ _ => textBytes_inj) (flatMap_closed_inj (hfree hd) (hfree he) h)

/-- The paths can be read off the dotted keys. -/
theorem map_path_of_map_key {d e : Document} (hd : d.NoSegmentHas '.') (he : e.NoSegmentHas '.')
    (h : (Document.metricFields d).map MetricField.key = (Document.metricFields e).map MetricField.key) :
    (Document.metricFields d).map MetricField.path = (Document.metricFields e).map MetricField.path :=
  map_eq_of_map_eq (fun _ hf _ hg hkey =>
    intercalate_dot_inj (path_ne_nil hf) (path_ne_nil hg) (hd _ hf) (he _ hg) hkey) h

/-! ## Schemas that are the same as far as the bytes tell -/

/-- Samples with metrics of the same types, behind whose fingerprints are the same bytes. -/
structure SameSchema (d e : Document) : Prop where
  types_eq : (Document.metricFields d).map MetricField.type = (Document.metricFields e).map MetricField.type
  bytes_eq : schemaBytes (Document.metricFields d) = schemaBytes (Document.metricFields e)

namespace SameSchema

variable {d e : Document}

/-- The fields have the same dotted keys and the same types, if no key has a zero byte. -/
theorem keyedTypes_eq (h : d.SameSchema e) (hd : d.NoSegmentHas nul) (he : e.NoSegmentHas nul) :
    d.keyedTypes = e.keyedTypes := by
  have hzip (d : Document) : d.keyedTypes =
      ((Document.metricFields d).map MetricField.key).zip ((Document.metricFields d).map MetricField.type) :=
    List.zip_map'.symm
  rw [hzip, hzip, h.types_eq, map_key_of_schemaBytes hd he h.bytes_eq]

/-- The fields stand in the same places and have the same types, if no segment has a zero byte or a dot. -/
theorem places_eq (h : d.SameSchema e) (hd : d.NoSegmentHas nul ∧ d.NoSegmentHas '.')
    (he : e.NoSegmentHas nul ∧ e.NoSegmentHas '.') : d.places = e.places := by
  have hzip (d : Document) : d.places =
      ((Document.metricFields d).map MetricField.path).zip ((Document.metricFields d).map MetricField.type) :=
    List.zip_map'.symm
  rw [hzip, hzip, h.types_eq, map_path_of_map_key hd.2 he.2 (map_key_of_schemaBytes hd.1 he.1 h.bytes_eq)]

end SameSchema

/-- The dotted keys are told by the places of the fields. -/
theorem keyedTypes_of_places {d e : Document} (h : d.places = e.places) : d.keyedTypes = e.keyedTypes := by
  have hkeys := congrArg (List.map fun place => (".".intercalate place.1, place.2)) h
  rwa [places, places, List.map_map, List.map_map] at hkeys

end Document

/-! ## Digests that tell bytes apart -/

namespace Crc32

/-- No two different byte strings of a list have one checksum. -/
def Separates (texts : List Bytes) : Prop :=
  ∀ x ∈ texts, ∀ y ∈ texts, checksum x = checksum y → x = y

end Crc32

namespace Document

/-- The byte strings behind the fingerprints of samples. -/
def hashed (samples : List Document) : List Bytes :=
  samples.map fun d => schemaBytes (Document.metricFields d)

/-- Samples with one fingerprint and readings of the same types have the same schema, unless the digests of their
schemas collide. -/
theorem sameSchema_of_fingerprint {samples : List Document} (hcrc : Crc32.Separates (hashed samples)) {d e : Document}
    (hd : d ∈ samples) (he : e ∈ samples) (hfingerprint : d.fingerprint = e.fingerprint)
    (htypes : types d = types e) : d.SameSchema e where
  types_eq := map_type_of_types htypes
  bytes_eq := hcrc _ (List.mem_map_of_mem hd) _ (List.mem_map_of_mem he) (congrArg Fingerprint.digest hfingerprint)

end Document

end Telemetry
