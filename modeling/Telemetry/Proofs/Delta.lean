import Mathlib.Data.List.Nodup
import Telemetry.Proofs.Delta.Grammar

/-!
# Reading back a delta stream

Columns come back from the stream that was written for them, whatever follows it (`decode_flatMap`), out of
a buffer in which more may stand (`reads_back_columns`), and the values of a series are the sums of the
deltas so far (`getElem?_runningSums`). Columns that are read have the length asked for, also when nobody
wrote them (`length_of_decode`). In a buffer, the sample and the metric tell one slot from another (`offset_inj`,
`nodup_slots`).

## Shape of the proof

The writer counts zeros and the reader expands tokens, so the two are compared at the ends of runs:
`decodeColumn_encodeFrom` speaks of a column before which `zeros` zeros have been counted and not been
written. A run is one token of the grammar (`decodeColumn_zeroRun`) and so is a delta that is not zero
(`decodeColumn_encode`); everything else is induction on the column, and then on the columns. The
lengths of what is read are those of the grammar.
-/

namespace Telemetry.Delta

/-! ## Tokens -/

/-- A delta that is not zero is one token. -/
theorem decodeColumn_encode {d : Int64} (hd : d ≠ 0) {metric count : Nat} {bytes rest : Bytes}
    {deltas : List Int64} (h : decodeColumn metric count bytes = .ok (deltas, rest)) :
    decodeColumn metric (count + 1) (Varint.encode d.toUInt64 ++ bytes) =
      .ok (d :: deltas, rest) := by
  have htoken : (Token.delta d hd).Spelt (Varint.encode d.toUInt64) := .delta (Varint.spells_encode _)
  rw [decodeColumn_token htoken metric (by simp [Token.deltas])]
  simp [Token.deltas, h, Except.map]

/-- A run of zeros is one token, however long it is. -/
theorem decodeColumn_zeroRun {zeros metric count : Nat} {bytes rest : Bytes} {deltas : List Int64}
    (hzeros : zeros ≤ UInt64.size) (h : decodeColumn metric count bytes = .ok (deltas, rest)) :
    decodeColumn metric (zeros + count) (zeroRun zeros ++ bytes) =
      .ok (List.replicate zeros 0 ++ deltas, rest) := by
  by_cases hz : zeros = 0
  · subst hz
    simpa [zeroRun] using h
  · have hrun : (UInt64.ofNat (zeros - 1)).toNat + 1 = zeros := by
      rw [UInt64.toNat_ofNat_of_lt' (by omega)]
      omega
    have htoken : (Token.zeros (UInt64.ofNat (zeros - 1))).Spelt (zeroRun zeros) := by
      rw [zeroRun, if_neg hz]
      exact .zeros (Varint.spells_encode 0) (Varint.spells_encode _)
    have hdeltas : (Token.zeros (UInt64.ofNat (zeros - 1))).deltas = List.replicate zeros 0 := by
      rw [Token.deltas, hrun]
    rw [decodeColumn_token htoken metric (by simp [hdeltas]), hdeltas, List.length_replicate,
      Nat.add_sub_cancel_left, h]
    rfl

/-! ## Columns -/

/-- Zeros alone are written as one run, together with those that were counted before them. -/
theorem encodeFrom_replicate (zeros n : Nat) : encodeFrom zeros (List.replicate n 0) = zeroRun (zeros + n) := by
  induction n generalizing zeros with
  | zero => rfl
  | succ n ih => rw [List.replicate_succ, encodeFrom, if_pos rfl, ih, Nat.add_assoc, Nat.add_comm 1 n]

/-- A column comes back, the zeros that were counted before it in front. -/
theorem decodeColumn_encodeFrom (metric zeros : Nat) {deltas : List Int64}
    (hsize : zeros + deltas.length ≤ UInt64.size) (rest : Bytes) :
    decodeColumn metric (zeros + deltas.length) (encodeFrom zeros deltas ++ rest) =
      .ok (List.replicate zeros 0 ++ deltas, rest) := by
  induction deltas generalizing zeros with
  | nil =>
    have hend : decodeColumn metric 0 rest = .ok ([], rest) := by
      rw [decodeColumn, dif_pos rfl]
    exact decodeColumn_zeroRun (by omega) hend
  | cons d deltas ih =>
    rw [List.length_cons] at hsize
    rw [encodeFrom]
    by_cases hd : d = 0
    · -- a zero joins the run in progress, and is at the end of it when that is written
      have hmore := ih (zeros + 1) (by omega)
      rw [if_pos hd, List.length_cons, hd]
      rw [show zeros + 1 + deltas.length = zeros + (deltas.length + 1) by omega,
        List.replicate_succ'] at hmore
      simpa using hmore
    · -- any other delta ends the run, and a new one begins after it
      have hmore := ih 0 (by omega)
      rw [Nat.zero_add, List.replicate_zero, List.nil_append] at hmore
      rw [if_neg hd, List.append_assoc, List.append_assoc, List.length_cons]
      exact decodeColumn_zeroRun (by omega) (decodeColumn_encode hd hmore)

/-- A column comes back. -/
theorem decodeColumn_encodeColumn (metric : Nat) {deltas : List Int64}
    (hsize : deltas.length ≤ UInt64.size) (rest : Bytes) :
    decodeColumn metric deltas.length (encodeColumn deltas ++ rest) = .ok (deltas, rest) := by
  have h := decodeColumn_encodeFrom metric 0 (by omega : 0 + deltas.length ≤ UInt64.size) rest
  simpa [encodeColumn] using h

/-- Columns of one length come back one after the other. -/
theorem decodeColumns_flatMap {count : Nat} (hcount : count ≤ UInt64.size) (rest : Bytes) :
    ∀ (columns : List (List Int64)) (metric : Nat), (∀ c ∈ columns, c.length = count) →
      decodeColumns count columns.length metric (columns.flatMap encodeColumn ++ rest) =
        .ok (columns, rest)
  | [], _, _ => rfl
  | c :: columns, metric, h => by
    have hlen : c.length = count := h c (by simp)
    have hc := decodeColumn_encodeColumn metric (by omega : c.length ≤ UInt64.size)
      (columns.flatMap encodeColumn ++ rest)
    have hmore := decodeColumns_flatMap hcount rest columns (metric + 1)
      fun c' hc' => h c' (by simp [hc'])
    rw [hlen] at hc
    rw [List.length_cons, List.flatMap_cons, List.append_assoc, decodeColumns]
    simp only [hc, hmore]

/-- Columns of one length come back from the stream that holds them, whatever follows it, if they are
within the limits of a chunk. -/
theorem decode_flatMap {count : Nat} {columns : List (List Int64)} (rest : Bytes)
    (hlen : ∀ c ∈ columns, c.length = count) (hvalues : columns.length * count ≤ maxChunkValues)
    (hcount : count ≤ maxChunkValues) :
    decode columns.length count (columns.flatMap encodeColumn ++ rest) = .ok (columns, rest) := by
  have hsize : count ≤ UInt64.size := Nat.le_trans hcount (by decide)
  rw [decode, if_pos ⟨hvalues, hcount⟩]
  exact decodeColumns_flatMap hsize rest columns 0 hlen

/-! ## What is read, whatever was written -/

/-- As many columns are read as are asked for, all of the length asked for. -/
theorem length_of_decodeColumns {count left metric : Nat} {bytes rest : Bytes} {columns : List (List Int64)}
    (h : decodeColumns count left metric bytes = .ok (columns, rest)) :
    columns.length = left ∧ ∀ c ∈ columns, c.length = count := by
  obtain ⟨groups, -, hlength, hgroups⟩ := decodeColumns_eq_ok_iff.mp h
  refine ⟨hgroups.length_eq ▸ hlength, fun c hc => ?_⟩
  obtain ⟨i, hi, rfl⟩ := List.mem_iff_getElem.mp hc
  exact (hgroups.get (hgroups.length_eq ▸ hi) hi).1

/-- Columns that are decoded are within the limits of a chunk. -/
theorem limits_of_decode {metrics deltas : Nat} {bytes rest : Bytes} {columns : List (List Int64)}
    (h : decode metrics deltas bytes = .ok (columns, rest)) :
    metrics * deltas ≤ maxChunkValues ∧ deltas ≤ maxChunkValues := by
  by_cases hlimits : metrics * deltas ≤ maxChunkValues ∧ deltas ≤ maxChunkValues
  · exact hlimits
  · rw [decode, if_neg hlimits] at h
    simp at h

/-- A stream that is read holds the columns asked for. -/
theorem length_of_decode {metrics deltas : Nat} {bytes rest : Bytes} {columns : List (List Int64)}
    (h : decode metrics deltas bytes = .ok (columns, rest)) :
    columns.length = metrics ∧ ∀ c ∈ columns, c.length = deltas := by
  rw [decode] at h
  split at h
  · exact length_of_decodeColumns h
  · simp at h

/-! ## Running sums -/

theorem runningSums_foldl (deltas : List Int64) (last : Int64) (sums : Array Int64) :
    (deltas.foldl (fun (last, sums) d => (last + d, sums.push (last + d))) (last, sums)).2.toList =
      sums.toList ++ (deltas.scanl (· + ·) last).tail := by
  induction deltas generalizing last sums with
  | nil => simp
  | cons d deltas ih =>
    rw [List.foldl_cons, ih]
    cases deltas <;> simp

/-- The running sums are the start and the sums of ever more deltas. -/
theorem toList_runningSums (start : Int64) (deltas : List Int64) :
    (runningSums start deltas).toList = deltas.scanl (· + ·) start := by
  rw [runningSums, runningSums_foldl]
  cases deltas <;> simp

/-- There is one value more than there are deltas. -/
@[simp] theorem size_runningSums (start : Int64) (deltas : List Int64) :
    (runningSums start deltas).size = deltas.length + 1 := by
  rw [← Array.length_toList, toList_runningSums, List.length_scanl]

/-- Value `i` of a series is the start plus the first `i` deltas. -/
theorem getElem?_runningSums {start : Int64} {deltas : List Int64} {i : Nat}
    (hi : i ≤ deltas.length) :
    (runningSums start deltas)[i]? = some ((deltas.take i).foldl (· + ·) start) := by
  rw [← Array.getElem?_toList, toList_runningSums, List.getElem?_scanl, if_pos hi]

/-! ## The buffer -/

namespace Buffer

@[simp] theorem size_set (b : Buffer) (slot : Nat) (delta : Int64) :
    (b.set slot delta).size = b.size := by
  rw [set]
  split <;> rfl

/-- A slot holds what was put into it last. -/
theorem get_set {b : Buffer} {slot : Nat} (h : slot < b.size) (delta : Int64) (other : Nat) :
    (b.set slot delta).get other = if slot = other then delta else b.get other := by
  rw [set, if_pos h, get, get, Std.TreeMap.getD_insert]
  simp

/-- Putting a delta into a slot leaves the other slots alone. -/
theorem get_set_of_ne {b : Buffer} {slot other : Nat} (h : slot ≠ other) (delta : Int64) :
    (b.set slot delta).get other = b.get other := by
  by_cases hslot : slot < b.size
  · rw [get_set hslot, if_neg h]
  · rw [set, if_neg hslot]

/-- The buffer with deltas put into slots, one after the other. -/
def write (b : Buffer) (entries : List (Nat × Int64)) : Buffer :=
  entries.foldl (fun buffer entry => buffer.set entry.1 entry.2) b

theorem write_append (b : Buffer) (entries more : List (Nat × Int64)) :
    b.write (entries ++ more) = (b.write entries).write more :=
  List.foldl_append

/-- The slots of a buffer in order. -/
def toList (b : Buffer) : List Int64 :=
  (List.range b.size).map b.get

@[simp] theorem length_toList (b : Buffer) : b.toList.length = b.size := by
  simp [toList]

@[simp] theorem toList_ofList (deltas : List Int64) : (ofList deltas).toList = deltas := by
  have hkeys : (deltas.zipIdx.map fun p => (p.2, p.1)).Pairwise fun a b => ¬ compare a.1 b.1 = .eq := by
    rw [List.pairwise_map, List.pairwise_iff_getElem]
    intro i j hi hj hij
    simp only [List.getElem_zipIdx, Nat.compare_eq_eq]
    omega
  refine List.ext_getElem (by simp [ofList]) fun i _ hi => ?_
  have hmem : (i, deltas[i]) ∈ deltas.zipIdx.map fun p => (p.2, p.1) :=
    List.mem_map.mpr ⟨(deltas[i], i), List.mk_mem_zipIdx_iff_getElem?.mpr (List.getElem?_eq_getElem hi), rfl⟩
  have hget : (ofList deltas).get i = deltas[i] := Std.TreeMap.getD_ofList_of_mem (Nat.compare_eq_eq.mpr rfl) hkeys hmem
  simp [toList, hget]

end Buffer

/-- Slots of different samples or metrics are different. -/
theorem offset_inj {stride sample metric sample' metric' : Nat} (h : sample < stride)
    (h' : sample' < stride) :
    offset stride sample metric = offset stride sample' metric' ↔
      sample = sample' ∧ metric = metric' := by
  constructor
  · intro heq
    have hmod := congrArg (· % stride) heq
    have hdiv := congrArg (· / stride) heq
    simp only [offset, Nat.mul_comm _ stride, Nat.mul_add_mod, Nat.mod_eq_of_lt h,
      Nat.mod_eq_of_lt h'] at hmod
    have hpos : 0 < stride := by omega
    simp only [offset, Nat.mul_comm _ stride, Nat.mul_add_div hpos, Nat.div_eq_of_lt h,
      Nat.div_eq_of_lt h', Nat.add_zero] at hdiv
    exact ⟨hmod, hdiv⟩
  · rintro ⟨rfl, rfl⟩
    rfl

/-- The slots of a metric lie inside a buffer with a column for it. -/
theorem offset_lt {stride sample metric metrics : Nat} (h : sample < stride) (hm : metric < metrics) :
    offset stride sample metric < stride * metrics := by
  have hcolumn : (metric + 1) * stride ≤ metrics * stride := Nat.mul_le_mul_right stride hm
  rw [Nat.add_mul, Nat.one_mul] at hcolumn
  rw [offset, Nat.mul_comm stride]
  omega

/-- The slots of the first samples, one of each metric for every sample, are all different. -/
theorem nodup_slots {stride samples : Nat} (hsamples : samples ≤ stride) (metrics : Nat) :
    ((List.range samples).flatMap fun sample => (List.range metrics).map (offset stride sample)).Nodup := by
  rw [List.nodup_flatMap]
  constructor
  · intro sample hsample
    have hlt : sample < stride := Nat.lt_of_lt_of_le (List.mem_range.mp hsample) hsamples
    exact List.nodup_range.map_on fun metric _ metric' _ heq => ((offset_inj hlt hlt).mp heq).2
  · refine List.nodup_range.imp_of_mem fun {sample sample'} hsample hsample' hne slot hslot hslot' => ?_
    obtain ⟨metric, -, rfl⟩ := List.mem_map.mp hslot
    obtain ⟨metric', -, heq⟩ := List.mem_map.mp hslot'
    have hlt : sample < stride := Nat.lt_of_lt_of_le (List.mem_range.mp hsample) hsamples
    have hlt' : sample' < stride := Nat.lt_of_lt_of_le (List.mem_range.mp hsample') hsamples
    exact hne ((offset_inj hlt hlt').mp heq.symm).1

/-- Counted in words of 64 bits a slot is the same, if the slots of all columns can be counted in them. -/
theorem toNat_word_offset {stride metrics sample metric : Nat} (hfits : stride * metrics < UInt64.size)
    (hsample : sample < stride) (hmetric : metric < metrics) :
    (UInt64.ofNat metric * UInt64.ofNat stride + UInt64.ofNat sample).toNat = offset stride sample metric := by
  rw [← UInt64.ofNat_mul, ← UInt64.ofNat_add]
  exact UInt64.toNat_ofNat_of_lt' (Nat.lt_trans (offset_lt hsample hmetric) hfits)

/-- A stream is told by the slots of its columns: what stands past them is not read. -/
theorem encode_congr {slots slots' : Nat → Int64} {stride metrics samples : Nat} (hsamples : samples ≤ stride)
    (h : ∀ slot < stride * metrics, slots slot = slots' slot) :
    encode slots stride metrics samples = encode slots' stride metrics samples := by
  refine List.flatMap_congr fun metric hmetric => congrArg encodeColumn (List.map_congr_left fun sample hsample => ?_)
  have hlt : sample < stride := Nat.lt_of_lt_of_le (List.mem_range.mp hsample) hsamples
  exact h _ (offset_lt hlt (List.mem_range.mp hmetric))

/-! ## A buffer that comes back -/

/-- A column is the part of the buffer in which the first deltas of the metric stand. -/
theorem column_get {b : Buffer} {stride metrics samples metric : Nat} (hsamples : samples ≤ stride)
    (hsize : metrics * stride ≤ b.size) (hmetric : metric < metrics) :
    column b.get stride samples metric = (b.toList.drop (metric * stride)).take samples := by
  have hcolumn : (metric + 1) * stride ≤ metrics * stride := Nat.mul_le_mul_right stride hmetric
  rw [Nat.add_mul, Nat.one_mul] at hcolumn
  refine List.ext_getElem ?_ fun i hi hi' => ?_
  · rw [List.length_take, List.length_drop, Buffer.length_toList, column, List.length_map, List.length_range]
    omega
  · simp [column, offset, Buffer.toList]

/-- From the stream that is written for a buffer, whatever follows it, exactly the first deltas of each column are
read, and what follows is left. The slots past them may hold anything. -/
theorem reads_back_columns {b : Buffer} {stride metrics samples : Nat} (hsamples : samples ≤ stride)
    (hsize : metrics * stride ≤ b.size) (hvalues : metrics * samples ≤ maxChunkValues)
    (hcount : samples ≤ maxChunkValues) (tail : Bytes) :
    decode metrics samples (encode b.get stride metrics samples ++ tail) =
      .ok ((List.range metrics).map fun metric => (b.toList.drop (metric * stride)).take samples, tail) := by
  have hcolumns : (List.range metrics).map (column b.get stride samples) =
      (List.range metrics).map fun metric => (b.toList.drop (metric * stride)).take samples :=
    List.map_congr_left fun metric hmetric => column_get hsamples hsize (List.mem_range.mp hmetric)
  have hlength : ∀ c ∈ (List.range metrics).map (column b.get stride samples), c.length = samples := by
    simp [column]
  have hread := decode_flatMap tail hlength (by simpa using hvalues) hcount
  rwa [List.length_map, List.length_range, List.flatMap_map, hcolumns] at hread

/-- Two columns of two deltas in slots for three; the third slot of each holds something else. -/
theorem reads_back_columns_unused_slots :
    decode 2 2 (encode (Buffer.ofList [0, 0, 99, -1, 0, 99]).get 3 2 2 ++ [7]) = .ok ([[0, 0], [-1, 0]], [7]) := by
  have hread := reads_back_columns (by decide : 2 ≤ 3) (by decide : 2 * 3 ≤ (Buffer.ofList [0, 0, 99, -1, 0, 99]).size)
    (by decide) (by decide) [7]
  rwa [Buffer.toList_ofList] at hread

end Telemetry.Delta
