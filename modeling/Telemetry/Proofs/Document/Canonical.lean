import Telemetry.Proofs.Document.Binary
import Telemetry.Proofs.Except

/-!
# Documents have one form as bytes

What is read off the front of bytes is what would be written there: a reader that accepts has taken the written form
of the value it gives, and nothing else (`Value.eq_encode_of_readValue` and its companions). With the way back, which
is in the module on reading, bytes decode exactly if the body of a document stands at the front of what their length
delimits (`Document.decode_eq_ok_iff`), and that document is the only one (`Document.encodeBody_prefix_inj`).

## Shape of the proof

Each reader of an item has a lemma that says what it took. Values, fields and items are then one induction over the
bound of the reader, whose calls are taken apart one after the other with `exists_of_bind_eq_ok`. Counts need no
bound here: a count that was read is the number of things that were read after it.
-/

namespace Telemetry

/-- A text is read only from its UTF-8 form. -/
theorem Utf8.eq_textBytes_of_decode {bytes : Bytes} {s : String} (h : Utf8.decode bytes = .ok s) :
    bytes = textBytes s := by
  rw [Utf8.decode] at h
  split at h
  · next s' hs' =>
    obtain rfl := Except.ok.inj h
    rw [String.fromUTF8?] at hs'
    split at hs'
    · obtain rfl := Option.some.inj hs'
      simp [textBytes, String.fromUTF8]
    · simp at hs'
  · simp at h

namespace Binary

/-! ## Items -/

theorem eq_of_readNat {width n : Nat} {bytes rest : Bytes} (h : readNat width bytes = .ok (n, rest)) :
    bytes = Bytes.ofNat width n ++ rest ∧ n < Bytes.bound width := by
  rw [readNat, Bytes.readWord?] at h
  cases hsplit : bytes.split? width with
  | none => simp [hsplit] at h
  | some parts =>
    obtain ⟨front, rest'⟩ := parts
    obtain ⟨rfl, rfl⟩ := Bytes.split?_eq_some_iff.mp hsplit
    simp only [hsplit, Option.map_some, Except.ok.injEq, Prod.mk.injEq] at h
    obtain ⟨rfl, rfl⟩ := h
    exact ⟨by rw [Bytes.ofNat_toNat], Bytes.toNat_lt front⟩

/-- Four bytes are those of a word. -/
theorem eq_of_readNat_word {n : Nat} {bytes rest : Bytes} (h : readNat 4 bytes = .ok (n, rest)) :
    bytes = Bytes.ofNat 4 (UInt32.ofNat n).toNat ++ rest := by
  obtain ⟨rfl, hlt⟩ := eq_of_readNat h
  rw [UInt32.toNat_ofNat_of_lt' hlt]

/-- Eight bytes are those of a word. -/
theorem eq_of_readNat_longWord {n : Nat} {bytes rest : Bytes} (h : readNat 8 bytes = .ok (n, rest)) :
    bytes = Bytes.ofNat 8 (UInt64.ofNat n).toNat ++ rest := by
  obtain ⟨rfl, hlt⟩ := eq_of_readNat h
  rw [UInt64.toNat_ofNat_of_lt' hlt]

theorem eq_of_readBytes {n : Nat} {bytes front rest : Bytes} (h : readBytes n bytes = .ok (front, rest)) :
    bytes = front ++ rest ∧ front.length = n := by
  rw [readBytes] at h
  split at h
  · next hsplit =>
    obtain rfl := Except.ok.inj h
    exact Bytes.split?_eq_some_iff.mp hsplit
  · simp at h

theorem eq_of_readText {bytes rest : Bytes} {s : String} (h : readText bytes = .ok (s, rest)) :
    bytes = Bytes.ofText s ++ rest := by
  obtain ⟨⟨length, content⟩, hlength, hcontent⟩ := exists_of_bind_eq_ok h
  obtain ⟨rfl, -⟩ := eq_of_readNat hlength
  dsimp only at hcontent
  split at hcontent
  · simp at hcontent
  · next front rest' hsplit =>
    obtain ⟨rfl, rfl⟩ := Bytes.split?_eq_some_iff.mp hsplit
    split at hcontent
    · next s' htext =>
      simp only [Except.ok.injEq, Prod.mk.injEq] at hcontent
      obtain ⟨rfl, rfl⟩ := hcontent
      obtain rfl := Utf8.eq_textBytes_of_decode htext
      rw [Bytes.ofText, List.append_assoc]
    · simp at hcontent

theorem eq_of_readBoolean {bytes rest : Bytes} {b : Bool} (h : readBoolean bytes = .ok (b, rest)) :
    bytes = (if b then 1 else 0) :: rest := by
  rw [readBoolean.eq_def] at h
  split at h <;> simp at h <;> (obtain ⟨rfl, rfl⟩ := h; rfl)

theorem eq_of_readObjectId {bytes rest : Bytes} {id : Vector UInt8 12} (h : readObjectId bytes = .ok (id, rest)) :
    bytes = id.toList ++ rest := by
  obtain ⟨⟨front, rest'⟩, hfront, hid⟩ := exists_of_bind_eq_ok h
  obtain ⟨rfl, -⟩ := eq_of_readBytes hfront
  dsimp only at hid
  split at hid
  · simp only [Except.ok.injEq, Prod.mk.injEq] at hid
    obtain ⟨rfl, rfl⟩ := hid
    simp [Vector.toList]
  · simp at hid

end Binary

open Binary

/-! ## Values -/

mutual

/-- A value is read only from its written form. -/
theorem Value.eq_encode_of_readValue : ∀ (bound : Nat) (bytes : Bytes) {v : Value} {rest : Bytes},
    readValue bound bytes = .ok (v, rest) → bytes = v.encode ++ rest
  | 0, bytes, v, rest, h => by
    simp [readValue] at h
  | bound + 1, bytes, v, rest, h => by
    rw [readValue] at h
    obtain ⟨⟨tag, content⟩, htag, hcontent⟩ := exists_of_bind_eq_ok h
    obtain ⟨rfl, -⟩ := eq_of_readNat htag
    dsimp only at hcontent
    split at hcontent
    · obtain ⟨⟨b, rest'⟩, hb, hresult⟩ := exists_of_bind_eq_ok hcontent
      obtain ⟨rfl, rfl⟩ := Prod.mk.inj (Except.ok.inj hresult)
      rw [eq_of_readBoolean hb, Value.encode, List.append_assoc, List.singleton_append]
    · obtain ⟨⟨n, rest'⟩, hn, hresult⟩ := exists_of_bind_eq_ok hcontent
      obtain ⟨rfl, rfl⟩ := Prod.mk.inj (Except.ok.inj hresult)
      rw [eq_of_readNat_word hn, Value.encode, UInt32.toUInt32_toInt32, List.append_assoc]
    · obtain ⟨⟨n, rest'⟩, hn, hresult⟩ := exists_of_bind_eq_ok hcontent
      obtain ⟨rfl, rfl⟩ := Prod.mk.inj (Except.ok.inj hresult)
      rw [eq_of_readNat_longWord hn, Value.encode, UInt64.toUInt64_toInt64, List.append_assoc]
    · obtain ⟨⟨n, rest'⟩, hn, hresult⟩ := exists_of_bind_eq_ok hcontent
      obtain ⟨rfl, rfl⟩ := Prod.mk.inj (Except.ok.inj hresult)
      rw [eq_of_readNat_longWord hn, Value.encode, List.append_assoc]
    · obtain ⟨⟨n, rest'⟩, hn, hresult⟩ := exists_of_bind_eq_ok hcontent
      obtain ⟨rfl, rfl⟩ := Prod.mk.inj (Except.ok.inj hresult)
      rw [eq_of_readNat_longWord hn, Value.encode, UInt64.toUInt64_toInt64, List.append_assoc]
    · obtain ⟨⟨seconds, content'⟩, hseconds, hmore⟩ := exists_of_bind_eq_ok hcontent
      obtain ⟨⟨increment, rest'⟩, hincrement, hresult⟩ := exists_of_bind_eq_ok hmore
      obtain ⟨rfl, rfl⟩ := Prod.mk.inj (Except.ok.inj hresult)
      have hcontent' : content' = _ := eq_of_readNat_word hincrement
      rw [eq_of_readNat_word hseconds, hcontent', Value.encode, List.append_assoc, List.append_assoc]
    · obtain ⟨⟨s, rest'⟩, hs, hresult⟩ := exists_of_bind_eq_ok hcontent
      obtain ⟨rfl, rfl⟩ := Prod.mk.inj (Except.ok.inj hresult)
      rw [eq_of_readText hs, Value.encode, List.append_assoc]
    · obtain ⟨⟨id, rest'⟩, hid, hresult⟩ := exists_of_bind_eq_ok hcontent
      obtain ⟨rfl, rfl⟩ := Prod.mk.inj (Except.ok.inj hresult)
      rw [eq_of_readObjectId hid, Value.encode, List.append_assoc]
    · obtain ⟨⟨length, content'⟩, hlength, hcontent'⟩ := exists_of_bind_eq_ok hcontent
      obtain ⟨⟨bytes, rest'⟩, hbytes, hresult⟩ := exists_of_bind_eq_ok hcontent'
      obtain ⟨rfl, rfl⟩ := Prod.mk.inj (Except.ok.inj hresult)
      obtain ⟨rfl, rfl⟩ := eq_of_readBytes hbytes
      rw [(eq_of_readNat hlength).1, Value.encode, List.append_assoc, List.append_assoc]
    · obtain ⟨rfl, rfl⟩ := Prod.mk.inj (Except.ok.inj hcontent)
      rw [Value.encode]
    · obtain ⟨⟨count, content'⟩, hcount, hcontent'⟩ := exists_of_bind_eq_ok hcontent
      obtain ⟨⟨fields, rest'⟩, hfields, hresult⟩ := exists_of_bind_eq_ok hcontent'
      obtain ⟨rfl, rfl⟩ := Prod.mk.inj (Except.ok.inj hresult)
      obtain ⟨rfl, rfl⟩ := Document.eq_encodeFields_of_readFields bound count content' hfields
      rw [(eq_of_readNat hcount).1, Value.encode, List.append_assoc, List.append_assoc]
    · obtain ⟨⟨count, content'⟩, hcount, hcontent'⟩ := exists_of_bind_eq_ok hcontent
      obtain ⟨⟨items, rest'⟩, hitems, hresult⟩ := exists_of_bind_eq_ok hcontent'
      obtain ⟨rfl, rfl⟩ := Prod.mk.inj (Except.ok.inj hresult)
      obtain ⟨rfl, rfl⟩ := Value.eq_encodeItems_of_readItems bound count content' hitems
      rw [(eq_of_readNat hcount).1, Value.encode, List.append_assoc, List.append_assoc]
    · simp at hcontent

/-- Fields are read only from their written form. -/
theorem Document.eq_encodeFields_of_readFields : ∀ (bound count : Nat) (bytes : Bytes)
    {fields : List (String × Value)} {rest : Bytes}, readFields bound count bytes = .ok (fields, rest) →
      bytes = Document.encodeFields fields ++ rest ∧ fields.length = count
  | bound, 0, bytes, fields, rest, h => by
    simp only [readFields, Except.ok.injEq, Prod.mk.injEq] at h
    obtain ⟨rfl, rfl⟩ := h
    exact ⟨rfl, rfl⟩
  | 0, count + 1, bytes, fields, rest, h => by
    simp [readFields] at h
  | bound + 1, count + 1, bytes, fields, rest, h => by
    rw [readFields] at h
    obtain ⟨⟨key, content⟩, hkey, hcontent⟩ := exists_of_bind_eq_ok h
    obtain ⟨⟨v, content'⟩, hvalue, hcontent'⟩ := exists_of_bind_eq_ok hcontent
    obtain ⟨⟨fields', rest'⟩, hfields, hresult⟩ := exists_of_bind_eq_ok hcontent'
    simp only [Except.ok.injEq, Prod.mk.injEq] at hresult
    obtain ⟨rfl, rfl⟩ := hresult
    obtain rfl := eq_of_readText hkey
    obtain rfl := Value.eq_encode_of_readValue bound content hvalue
    obtain ⟨rfl, rfl⟩ := Document.eq_encodeFields_of_readFields bound count content' hfields
    exact ⟨by simp only [Document.encodeFields, List.append_assoc], rfl⟩

/-- Items are read only from their written form. -/
theorem Value.eq_encodeItems_of_readItems : ∀ (bound count : Nat) (bytes : Bytes)
    {items : List Value} {rest : Bytes}, readItems bound count bytes = .ok (items, rest) →
      bytes = Value.encodeItems items ++ rest ∧ items.length = count
  | bound, 0, bytes, items, rest, h => by
    simp only [readItems, Except.ok.injEq, Prod.mk.injEq] at h
    obtain ⟨rfl, rfl⟩ := h
    exact ⟨rfl, rfl⟩
  | 0, count + 1, bytes, items, rest, h => by
    simp [readItems] at h
  | bound + 1, count + 1, bytes, items, rest, h => by
    rw [readItems] at h
    obtain ⟨⟨v, content⟩, hvalue, hcontent⟩ := exists_of_bind_eq_ok h
    obtain ⟨⟨items', rest'⟩, hitems, hresult⟩ := exists_of_bind_eq_ok hcontent
    simp only [Except.ok.injEq, Prod.mk.injEq] at hresult
    obtain ⟨rfl, rfl⟩ := hresult
    obtain rfl := Value.eq_encode_of_readValue bound bytes hvalue
    obtain ⟨rfl, rfl⟩ := Value.eq_encodeItems_of_readItems bound count content hitems
    exact ⟨by simp only [Value.encodeItems, List.append_assoc], rfl⟩

end

/-! ## Bodies -/

namespace Document

/-- A body is read only from its written form, and what is left is what followed it. -/
theorem eq_of_readBody {bytes rest : Bytes} {d : Document} (h : readBody bytes = .ok (d, rest)) :
    bytes = encodeBody d ++ rest := by
  obtain ⟨⟨count, content⟩, hcount, hfields⟩ := exists_of_bind_eq_ok h
  obtain ⟨rfl, rfl⟩ := eq_encodeFields_of_readFields bytes.length count content hfields
  rw [(eq_of_readNat hcount).1, encodeBody, List.append_assoc]

/-- A body that is longer by what follows it belongs to the same document, so nothing follows. -/
theorem encodeBody_prefix_inj {d e : Document} (he : e.size < UInt32.size) (h : encodeBody d <+: encodeBody e) :
    d = e := by
  obtain ⟨more, hmore⟩ := h
  have hd : d.size < UInt32.size := by
    have hlen := congrArg List.length hmore
    rw [List.length_append] at hlen
    simp only [size] at he ⊢
    omega
  have hread := readBody_encodeBody he []
  rw [List.append_nil, ← hmore, readBody_encodeBody hd more] at hread
  exact (Prod.mk.inj (Except.ok.inj hread)).1

/-- A document is written as the length of the whole and its body, exactly if the length fits. -/
theorem encode_eq_ok_iff {d : Document} {bytes : Bytes} :
    encode d = .ok bytes ↔ d.size < UInt32.size ∧ bytes = Document.bytes d := by
  constructor
  · intro h
    have hsize := size_lt_of_encode h
    rw [encode_eq hsize] at h
    exact ⟨hsize, (Except.ok.inj h).symm⟩
  · rintro ⟨hsize, rfl⟩
    exact encode_eq hsize

/-- A body that fits into what the first four bytes delimit can be written. -/
theorem size_lt_of_front {data : Bytes} {d : Document} (hheader : documentHeaderSize ≤ data.length)
    (h : encodeBody d <+: (data.take (Bytes.toNat (data.take documentHeaderSize))).drop documentHeaderSize)
    (hlow : documentHeaderSize ≤ Bytes.toNat (data.take documentHeaderSize)) : d.size < UInt32.size := by
  have hlt := Bytes.toNat_lt (data.take documentHeaderSize)
  rw [List.length_take_of_le hheader] at hlt
  have hlen := h.length_le
  rw [List.length_drop, List.length_take] at hlen
  rw [size]
  exact Nat.lt_of_le_of_lt (by omega) hlt

/-- Whether bytes hold a document is decided by their first four and by what these delimit: a body of the document
stands there, and anything may follow it. -/
theorem decode_eq_ok_iff {data : Bytes} {d : Document} {n : Nat} :
    decode data = .ok (d, n) ↔
      Bytes.toNat (data.take documentHeaderSize) = n ∧ documentHeaderSize ≤ n ∧ n ≤ data.length ∧
        encodeBody d <+: (data.take n).drop documentHeaderSize := by
  constructor
  · intro h
    rw [decode, Bytes.readWord?, Bytes.split?_eq] at h
    split at h
    · simp at h
    · next declared rest hword =>
      split at hword
      · simp only [Option.map_some, Option.some.injEq, Prod.mk.injEq] at hword
        obtain ⟨rfl, -⟩ := hword
        split at h
        · simp at h
        · split at h
          · simp at h
          · split at h
            · next d' rest' hbody =>
              simp only [Except.ok.injEq, Prod.mk.injEq] at h
              obtain ⟨rfl, rfl⟩ := h
              exact ⟨rfl, by omega, by omega, rest', (eq_of_readBody hbody).symm⟩
            · simp at h
      · simp at hword
  · rintro ⟨rfl, hlow, hhigh, rest, hbody⟩
    have hheader : documentHeaderSize ≤ data.length := Nat.le_trans hlow hhigh
    have hsize := size_lt_of_front hheader ⟨rest, hbody⟩ hlow
    rw [decode, Bytes.readWord?, Bytes.split?_eq, if_pos hheader]
    simp only [Option.map_some]
    rw [if_neg (by omega), if_neg (by omega), ← hbody, readBody_encodeBody hsize]

/-- A part of a body, but not all of it, is the body of no document. -/
theorem exists_fault_of_part {d : Document} (h : d.size < UInt32.size) {front : Bytes} (hpart : front <+: encodeBody d)
    (hcut : front ≠ encodeBody d) : ∃ fault, readBody front = .error fault := by
  cases hread : readBody front with
  | error fault => exact ⟨fault, rfl⟩
  | ok result =>
    obtain ⟨e, rest⟩ := result
    have hfront := eq_of_readBody hread
    -- the document that was read would have a body at the front of the longer one
    obtain rfl : e = d := encodeBody_prefix_inj h ((List.prefix_append _ rest).trans (hfront ▸ hpart))
    have hlen := hpart.length_le
    have hwhole : encodeBody e <+: front := hfront ▸ List.prefix_append _ rest
    exact absurd (hwhole.eq_of_length_le hlen).symm hcut

/-- Bytes with a length in front of a body that does not decode are refused for the same fault. -/
theorem decode_of_readBody_error {body : Bytes} {fault : EncodingFault} (hfault : readBody body = .error fault)
    (hsize : documentHeaderSize + body.length < UInt32.size) (tail : Bytes) :
    decode (Bytes.ofNat documentHeaderSize (documentHeaderSize + body.length) ++ body ++ tail) =
      .error (.encoding fault) := by
  have hword : Bytes.readWord? documentHeaderSize
      (Bytes.ofNat documentHeaderSize (documentHeaderSize + body.length) ++ body ++ tail) =
        some (documentHeaderSize + body.length, body ++ tail) := by
    rw [List.append_assoc]
    exact Bytes.readWord?_append hsize _
  have hfront : ((Bytes.ofNat documentHeaderSize (documentHeaderSize + body.length) ++ body ++ tail).take
      (documentHeaderSize + body.length)).drop documentHeaderSize = body := by
    rw [List.take_left' (by simp), List.drop_left' (by simp)]
  rw [decode, hword]
  simp only [hfront, hfault]
  rw [if_neg (by omega), if_neg (by simp)]

/-- Bytes and documents. Bytes decode to a document and a length exactly if the length is the number in the first
four bytes, covers these and is covered by the bytes, and the body of the document stands at the front of what the
length delimits. A document is written as its length and its body, whenever the length fits in four bytes. Therefore
it comes back from its bytes, whatever follows them; different documents have different bytes; what is cut off a body
does not decode; and a body that decodes is written back as the bytes that were consumed. -/
theorem encoded_exactly :
    (∀ (data : Bytes) (d : Document) (n : Nat), decode data = .ok (d, n) ↔
      Bytes.toNat (data.take 4) = n ∧ 4 ≤ n ∧ n ≤ data.length ∧ encodeBody d <+: (data.take n).drop 4) ∧
    (∀ (d : Document) (bytes : Bytes), encode d = .ok bytes ↔
      bytes.length < UInt32.size ∧ bytes = Bytes.ofNat 4 bytes.length ++ encodeBody d) ∧
    (∀ (d : Document) (bytes rest : Bytes), encode d = .ok bytes → decode (bytes ++ rest) = .ok (d, bytes.length)) ∧
    (∀ (d e : Document) (bytes : Bytes), encode d = .ok bytes → encode e = .ok bytes → d = e) ∧
    (∀ (d : Document) (bytes front : Bytes), encode d = .ok bytes → front <+: encodeBody d → front ≠ encodeBody d →
      ∃ fault, readBody front = .error fault ∧
        ∀ tail, decode (Bytes.ofNat 4 (4 + front.length) ++ front ++ tail) = .error (.encoding fault)) ∧
    (∀ (body rest : Bytes) (d : Document), readBody body = .ok (d, rest) → body = encodeBody d ++ rest) ∧
    ∀ (data : Bytes) (d : Document) (n : Nat), decode data = .ok (d, n) →
      ∃ bytes, encode d = .ok bytes ∧ bytes.drop 4 <+: (data.take n).drop 4 := by
  refine ⟨fun data d n => decode_eq_ok_iff, fun d bytes => ?_, fun d bytes rest h => ?_, fun d e bytes hd he => ?_,
    fun d bytes front h hpart hcut => ?_, fun body rest d h => eq_of_readBody h, fun data d n h => ?_⟩
  · rw [encode_eq_ok_iff]
    constructor
    · rintro ⟨hsize, rfl⟩
      exact ⟨by rwa [length_bytes], by rw [length_bytes]; rfl⟩
    · rintro ⟨hsize, hbytes⟩
      have hlen : bytes.length = size d := by
        have hlen := congrArg List.length hbytes
        rwa [List.length_append, Bytes.length_ofNat] at hlen
      rw [hlen] at hsize hbytes
      exact ⟨hsize, hbytes⟩
  · obtain ⟨hsize, rfl⟩ := encode_eq_ok_iff.mp h
    rw [length_bytes, decode_bytes hsize]
  · obtain ⟨hsize, rfl⟩ := encode_eq_ok_iff.mp hd
    obtain ⟨hsize', heq⟩ := encode_eq_ok_iff.mp he
    have hdecode := decode_bytes hsize []
    rw [heq, decode_bytes hsize'] at hdecode
    exact (Prod.mk.inj (Except.ok.inj hdecode)).1.symm
  · have hsize := size_lt_of_encode h
    obtain ⟨fault, hfault⟩ := exists_fault_of_part hsize hpart hcut
    have hlen := hpart.length_le
    rw [size] at hsize
    exact ⟨fault, hfault, decode_of_readBody_error hfault (by omega)⟩
  · obtain ⟨rfl, hlow, hhigh, hbody⟩ := decode_eq_ok_iff.mp h
    refine ⟨bytes d, encode_eq (size_lt_of_front (Nat.le_trans hlow hhigh) hbody hlow), ?_⟩
    rwa [bytes, List.drop_left' (Bytes.length_ofNat 4 _)]

/-- A document with an array in it, a byte after it, and its body without the last byte. -/
theorem encoded_exactly_array :
    ∃ bytes, encode [("a", .array [.boolean true, .null])] = .ok bytes ∧
      decode (bytes ++ [171]) = .ok ([("a", .array [.boolean true, .null])], bytes.length) ∧
      ∃ fault, readBody (encodeBody [("a", .array [.boolean true, .null])]).dropLast = .error fault := by
  have hencode : encode [("a", .array [.boolean true, .null])] = .ok (bytes [("a", .array [.boolean true, .null])]) :=
    encode_eq (by decide)
  obtain ⟨-, -, hback, -, hcut, -⟩ := encoded_exactly
  obtain ⟨fault, hfault, -⟩ := hcut _ _ _ hencode (List.dropLast_prefix _) (by decide)
  exact ⟨_, hencode, hback _ _ [171] hencode, fault, hfault⟩

end Document

end Telemetry
