import Telemetry.Chunk.Reader
import Telemetry.Proofs.Record.Reads

/-!
# The course of a stream

What a reader delivers for a record is determined by the record and by those before it (`Record.outcome?`): nothing
for a metadata document, and for a chunk what its body decodes to with the last metadata document before it. So the
records of a source, with the error that ends them, tell what a reader of the source will deliver: chunks, each with
the place of its record in the stream, and the error after them, if there is one (`ChunkReader.Course`).

A reader of any source, also of one that fails, follows that course (`Ahead.next`, `Ahead.nthNext`), and whenever it has
delivered a chunk its source stands at the end of the record of the chunk (`Ahead.asked`).
-/

namespace Telemetry

/-! ## What a record gives -/

namespace Record

/-- The document that a metadata record holds. -/
def metadata? (r : Record) : Option Document :=
  match r.kind with
  | .chunk => none
  | .metadata =>
    match Document.decode r.body with
    | .ok (d, _) => some d
    | .error _ => none

/-- The document of the last metadata record. -/
def lastMetadata? (before : List Record) : Option Document :=
  (before.filterMap metadata?).getLast?

theorem lastMetadata?_append_singleton (before : List Record) (r : Record) :
    lastMetadata? (before ++ [r]) = r.metadata?.or (lastMetadata? before) := by
  rw [lastMetadata?, lastMetadata?, List.filterMap_append, List.getLast?_append]
  cases hmetadata : r.metadata? <;> simp [hmetadata]

/-- A document that has been there stays, or is followed by another. -/
theorem lastMetadata?_eq_none_of_isPrefix {before before' : List Record} (h : before <+: before')
    (hnone : lastMetadata? before' = none) : lastMetadata? before = none := by
  obtain ⟨more, rfl⟩ := h
  rw [lastMetadata?, List.getLast?_eq_none_iff, List.filterMap_append, List.append_eq_nil_iff] at hnone
  rw [lastMetadata?, hnone.1, List.getLast?_nil]

/-- What a reader delivers for a record, after the records before it. -/
def outcome? (before : List Record) (r : Record) : Option (Except Error Chunk) :=
  match r.kind with
  | .chunk => some (Chunk.ofBody (lastMetadata? before) r.body)
  | .metadata =>
    match Document.decode r.body with
    | .ok _ => none
    | .error fault => some (.error fault.toError)

/-- A chunk comes of a chunk record alone, and goes with the last document before it. -/
theorem outcome?_eq_ok_iff {before : List Record} {r : Record} {c : Chunk} :
    outcome? before r = some (.ok c) ↔ r.kind = .chunk ∧ Chunk.ofBody (lastMetadata? before) r.body = .ok c := by
  rw [outcome?]
  cases r.kind with
  | chunk => simp
  | metadata => cases hbody : Document.decode r.body <;> simp

end Record

namespace ChunkReader

open Record

/-! ## What a stream gives -/

/-- A chunk of a stream with its record, and the records before that. -/
structure Entry where
  before : List Record
  record : Record
  chunk : Chunk

namespace Entry

/-- The records up to that of the chunk, and including it. -/
def upTo (x : Entry) : List Record :=
  x.before ++ [x.record]

/-- The record of a chunk holds no document. -/
theorem lastMetadata?_upTo {x : Entry} (h : outcome? x.before x.record = some (.ok x.chunk)) :
    lastMetadata? x.upTo = lastMetadata? x.before := by
  have hnone : x.record.metadata? = none := by rw [Record.metadata?, (outcome?_eq_ok_iff.mp h).1]
  rw [upTo, lastMetadata?_append_singleton, hnone, Option.none_or]

/-- Where the record of the chunk ends, counted from the beginning of the stream. -/
def endOffset (x : Entry) : Nat :=
  (x.upTo.flatMap encode).length

end Entry

/-- What a stream gives: chunks, and the error after them if there is one. -/
structure Course where
  entries : List Entry
  error? : Option Error

namespace Course

/-- What a reader delivers, one after the other. -/
def items (k : Course) : List (Except Error Chunk) :=
  k.entries.map (fun x => .ok x.chunk) ++ k.error?.toList.map .error

/-- What records give after those before them, if an error follows, or none. -/
def ofRecords (e? : Option Error) (before : List Record) : List Record → Course
  | [] => ⟨[], e?⟩
  | r :: rs =>
    match outcome? before r with
    | none => ofRecords e? (before ++ [r]) rs
    | some (.error e) => ⟨[], some e⟩
    | some (.ok c) =>
      let more := ofRecords e? (before ++ [r]) rs
      ⟨⟨before, r, c⟩ :: more.entries, more.error?⟩

/-- What a source gives. -/
def ofSource (s : Source) : Course :=
  ofRecords (reads s).2 [] (reads s).1

variable {e? : Option Error} {before rs : List Record}

/-- A chunk comes of one of the records, in its place. -/
theorem exists_of_mem_ofRecords {x : Entry} (hx : x ∈ (ofRecords e? before rs).entries) :
    outcome? x.before x.record = some (.ok x.chunk) ∧
      ∃ passed later, rs = passed ++ x.record :: later ∧ x.before = before ++ passed := by
  induction rs generalizing before with
  | nil => simp [ofRecords] at hx
  | cons r rs ih =>
    have hlater (hx : x ∈ (ofRecords e? (before ++ [r]) rs).entries) :
        outcome? x.before x.record = some (.ok x.chunk) ∧
          ∃ passed later, r :: rs = passed ++ x.record :: later ∧ x.before = before ++ passed := by
      obtain ⟨houtcome, passed, later, rfl, hbefore⟩ := ih hx
      exact ⟨houtcome, r :: passed, later, rfl, by rw [hbefore, List.append_assoc, List.singleton_append]⟩
    rw [ofRecords] at hx
    split at hx
    · exact hlater hx
    · simp at hx
    · next houtcome =>
      rcases List.mem_cons.mp hx with rfl | hx
      · exact ⟨houtcome, [], rs, rfl, (List.append_nil before).symm⟩
      · exact hlater hx

/-- A chunk of a source is in a chunk record, and goes with the last document before it. -/
theorem of_mem_ofSource {s : Source} {x : Entry} (hx : x ∈ (ofSource s).entries) :
    (∃ later, (reads s).1 = x.before ++ x.record :: later) ∧ x.record.kind = .chunk ∧
      Chunk.ofBody (lastMetadata? x.before) x.record.body = .ok x.chunk := by
  obtain ⟨houtcome, passed, later, hrecords, hbefore⟩ := exists_of_mem_ofRecords hx
  rw [List.nil_append] at hbefore
  exact ⟨⟨later, hbefore ▸ hrecords⟩, outcome?_eq_ok_iff.mp houtcome⟩

theorem isPrefix_of_mem_ofRecords {x : Entry} (hx : x ∈ (ofRecords e? before rs).entries) : before <+: x.before := by
  obtain ⟨-, passed, -, -, hbefore⟩ := exists_of_mem_ofRecords hx
  exact hbefore ▸ List.prefix_append before passed

/-- The first record stands before every chunk that is not its own. -/
theorem isPrefix_upTo_of_mem_ofRecords {x : Entry} {r : Record} (hx : x ∈ (ofRecords e? before (r :: rs)).entries) :
    before ++ [r] <+: x.upTo := by
  obtain ⟨-, passed, later, hrs, hbefore⟩ := exists_of_mem_ofRecords hx
  rw [Entry.upTo, hbefore, List.append_assoc, List.prefix_append_right_inj]
  cases passed with
  | nil =>
    obtain ⟨rfl, -⟩ := List.cons_eq_cons.mp hrs
    exact List.prefix_refl _
  | cons r' passed =>
    obtain ⟨rfl, -⟩ := List.cons_eq_cons.mp hrs
    exact ⟨passed ++ [x.record], rfl⟩

/-- The chunks of the records that lie wholly before a cut are the chunks whose records end there or before. -/
theorem entries_whole (e? e?' : Option Error) (cut : Nat) :
    (ofRecords e?' before (whole cut rs)).entries =
      (ofRecords e? before rs).entries.filter fun x => x.endOffset ≤ (before.flatMap encode).length + cut := by
  induction rs generalizing before cut with
  | nil => rfl
  | cons r rs ih =>
    have hlen : ((before ++ [r]).flatMap encode).length = (before.flatMap encode).length + r.encode.length := by
      simp
    rw [whole]
    split
    · next hfits =>
      have hmore := @ih (before ++ [r]) (cut - r.encode.length)
      rw [hlen, Nat.add_assoc, Nat.add_sub_cancel' hfits] at hmore
      rw [ofRecords, ofRecords]
      cases houtcome : outcome? before r with
      | none => exact hmore
      | some result =>
        cases result with
        | error e => rfl
        | ok c =>
          rw [List.filter_cons_of_pos]
          · exact congrArg _ hmore
          · simp only [Entry.endOffset, Entry.upTo, hlen, decide_eq_true_eq]
            omega
    · next hlong =>
      rw [ofRecords, eq_comm, List.filter_eq_nil_iff]
      intro x hx
      obtain ⟨more, hmore⟩ := isPrefix_upTo_of_mem_ofRecords hx
      rw [Entry.endOffset, ← hmore, List.flatMap_append, List.length_append, hlen, decide_eq_true_eq]
      omega

end Course

/-! ## One pull -/

theorem pull_of_error {r : ChunkReader} {e : Error} {t : Source} (h : readFrom r.source = (.error e, t)) :
    r.pull = (.error e, { r with source := t }) := by
  rw [pull]
  split <;> rename_i heq <;> rw [h] at heq <;> simp at heq
  rw [heq.1, heq.2]

theorem pull_of_end {r : ChunkReader} {t : Source} (h : readFrom r.source = (.ok none, t)) :
    r.pull = (.ok none, { r with source := t, isReleased := true }) := by
  rw [pull]
  split <;> rename_i heq <;> rw [h] at heq <;> simp at heq
  rw [heq]

theorem pull_of_metadata {r : ChunkReader} {body : Bytes} {t : Source}
    (h : readFrom r.source = (.ok (some ⟨.metadata, body⟩), t)) :
    r.pull =
      match Document.decode body with
      | .error fault => (.error fault.toError, { r with source := t })
      | .ok (d, _) => pull { r with source := t, metadata? := some d } := by
  rw [pull]
  split <;> rename_i heq <;> rw [h] at heq <;> simp at heq
  obtain ⟨rfl, rfl⟩ := heq
  rfl

theorem pull_of_chunk {r : ChunkReader} {body : Bytes} {t : Source}
    (h : readFrom r.source = (.ok (some ⟨.chunk, body⟩), t)) :
    r.pull =
      match Chunk.ofBody r.metadata? body with
      | .error e => (.error e, { r with source := t })
      | .ok c => (.ok (some c), { r with source := t, chunksRead := r.chunksRead + 1 }) := by
  rw [pull]
  split <;> rename_i heq <;> rw [h] at heq <;> simp at heq
  obtain ⟨rfl, rfl⟩ := heq
  rfl

/-! ## Asking again and again -/

/-- A reader after it has been asked for so many chunks. -/
def asked (r : ChunkReader) : Nat → ChunkReader
  | 0 => r
  | n + 1 => asked r.next.2 n

/-- What a reader delivers one after the other, counted from zero. -/
def nthNext (r : ChunkReader) : Nat → Option (Except Error Chunk)
  | 0 => r.next.1
  | n + 1 => nthNext r.next.2 n

/-- A reader that has released its source delivers nothing and stays as it is. -/
theorem next_of_isReleased {r : ChunkReader} (h : r.isReleased = true) : r.next = (none, r) := by
  rw [next, if_pos h]

theorem nthNext_of_isReleased {r : ChunkReader} (h : r.isReleased = true) (n : Nat) : nthNext r n = none := by
  induction n with
  | zero => rw [nthNext, next_of_isReleased h]
  | succ n ih =>
    rw [nthNext, next_of_isReleased h]
    exact ih

/-- A reader that has not released its source pulls. -/
theorem next_of_open {r : ChunkReader} (h : r.isReleased = false) :
    r.next =
      match r.pull with
      | (.ok (some c), t) => (some (.ok c), t)
      | (.ok none, t) => (none, t)
      | (.error e, t) => (some (.error e), t.release) := by
  rw [next]
  exact if_neg (by simp [h])

/-- A reader in the middle of a stream: behind some records, with the last document among them, and in front of what
its source has still to give. -/
structure Ahead (s : Source) (r : ChunkReader) (before : List Record) (k : Course) : Prop where
  isOpen : r.isReleased = false
  metadata_eq : r.metadata? = lastMetadata? before
  isAfter : r.source.IsAfter (before.flatMap encode).length s
  course_eq : Course.ofRecords (reads r.source).2 before (reads r.source).1 = k

/-- What a reader gives comes next in the course, and the reader has then released its source, or stands behind the
record of the chunk it has given. -/
structure Follows (s : Source) (given : Option (Except Error Chunk) × ChunkReader) (k : Course) : Prop where
  item_eq : given.1 = k.items.head?
  isReleased : k.entries = [] → given.2.isReleased = true
  ahead : ∀ x more, k.entries = x :: more → Ahead s given.2 x.upTo ⟨more, k.error?⟩

namespace Follows

variable {s : Source} {r : ChunkReader}

/-- The stream has ended. -/
theorem ofEnd (h : r.isReleased = true) : Follows s (none, r) ⟨[], none⟩ :=
  ⟨rfl, fun _ => h, by simp⟩

/-- The stream has been found broken. -/
theorem ofError {e : Error} (h : r.isReleased = true) : Follows s (some (.error e), r) ⟨[], some e⟩ :=
  ⟨rfl, fun _ => h, by simp⟩

theorem ofChunk {x : Entry} {k : Course} (h : Ahead s r x.upTo k) :
    Follows s (some (.ok x.chunk), r) ⟨x :: k.entries, k.error?⟩ :=
  ⟨rfl, by simp, by rintro y more ⟨⟩; exact h⟩

end Follows

namespace Ahead

variable {s : Source} {r : ChunkReader} {before : List Record} {k : Course}

theorem ofSource (s : Source) : Ahead s (.ofSource s) [] (.ofSource s) :=
  ⟨rfl, rfl, .refl s, rfl⟩

/-- A reader follows the course. -/
theorem next (h : Ahead s r before k) : Follows s r.next k := by
  obtain ⟨hopen, hmetadata, hafter, rfl⟩ := h
  induction hrs : (reads r.source).1 generalizing r before with
  | nil =>
    cases hread : (readFrom r.source).1 with
    | error e =>
      have hpull := pull_of_error (Prod.ext hread rfl : readFrom r.source = (.error e, (readFrom r.source).2))
      rw [next_of_open hopen, hpull, reads_of_error hread]
      exact .ofError rfl
    | ok record? =>
      cases record? with
      | none =>
        have hpull := pull_of_end (Prod.ext hread rfl : readFrom r.source = (.ok none, (readFrom r.source).2))
        rw [next_of_open hopen, hpull, reads_of_end hread]
        exact .ofEnd rfl
      | some record => simp [reads_of_record hread] at hrs
  | cons record rs ih =>
    obtain ⟨hread, rfl⟩ := of_reads_eq_cons hrs
    have hpair : readFrom r.source = (.ok (some record), (readFrom r.source).2) := Prod.ext hread rfl
    have hleft : (readFrom r.source).2.IsAfter ((before ++ [record]).flatMap encode).length s := by
      have hboth := hafter.trans (isAfter_of_readFrom hread)
      rwa [← List.length_append, ← List.flatMap_singleton encode record, ← List.flatMap_append] at hboth
    have hmetadata' := lastMetadata?_append_singleton before record
    rw [congrArg Prod.snd (reads_of_record hread), Course.ofRecords]
    obtain ⟨kind, body⟩ := record
    cases kind with
    | metadata =>
      have hpull := pull_of_metadata hpair
      cases hbody : Document.decode body with
      | error fault =>
        rw [hbody] at hpull
        rw [next_of_open hopen, hpull, outcome?, hbody]
        exact .ofError rfl
      | ok decoded =>
        obtain ⟨d, used⟩ := decoded
        have hdocument : Record.metadata? ⟨.metadata, body⟩ = some d := by rw [Record.metadata?, hbody]
        rw [hbody] at hpull
        -- what comes next is what comes next for the reader that has passed over the record
        have hpassed := @ih { r with source := (readFrom r.source).2, metadata? := some d }
          (before ++ [⟨.metadata, body⟩]) hopen (by rw [hmetadata', hdocument, Option.some_or]) hleft rfl
        rw [next_of_open (by exact hopen)] at hpassed
        rw [next_of_open hopen, hpull, outcome?, hbody]
        exact hpassed
    | chunk =>
      have hpull := pull_of_chunk hpair
      rw [outcome?, ← hmetadata]
      cases hbody : Chunk.ofBody r.metadata? body with
      | error e =>
        rw [hbody] at hpull
        rw [next_of_open hopen, hpull]
        exact .ofError rfl
      | ok c =>
        rw [hbody] at hpull
        rw [next_of_open hopen, hpull]
        exact .ofChunk (x := ⟨before, _, c⟩)
          ⟨hopen, hmetadata.trans (hmetadata'.trans (Option.none_or ..)).symm, hleft, rfl⟩

/-- Asked again and again, a reader follows the course. -/
theorem nthNext (h : Ahead s r before k) (n : Nat) : ChunkReader.nthNext r n = k.items[n]? := by
  induction n generalizing r before k with
  | zero => rw [ChunkReader.nthNext, h.next.item_eq, List.head?_eq_getElem?]
  | succ n ih =>
    rw [ChunkReader.nthNext]
    cases hentries : k.entries with
    | nil =>
      rw [nthNext_of_isReleased (h.next.isReleased hentries), Course.items, hentries]
      cases k.error? <;> rfl
    | cons x more =>
      rw [ih (h.next.ahead x more hentries), Course.items, Course.items, hentries]
      rfl

/-- A reader that has given a chunk stands behind the record of the chunk. -/
theorem asked (h : Ahead s r before k) {n : Nat} {x : Entry} (hx : k.entries[n]? = some x) :
    Ahead s (r.asked (n + 1)) x.upTo ⟨k.entries.drop (n + 1), k.error?⟩ := by
  induction n generalizing r before k with
  | zero =>
    cases hentries : k.entries with
    | nil => simp [hentries] at hx
    | cons y more =>
      rw [hentries] at hx
      obtain rfl := Option.some.inj hx
      exact h.next.ahead y more hentries
  | succ n ih =>
    cases hentries : k.entries with
    | nil => simp [hentries] at hx
    | cons y more =>
      rw [hentries] at hx
      exact ih (h.next.ahead y more hentries) hx

end Ahead

end ChunkReader

end Telemetry
