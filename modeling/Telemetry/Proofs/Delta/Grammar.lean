import Mathlib.Data.List.Forall2
import Telemetry.Delta
import Telemetry.Proofs.Varint

/-!
# Which bytes are a delta stream

A column is written in tokens: a delta that is not zero, or a run of zeros (`Token`). A stream is one group of bytes for
each column, in which tokens expand to exactly the deltas of the column (`IsColumn`). No run reaches into the next
column, because each group has tokens of its own.

What is read is exactly that: columns come from bytes if and only if these are groups for the columns, and what follows
them is left (`decodeColumns_eq_ok_iff`). Everything else is refused for a fault that can be pointed at: some columns
are there, then some tokens of another one, and then a token that cannot belong to it (`ColumnBreaks`,
`decodeColumns_eq_error_iff`). `accepts_grammar` says both of a whole stream.

## Shape of the proof

`token_cases` says once what can stand before a column that is not complete: a token that fits into it, or one
that breaks it. The rest is induction on the deltas that are still to come when something is read, and on the tokens
when something is written.
-/

namespace Telemetry.Delta

/-! ## Tokens -/

/-- A piece of a column: a delta that is not zero, or a run of zeros, told by its length less one. -/
inductive Token where
  | delta (d : Int64) (hd : d ≠ 0)
  | zeros (run : UInt64)

/-- The deltas that a token stands for. -/
def Token.deltas : Token → List Int64
  | .delta d _ => [d]
  | .zeros run => List.replicate (run.toNat + 1) 0

/-- The deltas that tokens stand for, one after the other. -/
def expand (tokens : List Token) : List Int64 :=
  tokens.flatMap Token.deltas

/-- Bytes are a form of a token: a number for a delta, and a zero and a number for a run. -/
inductive Token.Spelt : Token → Bytes → Prop
  | delta {d : Int64} {hd : d ≠ 0} {bytes : Bytes} (h : Varint.Spells bytes d.toUInt64) : (delta d hd).Spelt bytes
  | zeros {run : UInt64} {zero bytes : Bytes} (hzero : Varint.Spells zero 0) (hrun : Varint.Spells bytes run) :
    (zeros run).Spelt (zero ++ bytes)

/-- Bytes are forms of tokens, one after the other. -/
inductive Spelt : List Token → Bytes → Prop
  | nil : Spelt [] []
  | cons {token : Token} {tokens : List Token} {front rest : Bytes} (htoken : token.Spelt front)
    (hrest : Spelt tokens rest) : Spelt (token :: tokens) (front ++ rest)

/-- Bytes are a form of a column of `count` deltas. -/
def IsColumn (count : Nat) (bytes : Bytes) (deltas : List Int64) : Prop :=
  deltas.length = count ∧ ∃ tokens, Spelt tokens bytes ∧ expand tokens = deltas

/-- Bytes begin with no token for column `metric`, in which `left` deltas are still to come: there is no number, or
none after a zero, or there is a run that reaches past the end of the column. -/
inductive TokenBreaks (metric left : Nat) : Bytes → CorruptionFault → Prop
  | number {bytes : Bytes} {fault : CorruptionFault} (h : Varint.Breaks Varint.maxLength bytes fault) :
    TokenBreaks metric left bytes fault
  | run {zero bytes : Bytes} {fault : CorruptionFault} (hzero : Varint.Spells zero 0)
    (h : Varint.Breaks Varint.maxLength bytes fault) : TokenBreaks metric left (zero ++ bytes) fault
  | excess {zero bytes rest : Bytes} {run : UInt64} (hzero : Varint.Spells zero 0) (hrun : Varint.Spells bytes run)
    (hlong : left < run.toNat + 1) :
    TokenBreaks metric left (zero ++ (bytes ++ rest)) (.zeroRun metric (run.toNat + 1 - left))

/-- Bytes begin with no column of `count` deltas for a metric: after some tokens, and before the column is complete,
there is none that fits. -/
def ColumnBreaks (metric count : Nat) (bytes : Bytes) (fault : CorruptionFault) : Prop :=
  ∃ tokens front behind, bytes = front ++ behind ∧ Spelt tokens front ∧ (expand tokens).length < count ∧
    TokenBreaks metric (count - (expand tokens).length) behind fault

theorem expand_cons (token : Token) (tokens : List Token) : expand (token :: tokens) = token.deltas ++ expand tokens :=
  List.flatMap_cons

theorem Token.length_deltas_pos (token : Token) : 0 < token.deltas.length := by
  cases token <;> simp [deltas]

/-! ## One token of a column -/

/-- A token that fits into a column is read, and then the rest of the column. -/
theorem decodeColumn_token {token : Token} {front : Bytes} (h : token.Spelt front) (metric : Nat) {count : Nat}
    (hfits : token.deltas.length ≤ count) (rest : Bytes) :
    decodeColumn metric count (front ++ rest) =
      (decodeColumn metric (count - token.deltas.length) rest).map fun (deltas, rest) =>
        (token.deltas ++ deltas, rest) := by
  have hpos := token.length_deltas_pos
  rw [decodeColumn, dif_neg (by omega)]
  cases h with
  | @delta d hd bytes h =>
    have hnot : d.toUInt64 ≠ 0 := fun hzero => hd (congrArg UInt64.toInt64 hzero)
    simp only [Varint.decode_eq_ok_iff.mpr ⟨front, rfl, h⟩, if_neg hnot]
    simp only [Token.deltas, List.length_singleton]
    rcases decodeColumn metric (count - 1) rest with _ | ⟨deltas, rest'⟩ <;> rfl
  | @zeros run zero bytes hzero hrun =>
    simp only [Token.deltas, List.length_replicate] at hfits ⊢
    rw [List.append_assoc]
    simp only [Varint.decode_eq_ok_iff.mpr ⟨zero, rfl, hzero⟩, if_true,
      Varint.decode_eq_ok_iff.mpr ⟨bytes, rfl, hrun⟩, if_neg (Nat.not_lt.mpr hfits)]
    rcases decodeColumn metric (count - (run.toNat + 1)) rest with _ | ⟨deltas, rest'⟩ <;> rfl

/-- A column is refused where no token for it stands. -/
theorem decodeColumn_of_breaks {metric count : Nat} {bytes : Bytes} {fault : CorruptionFault} (hcount : 0 < count)
    (h : TokenBreaks metric count bytes fault) : decodeColumn metric count bytes = .error fault := by
  rw [decodeColumn, dif_neg (by omega)]
  cases h with
  | number h =>
    have hfault := Varint.decode_eq_error_iff.mpr h
    rcases hdecode : Varint.decode bytes with ⟨result, rest⟩
    obtain rfl : result = .error fault := by rw [← hfault, hdecode]
    rfl
  | @run zero bytes fault hzero h =>
    have hfault := Varint.decode_eq_error_iff.mpr h
    simp only [Varint.decode_eq_ok_iff.mpr ⟨zero, rfl, hzero⟩, if_true]
    rcases hdecode : Varint.decode bytes with ⟨result, rest⟩
    obtain rfl : result = .error fault := by rw [← hfault, hdecode]
    rfl
  | @excess zero bytes rest run hzero hrun hlong =>
    simp only [Varint.decode_eq_ok_iff.mpr ⟨zero, rfl, hzero⟩, if_true,
      Varint.decode_eq_ok_iff.mpr ⟨bytes, rfl, hrun⟩, if_pos hlong]

/-- A number stands at the front of bytes, or none. -/
theorem decode_cases (bytes : Bytes) :
    (∃ n front rest, bytes = front ++ rest ∧ Varint.Spells front n) ∨
      ∃ fault, Varint.Breaks Varint.maxLength bytes fault := by
  rcases hdecode : Varint.decode bytes with ⟨fault | n, rest⟩
  · exact .inr ⟨fault, Varint.decode_eq_error_iff.mp (by rw [hdecode])⟩
  · obtain ⟨front, rfl, hfront⟩ := Varint.decode_eq_ok_iff.mp hdecode
    exact .inl ⟨n, front, rest, rfl, hfront⟩

/-- What can stand before a column that is not complete: a token that fits into it, or one that breaks it. -/
theorem token_cases (metric : Nat) {count : Nat} (hcount : 0 < count) (bytes : Bytes) :
    (∃ (token : Token) (front rest : Bytes), bytes = front ++ rest ∧ token.Spelt front ∧
      token.deltas.length ≤ count) ∨ ∃ fault, TokenBreaks metric count bytes fault := by
  rcases decode_cases bytes with ⟨n, front, rest, rfl, hfront⟩ | ⟨fault, hbreaks⟩
  · by_cases hn : n = 0
    · subst hn
      rcases decode_cases rest with ⟨run, front', rest, rfl, hrun⟩ | ⟨fault, hbreaks⟩
      · by_cases hfits : run.toNat + 1 ≤ count
        · refine .inl ⟨.zeros run, front ++ front', rest, ?_, .zeros hfront hrun, ?_⟩
          · rw [List.append_assoc]
          · simpa [Token.deltas] using hfits
        · exact .inr ⟨_, .excess hfront hrun (by omega)⟩
      · exact .inr ⟨fault, .run hfront hbreaks⟩
    · have hd : n.toInt64 ≠ 0 := fun hzero => hn (congrArg Int64.toUInt64 hzero)
      exact .inl ⟨.delta n.toInt64 hd, front, rest, rfl, .delta hfront, hcount⟩
  · exact .inr ⟨fault, .number hbreaks⟩

/-! ## Columns -/

theorem decodeColumn_zero (metric : Nat) (bytes : Bytes) : decodeColumn metric 0 bytes = .ok ([], bytes) := by
  rw [decodeColumn, dif_pos rfl]

/-- A column is read exactly from its forms; what follows them is left. -/
theorem decodeColumn_eq_ok_iff {metric count : Nat} {bytes rest : Bytes} {deltas : List Int64} :
    decodeColumn metric count bytes = .ok (deltas, rest) ↔
      ∃ front, bytes = front ++ rest ∧ IsColumn count front deltas := by
  constructor
  · intro h
    induction count using Nat.strongRecOn generalizing bytes deltas with
    | ind count ih =>
      rcases Nat.eq_zero_or_pos count with rfl | hcount
      · rw [decodeColumn_zero] at h
        obtain ⟨rfl, rfl⟩ := Prod.mk.inj (Except.ok.inj h)
        exact ⟨[], rfl, rfl, [], .nil, rfl⟩
      · rcases token_cases metric hcount bytes with ⟨token, front, behind, rfl, htoken, hfits⟩ | ⟨fault, hbreaks⟩
        · rw [decodeColumn_token htoken metric hfits] at h
          obtain ⟨⟨more, rest'⟩, hmore, heq⟩ := exists_of_map_eq_ok h
          obtain ⟨rfl, rfl⟩ := Prod.mk.inj heq
          have hpos := token.length_deltas_pos
          obtain ⟨front', rfl, hlength, tokens, htokens, hexpand⟩ := ih _ (by omega) hmore
          refine ⟨front ++ front', (List.append_assoc _ _ _).symm, ?_, token :: tokens, .cons htoken htokens, ?_⟩
          · rw [List.length_append, hlength]
            omega
          · rw [expand_cons, hexpand]
        · rw [decodeColumn_of_breaks hcount hbreaks] at h
          simp at h
  · rintro ⟨front, rfl, hlength, tokens, htokens, rfl⟩
    induction htokens generalizing count with
    | nil =>
      obtain rfl : 0 = count := hlength
      exact decodeColumn_zero metric rest
    | @cons token tokens front behind htoken _ ih =>
      rw [expand_cons, List.length_append] at hlength
      rw [List.append_assoc, decodeColumn_token htoken metric (by omega), ih (by omega), expand_cons]
      rfl

/-- A column is refused exactly where it breaks. -/
theorem decodeColumn_eq_error_iff {metric count : Nat} {bytes : Bytes} {fault : CorruptionFault} :
    decodeColumn metric count bytes = .error fault ↔ ColumnBreaks metric count bytes fault := by
  constructor
  · intro h
    induction count using Nat.strongRecOn generalizing bytes with
    | ind count ih =>
      rcases Nat.eq_zero_or_pos count with rfl | hcount
      · simp [decodeColumn_zero] at h
      · rcases token_cases metric hcount bytes with ⟨token, front, behind, rfl, htoken, hfits⟩ | ⟨fault', hbreaks⟩
        · rw [decodeColumn_token htoken metric hfits] at h
          have hpos := token.length_deltas_pos
          obtain ⟨tokens, front', behind', rfl, htokens, hlength, hbreaks⟩ := ih _ (by omega) (eq_error_of_map h)
          refine ⟨token :: tokens, front ++ front', behind', (List.append_assoc _ _ _).symm,
            .cons htoken htokens, ?_, ?_⟩
          · rw [expand_cons, List.length_append]
            omega
          · rwa [expand_cons, List.length_append, Nat.sub_add_eq]
        · rw [decodeColumn_of_breaks hcount hbreaks] at h
          obtain rfl := Except.error.inj h
          exact ⟨[], [], bytes, rfl, .nil, hcount, hbreaks⟩
  · rintro ⟨tokens, front, behind, rfl, htokens, hlength, hbreaks⟩
    induction htokens generalizing count with
    | nil => exact decodeColumn_of_breaks hlength hbreaks
    | @cons token tokens front rest htoken _ ih =>
      rw [expand_cons, List.length_append] at hlength hbreaks
      rw [Nat.sub_add_eq] at hbreaks
      rw [List.append_assoc, decodeColumn_token htoken metric (by omega), ih (by omega) hbreaks]
      rfl

/-- Columns are read exactly from their forms, one after the other. -/
theorem decodeColumns_eq_ok_iff {count left metric : Nat} {bytes rest : Bytes} {columns : List (List Int64)} :
    decodeColumns count left metric bytes = .ok (columns, rest) ↔
      ∃ groups : List Bytes, bytes = groups.flatten ++ rest ∧ groups.length = left ∧
        List.Forall₂ (IsColumn count) groups columns := by
  induction left generalizing metric bytes columns with
  | zero =>
    constructor
    · intro h
      obtain ⟨rfl, rfl⟩ := Prod.mk.inj (Except.ok.inj h)
      exact ⟨[], rfl, rfl, .nil⟩
    · rintro ⟨groups, rfl, hlength, hgroups⟩
      obtain rfl := List.eq_nil_of_length_eq_zero hlength
      obtain rfl := List.forall₂_nil_left_iff.mp hgroups
      rfl
  | succ left ih =>
    rw [decodeColumns]
    constructor
    · intro h
      split at h
      · simp at h
      · next deltas behind hcolumn =>
        split at h
        · simp at h
        · next more rest' hmore =>
          obtain ⟨rfl, rfl⟩ := Prod.mk.inj (Except.ok.inj h)
          obtain ⟨front, rfl, hfront⟩ := decodeColumn_eq_ok_iff.mp hcolumn
          obtain ⟨groups, rfl, rfl, hgroups⟩ := ih.mp hmore
          exact ⟨front :: groups, by rw [List.flatten_cons, List.append_assoc], rfl, .cons hfront hgroups⟩
    · rintro ⟨groups, rfl, hlength, hgroups⟩
      cases hgroups with
      | nil => simp at hlength
      | @cons front deltas groups columns hfront hgroups =>
        have hcolumn : decodeColumn metric count (front ++ (groups.flatten ++ rest)) =
            .ok (deltas, groups.flatten ++ rest) := decodeColumn_eq_ok_iff.mpr ⟨front, rfl, hfront⟩
        have hmore : decodeColumns count left (metric + 1) (groups.flatten ++ rest) = .ok (columns, rest) :=
          ih.mpr ⟨groups, rfl, Nat.succ.inj hlength, hgroups⟩
        rw [List.flatten_cons, List.append_assoc, hcolumn]
        simp only [hmore]

/-- Columns are refused exactly where one of them breaks, whatever follows. -/
theorem decodeColumns_eq_error_iff {count left metric : Nat} {bytes : Bytes} {fault : CorruptionFault} :
    decodeColumns count left metric bytes = .error fault ↔
      ∃ (groups : List Bytes) (columns : List (List Int64)) (behind : Bytes), bytes = groups.flatten ++ behind ∧
        groups.length < left ∧ List.Forall₂ (IsColumn count) groups columns ∧
        ColumnBreaks (metric + groups.length) count behind fault := by
  induction left generalizing metric bytes with
  | zero =>
    constructor
    · intro h
      simp [decodeColumns] at h
    · rintro ⟨groups, -, -, -, hlength, -⟩
      simp at hlength
  | succ left ih =>
    rw [decodeColumns]
    constructor
    · intro h
      split at h
      · next hcolumn =>
        obtain rfl := Except.error.inj h
        exact ⟨[], [], bytes, rfl, Nat.succ_pos _, .nil, decodeColumn_eq_error_iff.mp hcolumn⟩
      · next deltas behind hcolumn =>
        split at h
        · next hmore =>
          obtain rfl := Except.error.inj h
          obtain ⟨front, rfl, hfront⟩ := decodeColumn_eq_ok_iff.mp hcolumn
          obtain ⟨groups, columns, behind', rfl, hlength, hgroups, hbreaks⟩ := ih.mp hmore
          refine ⟨front :: groups, deltas :: columns, behind', ?_, ?_, .cons hfront hgroups, ?_⟩
          · rw [List.flatten_cons, List.append_assoc]
          · rwa [List.length_cons, Nat.succ_lt_succ_iff]
          · rwa [List.length_cons, ← Nat.add_assoc, Nat.add_right_comm]
        · simp at h
    · rintro ⟨groups, columns, behind, rfl, hlength, hgroups, hbreaks⟩
      cases hgroups with
      | nil =>
        have hcolumn := decodeColumn_eq_error_iff.mpr hbreaks
        rw [List.length_nil, Nat.add_zero] at hcolumn
        rw [List.flatten_nil, List.nil_append, hcolumn]
      | @cons front deltas groups columns hfront hgroups =>
        rw [List.length_cons, ← Nat.add_assoc, Nat.add_right_comm] at hbreaks
        have hcolumn : decodeColumn metric count (front ++ (groups.flatten ++ behind)) =
            .ok (deltas, groups.flatten ++ behind) := decodeColumn_eq_ok_iff.mpr ⟨front, rfl, hfront⟩
        have hmore : decodeColumns count left (metric + 1) (groups.flatten ++ behind) = .error fault :=
          ih.mpr ⟨groups, columns, behind, rfl, Nat.lt_of_succ_lt_succ hlength, hgroups, hbreaks⟩
        rw [List.flatten_cons, List.append_assoc, hcolumn]
        simp only [hmore]

/-! ## Streams -/

/-- Within the limits of a chunk, columns are read from bytes exactly if these are a group of tokens for each column
that expand to its deltas, followed by what is left. In every other case the bytes are refused, for exactly one fault:
after the groups of some columns and some tokens of another one there is no number where one should be, or a run that
reaches past the end of that column. -/
theorem accepts_grammar {metrics count : Nat} (hvalues : metrics * count ≤ maxChunkValues)
    (hcount : count ≤ maxChunkValues) (bytes : Bytes) :
    (∀ columns rest, decode metrics count bytes = .ok (columns, rest) ↔
      ∃ groups : List Bytes, bytes = groups.flatten ++ rest ∧ groups.length = metrics ∧
        List.Forall₂ (IsColumn count) groups columns) ∧
    (∀ fault, decode metrics count bytes = .error fault ↔
      ∃ (groups : List Bytes) (columns : List (List Int64)) (behind : Bytes), bytes = groups.flatten ++ behind ∧
        groups.length < metrics ∧ List.Forall₂ (IsColumn count) groups columns ∧
        ColumnBreaks groups.length count behind fault) ∧
    ((¬ ∃ (columns : List (List Int64)) (groups : List Bytes) (rest : Bytes), bytes = groups.flatten ++ rest ∧
        groups.length = metrics ∧ List.Forall₂ (IsColumn count) groups columns) →
      ∃ fault, decode metrics count bytes = .error fault) := by
  have hdecode : decode metrics count bytes = decodeColumns count metrics 0 bytes := if_pos ⟨hvalues, hcount⟩
  rw [hdecode]
  refine ⟨fun columns rest => decodeColumns_eq_ok_iff, fun fault => ?_, fun hnone => ?_⟩
  · rw [decodeColumns_eq_error_iff]
    simp only [Nat.zero_add]
  · cases hresult : decodeColumns count metrics 0 bytes with
    | error fault => exact ⟨fault, rfl⟩
    | ok result =>
      obtain ⟨groups, hbytes⟩ := decodeColumns_eq_ok_iff.mp hresult
      exact absurd ⟨result.1, groups, result.2, hbytes⟩ hnone

/-- Two columns of five, in which a zero is written in two bytes; and a run that reaches one past the end of the first,
although the second would have room for it. -/
theorem accepts_grammar_two_columns :
    decode 2 5 [5, 128, 0, 2, 7, 0, 4, 9] = .ok ([[5, 0, 0, 0, 7], [0, 0, 0, 0, 0]], [9]) ∧
      decode 2 5 [5, 0, 4, 0, 3] = .error (.zeroRun 0 1) := by
  have hlimits : 2 * 5 ≤ maxChunkValues ∧ 5 ≤ maxChunkValues := by decide
  have hfive : (Token.delta 5 (by decide)).Spelt [5] := .delta ⟨.last (by decide), by decide⟩
  have hseven : (Token.delta 7 (by decide)).Spelt [7] := .delta ⟨.last (by decide), by decide⟩
  have hzero : Varint.Spells [0] 0 := ⟨.last (by decide), by decide⟩
  have hlong : Varint.Spells [128, 0] 0 := ⟨.more (by decide) (.last (by decide)), by decide⟩
  have hthree : (Token.zeros 2).Spelt ([128, 0] ++ [2]) := .zeros hlong ⟨.last (by decide), by decide⟩
  have hfour : Varint.Spells [4] 4 := ⟨.last (by decide), by decide⟩
  constructor
  · refine (((accepts_grammar hlimits.1 hlimits.2 _).1 _ _).mpr ⟨[[5, 128, 0, 2, 7], [0, 4]], rfl, rfl, ?_⟩)
    have hfirst : Spelt _ ([5] ++ (([128, 0] ++ [2]) ++ ([7] ++ []))) := .cons hfive (.cons hthree (.cons hseven .nil))
    have hsecond : Spelt _ (([0] ++ [4]) ++ []) := .cons (.zeros hzero hfour) .nil
    exact .cons ⟨rfl, _, hfirst, rfl⟩ (.cons ⟨rfl, _, hsecond, rfl⟩ .nil)
  · refine (((accepts_grammar hlimits.1 hlimits.2 _).2.1 _).mpr
      ⟨[], [], [5, 0, 4, 0, 3], rfl, by decide, .nil, [_], [5], [0, 4, 0, 3], rfl, .cons hfive .nil, by decide, ?_⟩)
    exact .excess hzero hfour (by decide)

end Telemetry.Delta
