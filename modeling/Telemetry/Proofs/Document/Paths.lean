import Telemetry.Proofs.Document.Everywhere
import Telemetry.Proofs.Fingerprint

/-!
# Paths into a document

The segments on the way to a metric-bearing field are joined with dots to its key, and a position in an array is
written in decimal. Looking up the key takes it apart again, goes into documents by the first field of a key, and
into arrays by position.

What a path leads to (`Value.Leads`) does not depend on keys being distinct: a document may lead to several values
by one path, and looking up finds the first. If keys are distinct and have no dots, and arrays are short, then
what a path leads to is what is found under its dotted key (`Value.Leads.getPath?_eq`). The path of a metric-bearing
field leads to its value (`Value.leads_of_mem_metricFields`).
-/

namespace Telemetry

/-! ## Positions in decimal -/

/-- Digits stand for their value, if it fits. -/
theorem natural64?_of_digits {digits : List Char} (hne : digits ≠ []) (hdigits : ∀ c ∈ digits, c.isDigit = true)
    (hfits : decimalValue 0 digits < UInt64.size) : natural64? digits = some (decimalValue 0 digits) := by
  have hall : digits.all isDecimalDigit = true := List.all_eq_true.mpr hdigits
  cases digits with
  | nil => exact absurd rfl hne
  | cons c digits =>
    have hplus : c ≠ '+' := by
      rintro rfl
      simpa using hdigits '+' List.mem_cons_self
    unfold natural64?
    split
    · next rest heq => exact absurd (List.cons.inj heq).1 hplus
    · dsimp only
      rw [hall, if_pos hfits]
      rfl

/-- A position that fits 64 bits is read from its decimal form. -/
theorem natural64?_toString {n : Nat} (h : n < UInt64.size) : natural64? (toString n).toList = some n := by
  rw [Nat.toString_eq_repr, Nat.toList_repr]
  have hvalue : decimalValue 0 (Nat.toDigits 10 n) = n := Nat.ofDigitChars_toDigits (by decide) (by decide)
  have hdigits : ∀ c ∈ Nat.toDigits 10 n, c.isDigit = true := fun c hc =>
    Nat.isDigit_of_mem_toDigits (by decide) (by decide) hc
  rw [natural64?_of_digits Nat.toDigits_ne_nil hdigits (by rwa [hvalue]), hvalue]

/-- The decimal form of a number has no dot in it. -/
theorem dot_notMem_toString (n : Nat) : '.' ∉ (toString n).toList := by
  rw [Nat.toString_eq_repr, Nat.toList_repr]
  intro hdot
  simpa using Nat.isDigit_of_mem_toDigits (by decide) (by decide) hdot

/-! ## Segments -/

/-- A path is taken apart at its dots. -/
theorem pathSegments_eq_splitOn (cs : List Char) : pathSegments cs = cs.splitOn '.' := by
  induction cs with
  | nil => rfl
  | cons c cs ih =>
    rw [pathSegments, ih, List.splitOn_cons_eq_if_modifyHead]
    simp only [beq_iff_eq]
    split
    · rfl
    · split
      · next h => exact absurd h (List.splitOn_ne_nil _ _)
      · next segment more h => rw [h, List.modifyHead_cons]

/-- Segments without dots come back from the path that they are joined to. -/
theorem pathSegments_intercalate {path : List String} (hne : path ≠ []) (hdot : ∀ segment ∈ path, '.' ∉ segment.toList) :
    pathSegments (".".intercalate path).toList = path.map String.toList := by
  rw [pathSegments_eq_splitOn, String.toList_intercalate]
  exact List.splitOn_intercalate '.' (by simpa using hdot) (by simpa using hne)

/-! ## Descent -/

/-- The value below another that segments lead to, one step for each. -/
def Value.descend? (segments : List (List Char)) (v : Value) : Option Value :=
  segments.foldl (fun reached segment => reached.bind (Value.child? segment)) (some v)

theorem Value.descend?_cons {segment : List Char} {segments : List (List Char)} {v w : Value}
    (h : v.child? segment = some w) : v.descend? (segment :: segments) = w.descend? segments := by
  rw [descend?, List.foldl_cons, Option.bind_some, h]
  rfl

/-- Looking up a path is the descent along its segments. -/
theorem Document.getPath?_eq (d : Document) (path : String) :
    d.getPath? path = (Value.document d).descend? (pathSegments path.toList) := by
  rw [getPath?]
  split
  · next h =>
    rw [pathSegments_eq_splitOn] at h
    exact absurd h (List.splitOn_ne_nil _ _)
  · next first more h =>
    rw [h, Value.descend?, List.foldl_cons]
    rfl

/-- A field is found by its key if no other field has the key. -/
theorem Document.get?_of_mem {d : Document} (h : (keys d).Nodup) {key : String} {v : Value} (hmem : (key, v) ∈ d) :
    d.get? key = some v := by
  induction d with
  | nil => simp at hmem
  | cons field d ih =>
    obtain ⟨hnew, hmore⟩ : field.1 ∉ keys d ∧ (keys d).Nodup := List.nodup_cons.mp h
    rcases List.mem_cons.mp hmem with rfl | hmem
    · simp [get?]
    · have hkey : key ∈ keys d := List.mem_map_of_mem hmem
      have hne : field.1 ≠ key := fun heq => hnew (heq ▸ hkey)
      rw [← ih hmore hmem, get?, List.find?_cons_of_neg (by simpa using hne)]
      rfl

namespace Value

/-- A path leads from a value to another: by keys through documents, and by positions through arrays. -/
inductive Leads : Value → List String → Value → Prop where
  | here (v : Value) : Leads v [] v
  | field {fields : List (String × Value)} {key : String} {v w : Value} {path : List String} (hmem : (key, v) ∈ fields)
      (hmore : Leads v path w) : Leads (.document fields) (key :: path) w
  | item {items : List Value} {i : Nat} {v w : Value} {path : List String} (hitem : items[i]? = some v)
      (hmore : Leads v path w) : Leads (.array items) (toString i :: path) w

namespace Leads

variable {v w : Value} {path : List String}

/-- The segments of a path have no dots if no key has one. -/
theorem dot_notMem (h : v.Leads path w) (hkeys : v.Everywhere (NoKeyHas '.')) :
    ∀ segment ∈ path, '.' ∉ segment.toList := by
  induction h with
  | here v => simp
  | field hmem hmore ih =>
    rw [List.forall_mem_cons]
    exact ⟨hkeys.1 _ (List.mem_map_of_mem hmem), ih (hkeys.field hmem)⟩
  | item hitem hmore ih =>
    rw [List.forall_mem_cons]
    exact ⟨dot_notMem_toString _, ih (hkeys.item (List.mem_of_getElem? hitem))⟩

/-- What a path leads to is found step by step. -/
theorem descend?_eq (h : v.Leads path w) (hdistinct : v.Everywhere KeysDistinct) (hshort : v.Everywhere IsShort) :
    v.descend? (path.map String.toList) = some w := by
  -- along the path: what holds everywhere in a value holds everywhere in the one that the first step leads to
  induction h with
  | here v => rfl
  | field hmem hmore ih =>
    rw [List.map_cons, descend?_cons, ih (hdistinct.field hmem) (hshort.field hmem)]
    rw [child?, String.ofList_toList, Document.get?_of_mem hdistinct.1 hmem]
  | @item items i v w path hitem hmore ih =>
    have hmem := List.mem_of_getElem? hitem
    have hi : i < UInt64.size := Nat.lt_trans (List.getElem?_eq_some_iff.mp hitem).1 hshort.1
    rw [List.map_cons, descend?_cons, ih (hdistinct.item hmem) (hshort.item hmem)]
    rw [child?, natural64?_toString hi, Option.bind_some, hitem]

/-- What a path leads to from a document is found under the dotted key. -/
theorem getPath?_eq {d : Document} (h : (Value.document d).Leads path w) (hne : path ≠ [])
    (hdistinct : (Value.document d).Everywhere KeysDistinct) (hkeys : (Value.document d).Everywhere (NoKeyHas '.'))
    (hshort : (Value.document d).Everywhere IsShort) : d.getPath? (".".intercalate path) = some w := by
  rw [Document.getPath?_eq, pathSegments_intercalate hne (h.dot_notMem hkeys), h.descend?_eq hdistinct hshort]

end Leads

end Value

/-! ## Paths of fields -/

mutual

/-- The path of a field leads to its value. -/
theorem Value.leads_of_mem_metricFields : ∀ v : Value, ∀ f ∈ v.metricFields, v.Leads f.path f.value
  | .document fields, f, hf => by
    rw [Value.metricFields] at hf
    obtain ⟨key, v, path, hpath, hmem, hmore⟩ := Document.exists_field_of_mem_metricFields fields f hf
    exact hpath ▸ .field hmem hmore
  | .array items, f, hf => by
    rw [Value.metricFields] at hf
    obtain ⟨i, v, path, hpath, hitem, hmore⟩ := Value.exists_item_of_mem_metricFieldsFrom 0 items f hf
    rw [hpath, Nat.zero_add]
    exact .item hitem hmore
  | .boolean _, f, hf | .int32 _, f, hf | .int64 _, f, hf | .double _, f, hf | .date _, f, hf
  | .timestamp _ _, f, hf => by
    simp only [Value.metricFields, Value.metricType?, List.mem_singleton] at hf
    rw [hf]
    exact .here _
  | .text _, f, hf | .objectId _, f, hf | .binary _, f, hf | .null, f, hf => by
    simp [Value.metricFields, Value.metricType?] at hf

/-- The path of a field of a document begins with a key, and leads on below the field that has it. -/
theorem Document.exists_field_of_mem_metricFields : ∀ (fields : List (String × Value)), ∀ f ∈ Document.metricFields fields,
    ∃ key v path, f.path = key :: path ∧ (key, v) ∈ fields ∧ v.Leads path f.value
  | [], f, hf => by simp [Document.metricFields] at hf
  | (key, v) :: fields, f, hf => by
    rw [Document.metricFields, List.mem_append, List.mem_map] at hf
    rcases hf with ⟨g, hg, rfl⟩ | hf
    · exact ⟨key, v, g.path, rfl, List.mem_cons_self, Value.leads_of_mem_metricFields v g hg⟩
    · obtain ⟨key', v', path, hpath, hmem, hmore⟩ := Document.exists_field_of_mem_metricFields fields f hf
      exact ⟨key', v', path, hpath, List.mem_cons_of_mem _ hmem, hmore⟩

/-- The path of a field of items begins with a position, and leads on below the item that stands there. -/
theorem Value.exists_item_of_mem_metricFieldsFrom : ∀ (first : Nat) (items : List Value),
    ∀ f ∈ Value.metricFieldsFrom first items,
      ∃ i v path, f.path = toString (first + i) :: path ∧ items[i]? = some v ∧ v.Leads path f.value
  | _, [], f, hf => by simp [Value.metricFieldsFrom] at hf
  | first, v :: items, f, hf => by
    rw [Value.metricFieldsFrom, List.mem_append, List.mem_map] at hf
    rcases hf with ⟨g, hg, rfl⟩ | hf
    · exact ⟨0, v, g.path, rfl, rfl, Value.leads_of_mem_metricFields v g hg⟩
    · obtain ⟨i, v', path, hpath, hitem, hmore⟩ := Value.exists_item_of_mem_metricFieldsFrom (first + 1) items f hf
      exact ⟨i + 1, v', path, by rw [hpath, Nat.add_assoc, Nat.add_comm 1], hitem, hmore⟩

end

/-- A metric-bearing field is found under its dotted key, where keys are distinct and have no dots. -/
theorem Document.getPath?_key {d : Document} (hdistinct : (Value.document d).Everywhere Value.KeysDistinct)
    (hkeys : (Value.document d).Everywhere (Value.NoKeyHas '.')) (hshort : (Value.document d).Everywhere Value.IsShort)
    {f : MetricField} (hf : f ∈ Document.metricFields d) : d.getPath? f.key = some f.value :=
  (Value.leads_of_mem_metricFields (.document d) f hf).getPath?_eq (path_ne_nil hf) hdistinct hkeys hshort

end Telemetry
