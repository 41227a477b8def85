import Telemetry.Document.Json
import Telemetry.Proofs.Document.Everywhere
import Telemetry.Proofs.Json

/-!
# Documents taken from JSON, and shown again

JSON whose numbers are integers of 64 bits or finite doubles, and whose objects hold each key once, is the JSON of the
document that it stands for (`Document.toJson_ofMembers`). Whatever its numbers are, the document holds each key once as
well, and has only values of the kinds that JSON has (`Value.everywhere_ofJson`). Both are put together in
`Document.json_unchanged`.

What remains of an object without doubles when its metrics, the numbers and truth values, are taken away is its outline
(`Json.outline`), and that is the JSON of the outline of the document (`Document.outline_ofMembers`).
-/

namespace Telemetry

namespace Json

/-- A number is an integer of 64 bits with a sign. -/
def IsWhole : Json → Prop
  | .integer n => -0x8000000000000000 ≤ n ∧ n < 0x8000000000000000
  | .double _ => False
  | _ => True

/-- A number is an integer of 64 bits with a sign, or a finite double. -/
def IsKept : Json → Prop
  | .integer n => -0x8000000000000000 ≤ n ∧ n < 0x8000000000000000
  | .double d => d.isFinite = true
  | _ => True

mutual

/-- A value with its numbers and truth values set to zero and false. -/
def outline : Json → Json
  | .boolean _ => .boolean false
  | .integer _ => .integer 0
  | .array items => .array (outlineOfItems items)
  | .object members => .object (outlineOfMembers members)
  | j => j

/-- Items with their numbers and truth values set to zero and false. -/
def outlineOfItems : List Json → List Json
  | [] => []
  | j :: rest => j.outline :: outlineOfItems rest

/-- Members with their numbers and truth values set to zero and false. -/
def outlineOfMembers : List (String × Json) → List (String × Json)
  | [] => []
  | (key, j) :: rest => (key, j.outline) :: outlineOfMembers rest

end

end Json

open Json

/-- An integer of 64 bits is kept as it is. -/
theorem Value.ofJson_integer {n : Int} (h : IsWhole (.integer n)) :
    Value.ofJson (.integer n) = .int64 (Int64.ofInt n) ∧ (Int64.ofInt n).toInt = n := by
  have hrange : -0x8000000000000000 ≤ n ∧ n < 0x8000000000000000 := h
  exact ⟨by rw [Value.ofJson, if_pos hrange], Int64.toInt_ofInt_of_le hrange.1 hrange.2⟩

mutual

/-- What a value stands for is shown as the value. -/
theorem Value.toJson_ofJson : ∀ {j : Json}, j.Everywhere KeysDistinct → j.Everywhere IsKept → (Value.ofJson j).toJson = j
  | .null, _, _ | .boolean _, _, _ | .text _, _, _ => rfl
  | .double d, _, hkept => by
    have hfinite : d.isFinite = true := hkept
    rw [Value.ofJson, Value.toJson, if_pos hfinite]
  | .integer n, _, hkept => by
    obtain ⟨hvalue, hint⟩ := Value.ofJson_integer hkept
    rw [hvalue, Value.toJson, hint]
  | .array items, hdistinct, hkept => by
    rw [Value.ofJson, Value.toJson, Value.itemsJson_ofJsonItems hdistinct.2 hkept.2]
  | .object members, hdistinct, hkept => by
    rw [Value.ofJson, Value.toJson, Document.membersJson_ofMembers hdistinct.2 hkept.2, distinct_eq_self hdistinct.1]

/-- What members stand for is shown as the members. -/
theorem Document.membersJson_ofMembers : ∀ {members : List (String × Json)},
    EverywhereInMembers KeysDistinct members → EverywhereInMembers IsKept members →
      Document.membersJson (Document.ofMembers members) = members
  | [], _, _ => rfl
  | (key, j) :: members, hdistinct, hkept => by
    rw [Document.ofMembers, Document.membersJson, Value.toJson_ofJson hdistinct.1 hkept.1,
      Document.membersJson_ofMembers hdistinct.2 hkept.2]

/-- What items stand for is shown as the items. -/
theorem Value.itemsJson_ofJsonItems : ∀ {items : List Json},
    EverywhereInItems KeysDistinct items → EverywhereInItems IsKept items →
      Value.itemsJson (Value.ofJsonItems items) = items
  | [], _, _ => rfl
  | j :: items, hdistinct, hkept => by
    rw [Value.ofJsonItems, Value.itemsJson, Value.toJson_ofJson hdistinct.1 hkept.1,
      Value.itemsJson_ofJsonItems hdistinct.2 hkept.2]

end

/-- A JSON object is shown as it was. -/
theorem Document.toJson_ofMembers {members : List (String × Json)}
    (hdistinct : (Json.object members).Everywhere KeysDistinct) (hkept : (Json.object members).Everywhere IsKept) :
    Document.toJson (Document.ofMembers members) = .object members := by
  rw [Document.toJson, Document.membersJson_ofMembers hdistinct.2 hkept.2, distinct_eq_self hdistinct.1]

/-! ## Documents that stand for objects -/

/-- A value of a kind that JSON has: a truth value, an integer of 64 bits, a double, a text, the null, a document or an
array. -/
def Value.HasJsonKind : Value → Prop
  | .boolean _ | .int64 _ | .double _ | .text _ | .null | .document _ | .array _ => True
  | _ => False

/-- A value such as JSON stands for: of a kind that JSON has, and if it is a document, with each key once. -/
structure Value.IsPlain (v : Value) : Prop where
  keysDistinct : v.KeysDistinct
  kind : v.HasJsonKind

theorem Document.keys_ofMembers (members : List (String × Json)) : keys (ofMembers members) = members.map Prod.fst := by
  induction members with
  | nil => rfl
  | cons member members ih => exact congrArg (member.1 :: ·) ih

/-- An integer stands for an integer, or for a double if it does not fit. -/
theorem Value.isPlain_ofJson_integer (n : Int) : (Value.ofJson (.integer n)).Everywhere Value.IsPlain := by
  rw [Value.ofJson]
  split
  all_goals exact ⟨trivial, trivial⟩

mutual

/-- What a value stands for is plain, as is everything in it. -/
theorem Value.everywhere_ofJson : ∀ {j : Json}, j.Everywhere KeysDistinct → (Value.ofJson j).Everywhere Value.IsPlain
  | .null, _ | .boolean _, _ | .double _, _ | .text _, _ => ⟨trivial, trivial⟩
  | .integer n, _ => Value.isPlain_ofJson_integer n
  | .array _, h => ⟨⟨trivial, trivial⟩, Value.everywhere_ofJsonItems h.2⟩
  | .object members, h => by
    have hkeys : (Document.keys (Document.ofMembers members)).Nodup := Document.keys_ofMembers members ▸ h.1
    exact ⟨⟨hkeys, trivial⟩, Document.everywhereInFields_ofMembers h.2⟩

/-- What members stand for is plain, as is everything in it. -/
theorem Document.everywhereInFields_ofMembers : ∀ {members : List (String × Json)},
    EverywhereInMembers KeysDistinct members → Document.EverywhereInFields Value.IsPlain (Document.ofMembers members)
  | [], _ => trivial
  | _ :: _, h => ⟨Value.everywhere_ofJson h.1, Document.everywhereInFields_ofMembers h.2⟩

/-- What items stand for is plain, as is everything in it. -/
theorem Value.everywhere_ofJsonItems : ∀ {items : List Json},
    EverywhereInItems KeysDistinct items → Value.EverywhereInItems Value.IsPlain (Value.ofJsonItems items)
  | [], _ => trivial
  | _ :: _, h => ⟨Value.everywhere_ofJson h.1, Value.everywhere_ofJsonItems h.2⟩

end

/-- JSON objects pass through documents. An object whose numbers are integers of 64 bits or finite doubles is taken as a
document, and that is shown as the object, with its members in their order at every level. Whatever its numbers are, the
document that is taken from JSON holds each key once at every level, and no values but those of the kinds that JSON
has. -/
theorem Document.json_unchanged :
    (∀ members, (Json.object members).Everywhere KeysDistinct → (Json.object members).Everywhere IsKept →
      ∃ d, Document.ofJson? (.object members) = .ok d ∧ Document.toJson d = .object members) ∧
    ∀ (j : Json) (d : Document), j.Everywhere KeysDistinct → Document.ofJson? j = .ok d →
      (Value.document d).Everywhere Value.IsPlain := by
  refine ⟨fun members hdistinct hkept => ⟨_, rfl, Document.toJson_ofMembers hdistinct hkept⟩, fun j d hdistinct h => ?_⟩
  cases j with
  | object members =>
    obtain rfl := Except.ok.inj h
    exact Value.everywhere_ofJson hdistinct
  | _ => cases h

/-- An object with keys out of order in an object, and a number that is no integer. -/
theorem Document.json_unchanged_two_levels :
    let members : List (String × Json) :=
      [("b", .object [("z", .null), ("a", .array [.double ⟨0x3ff8000000000000⟩, .integer (-7)])]), ("a", .text "")]
    ∃ d, Document.ofJson? (.object members) = .ok d ∧ Document.toJson d = .object members ∧
      (Value.document d).Everywhere Value.IsPlain := by
  intro members
  have hdistinct : (Json.object members).Everywhere KeysDistinct := by
    simp [members, Everywhere, EverywhereInMembers, EverywhereInItems, KeysDistinct]
  have hkept : (Json.object members).Everywhere IsKept := by
    simp [members, Everywhere, EverywhereInMembers, EverywhereInItems, IsKept]
    decide
  obtain ⟨d, hd, hshown⟩ := Document.json_unchanged.1 members hdistinct hkept
  exact ⟨d, hd, hshown, Document.json_unchanged.2 _ d hdistinct hd⟩

/-! ## Outlines -/

mutual

/-- The outline of a value stands for the outline of what the value stands for. -/
theorem Value.outline_ofJson : ∀ {j : Json}, j.Everywhere IsWhole → (Value.ofJson j).outline = Value.ofJson j.outline
  | .null, _ | .boolean _, _ | .text _, _ => rfl
  | .double _, hwhole => hwhole.elim
  | .integer n, hwhole => by
    rw [(Value.ofJson_integer hwhole).1]
    rfl
  | .array items, hwhole => by
    rw [Value.ofJson, Value.outline, Json.outline, Value.ofJson, Value.outlineOfItems_ofJsonItems hwhole.2]
  | .object members, hwhole => by
    rw [Value.ofJson, Value.outline, Json.outline, Value.ofJson, Document.outline_ofMembers hwhole.2]

/-- The outline of members stands for the outline of what the members stand for. -/
theorem Document.outline_ofMembers : ∀ {members : List (String × Json)}, EverywhereInMembers IsWhole members →
    Document.outline (Document.ofMembers members) = Document.ofMembers (outlineOfMembers members)
  | [], _ => rfl
  | (key, j) :: members, hwhole => by
    rw [Document.ofMembers, Document.outline, outlineOfMembers, Document.ofMembers, Value.outline_ofJson hwhole.1,
      Document.outline_ofMembers hwhole.2]

/-- The outlines of items stand for the outlines of what the items stand for. -/
theorem Value.outlineOfItems_ofJsonItems : ∀ {items : List Json}, EverywhereInItems IsWhole items →
    Value.outlineOfItems (Value.ofJsonItems items) = Value.ofJsonItems (outlineOfItems items)
  | [], _ => rfl
  | j :: items, hwhole => by
    rw [Value.ofJsonItems, Value.outlineOfItems, outlineOfItems, Value.ofJsonItems, Value.outline_ofJson hwhole.1,
      Value.outlineOfItems_ofJsonItems hwhole.2]

end

mutual

/-- No number is a double. -/
theorem Value.type_ne_double_ofJson : ∀ {j : Json}, j.Everywhere IsWhole → ∀ r ∈ (Value.ofJson j).readings, r.type ≠ .double
  | .null, _, r, hr | .text _, _, r, hr => by simp [Value.ofJson, Value.readings] at hr
  | .boolean b, _, r, hr => by
    obtain rfl := List.mem_singleton.mp hr
    exact nofun
  | .double _, hwhole, _, _ => hwhole.elim
  | .integer n, hwhole, r, hr => by
    rw [(Value.ofJson_integer hwhole).1, Value.readings, List.mem_singleton] at hr
    rw [hr]
    exact nofun
  | .array items, hwhole, r, hr => Value.type_ne_double_ofJsonItems hwhole.2 r hr
  | .object members, hwhole, r, hr => Document.type_ne_double_ofMembers hwhole.2 r hr

/-- No number among the members is a double. -/
theorem Document.type_ne_double_ofMembers : ∀ {members : List (String × Json)}, EverywhereInMembers IsWhole members →
    ∀ r ∈ Document.readings (Document.ofMembers members), r.type ≠ .double
  | [], _, r, hr => by simp [Document.ofMembers, Document.readings] at hr
  | (key, j) :: members, hwhole, r, hr => by
    rw [Document.ofMembers, Document.readings, List.mem_append] at hr
    rcases hr with hr | hr
    · exact Value.type_ne_double_ofJson hwhole.1 r hr
    · exact Document.type_ne_double_ofMembers hwhole.2 r hr

/-- No number among the items is a double. -/
theorem Value.type_ne_double_ofJsonItems : ∀ {items : List Json}, EverywhereInItems IsWhole items →
    ∀ r ∈ Value.readingsOfItems (Value.ofJsonItems items), r.type ≠ .double
  | [], _, r, hr => by simp [Value.ofJsonItems, Value.readingsOfItems] at hr
  | j :: items, hwhole, r, hr => by
    rw [Value.ofJsonItems, Value.readingsOfItems, List.mem_append] at hr
    rcases hr with hr | hr
    · exact Value.type_ne_double_ofJson hwhole.1 r hr
    · exact Value.type_ne_double_ofJsonItems hwhole.2 r hr

end

end Telemetry
