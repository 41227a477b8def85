import Telemetry.Json.Reader

/-!
# JSON values that were read

An object that was read holds each key once, and so does every object in it: `Json.everywhere_of_parse`. That is what
`Json.distinct` sees to, and it leaves members alone whose keys are distinct already (`Json.distinct_eq_self`).

What holds of a value and of all values in it is said by `Json.Everywhere`.
-/

namespace Telemetry.Json

/-! ## Everywhere in a value -/

mutual

/-- The property holds of a value and of all values in it. -/
def Everywhere (p : Json → Prop) : Json → Prop
  | .array items => p (.array items) ∧ EverywhereInItems p items
  | .object members => p (.object members) ∧ EverywhereInMembers p members
  | j => p j

/-- The property holds everywhere in the items. -/
def EverywhereInItems (p : Json → Prop) : List Json → Prop
  | [] => True
  | j :: rest => j.Everywhere p ∧ EverywhereInItems p rest

/-- The property holds everywhere in the values of the members. -/
def EverywhereInMembers (p : Json → Prop) : List (String × Json) → Prop
  | [] => True
  | (_, j) :: rest => j.Everywhere p ∧ EverywhereInMembers p rest

end

mutual

/-- What follows from a property everywhere holds everywhere. -/
theorem Everywhere.imp {p q : Json → Prop} (hpq : ∀ j, p j → q j) : ∀ {j : Json}, j.Everywhere p → j.Everywhere q
  | .array _, h => ⟨hpq _ h.1, EverywhereInItems.imp hpq h.2⟩
  | .object _, h => ⟨hpq _ h.1, EverywhereInMembers.imp hpq h.2⟩
  | .null, h => hpq .null h
  | .boolean b, h => hpq (.boolean b) h
  | .integer n, h => hpq (.integer n) h
  | .double d, h => hpq (.double d) h
  | .text s, h => hpq (.text s) h

theorem EverywhereInItems.imp {p q : Json → Prop} (hpq : ∀ j, p j → q j) : ∀ {items : List Json},
    EverywhereInItems p items → EverywhereInItems q items
  | [], _ => trivial
  | _ :: _, h => ⟨h.1.imp hpq, EverywhereInItems.imp hpq h.2⟩

theorem EverywhereInMembers.imp {p q : Json → Prop} (hpq : ∀ j, p j → q j) : ∀ {members : List (String × Json)},
    EverywhereInMembers p members → EverywhereInMembers q members
  | [], _ => trivial
  | _ :: _, h => ⟨h.1.imp hpq, EverywhereInMembers.imp hpq h.2⟩

end

variable {p : Json → Prop}

theorem everywhereInMembers_iff {members : List (String × Json)} :
    EverywhereInMembers p members ↔ ∀ member ∈ members, member.2.Everywhere p := by
  induction members with
  | nil => simp [EverywhereInMembers]
  | cons member members ih => rw [EverywhereInMembers, ih, List.forall_mem_cons]

/-! ## Distinct keys -/

/-- An object holds each key once. -/
def KeysDistinct : Json → Prop
  | .object members => (members.map Prod.fst).Nodup
  | _ => True

variable {key : String} {value : Json} {members : List (String × Json)}

/-- A new member comes behind those with other keys. -/
theorem insert_of_notMem (h : key ∉ members.map Prod.fst) : insert key value members = members ++ [(key, value)] := by
  induction members with
  | nil => rfl
  | cons member members ih =>
    rw [List.map_cons, List.mem_cons, not_or] at h
    rw [insert, if_neg (Ne.symm h.1), ih h.2, List.cons_append]

/-- A member of a known key takes the place of the one before it. -/
theorem map_fst_insert_of_mem (h : key ∈ members.map Prod.fst) :
    (insert key value members).map Prod.fst = members.map Prod.fst := by
  induction members with
  | nil => simp at h
  | cons member members ih =>
    rw [insert]
    by_cases hkey : member.1 = key
    · rw [if_pos hkey]
      rfl
    · rw [List.map_cons, List.mem_cons] at h
      rw [if_neg hkey, List.map_cons, List.map_cons, ih (h.resolve_left (Ne.symm hkey))]

theorem nodup_insert (h : (members.map Prod.fst).Nodup) : ((insert key value members).map Prod.fst).Nodup := by
  by_cases hmem : key ∈ members.map Prod.fst
  · rwa [map_fst_insert_of_mem hmem]
  · rw [insert_of_notMem hmem, List.map_append, List.nodup_append]
    refine ⟨h, List.nodup_cons.mpr ⟨List.not_mem_nil, List.nodup_nil⟩, ?_⟩
    intro a ha b hb heq
    obtain rfl : b = key := List.mem_singleton.mp hb
    exact hmem (heq ▸ ha)

/-- What is among the members after an insertion was inserted or has been there. -/
theorem eq_or_mem_of_mem_insert {member : String × Json} (h : member ∈ insert key value members) :
    member.2 = value ∨ member ∈ members := by
  induction members with
  | nil =>
    rw [insert, List.mem_singleton] at h
    exact .inl (h ▸ rfl)
  | cons first members ih =>
    rw [insert] at h
    by_cases hkey : first.1 = key
    · rw [if_pos hkey, List.mem_cons] at h
      rcases h with rfl | h
      · exact .inl rfl
      · exact .inr (List.mem_cons_of_mem first h)
    · rw [if_neg hkey, List.mem_cons] at h
      rcases h with rfl | h
      · exact .inr List.mem_cons_self
      · exact (ih h).imp_right (List.mem_cons_of_mem first)

theorem distinct_eq_foldl (members : List (String × Json)) :
    distinct members = members.foldl (fun done member => insert member.1 member.2 done) [] := rfl

theorem nodup_distinct (members : List (String × Json)) : ((distinct members).map Prod.fst).Nodup := by
  rw [distinct_eq_foldl]
  suffices h : ∀ done : List (String × Json), (done.map Prod.fst).Nodup →
      ((members.foldl (fun done member => insert member.1 member.2 done) done).map Prod.fst).Nodup from
    h [] List.nodup_nil
  induction members with
  | nil => exact fun done h => h
  | cons member members ih => exact fun done h => ih _ (nodup_insert h)

/-- The values that are left are among those that were there. -/
theorem everywhereInMembers_distinct (h : EverywhereInMembers p members) : EverywhereInMembers p (distinct members) := by
  rw [distinct_eq_foldl]
  suffices hmore : ∀ done, EverywhereInMembers p done →
      EverywhereInMembers p (members.foldl (fun done member => insert member.1 member.2 done) done) from
    hmore [] trivial
  induction members with
  | nil => exact fun done hdone => hdone
  | cons member members ih =>
    intro done hdone
    rw [everywhereInMembers_iff] at hdone
    apply ih h.2
    rw [everywhereInMembers_iff]
    intro found hfound
    rcases eq_or_mem_of_mem_insert hfound with hnew | hold
    · exact hnew ▸ h.1
    · exact hdone found hold

/-- Members with distinct keys stay as they are. -/
theorem distinct_eq_self (h : (members.map Prod.fst).Nodup) : distinct members = members := by
  rw [distinct_eq_foldl]
  suffices hmore : ∀ done : List (String × Json), ((done ++ members).map Prod.fst).Nodup →
      members.foldl (fun done member => insert member.1 member.2 done) done = done ++ members from hmore [] h
  induction members with
  | nil => exact fun done _ => (List.append_nil done).symm
  | cons member members ih =>
    intro done hdone
    have hnew : member.1 ∉ done.map Prod.fst := by
      rw [List.map_append, List.nodup_append] at hdone
      intro hmem
      exact hdone.2.2 _ hmem _ (List.mem_map_of_mem List.mem_cons_self) rfl
    have hmore := ih (List.nodup_cons.mp h).2 (done ++ [member])
    rw [List.append_assoc, List.singleton_append] at hmore
    rw [List.foldl_cons, insert_of_notMem hnew]
    exact hmore hdone

/-! ## Reading -/

/-- A value that holds no other values. -/
def IsLeaf : Json → Prop
  | .array _ | .object _ => False
  | _ => True

theorem IsLeaf.everywhere {j : Json} (h : j.IsLeaf) : j.Everywhere KeysDistinct := by
  cases j <;> trivial

variable {bound depth : Nat} {cs rest : List Char} {j : Json} {items : List Json}

theorem isLeaf_of_readNumber {negative : Bool} (h : readNumber negative cs = some (j, rest)) : j.IsLeaf := by
  rw [readNumber] at h
  split at h
  · simp at h
  · next x rest' hnumeral =>
    obtain ⟨value, hvalue, hpair⟩ := Option.map_eq_some_iff.mp h
    obtain ⟨rfl, -⟩ := Prod.mk.inj hpair
    have hdouble {found? : Option Double} {v : Json} (hv : found?.map Json.double = some v) : v.IsLeaf := by
      obtain ⟨d, -, rfl⟩ := Option.map_eq_some_iff.mp hv
      trivial
    rw [Numeral.value?] at hvalue
    split at hvalue
    · rw [wholeNumber] at hvalue
      split at hvalue <;> split at hvalue
      all_goals first
        | exact hdouble hvalue
        | exact Option.some.inj hvalue ▸ trivial
    · exact hdouble hvalue

/-- What is made of what was read, and what follows it. -/
theorem exists_of_map_read {α β : Type} {read? : Option (α × List Char)} {f : α → β} {b : β} {rest : List Char}
    (h : read?.map (fun x => (f x.1, x.2)) = some (b, rest)) : ∃ a, read? = some (a, rest) ∧ b = f a := by
  obtain ⟨x, hread, hpair⟩ := Option.map_eq_some_iff.mp h
  obtain ⟨rfl, rfl⟩ := Prod.mk.inj hpair
  exact ⟨x.1, hread, rfl⟩

/-- A value is a leaf, or the items or members of it are read behind its first character. -/
theorem readValue_cases (h : readValue (bound + 1) depth cs = some (j, rest)) :
    j.IsLeaf ∨
      (∃ items, j = .array items ∧
        (items = [] ∨ ∃ depth' cs', readItems bound depth' cs' = some (items, rest))) ∨
      ∃ members, j = .object (distinct members) ∧
        (members = [] ∨ ∃ depth' cs', readMembers bound depth' cs' = some (members, rest)) := by
  rw [readValue] at h
  split at h
  · exact .inl ((Prod.mk.inj (Option.some.inj h)).1 ▸ trivial)
  · exact .inl ((Prod.mk.inj (Option.some.inj h)).1 ▸ trivial)
  · exact .inl ((Prod.mk.inj (Option.some.inj h)).1 ▸ trivial)
  · obtain ⟨s, -, rfl⟩ := exists_of_map_read (f := fun s => text (String.ofList s)) h
    exact .inl trivial
  · next cs' _ =>
    cases depth with
    | zero => simp at h
    | succ depth =>
      refine .inr (.inl ?_)
      dsimp only at h
      split at h
      · exact ⟨[], (Prod.mk.inj (Option.some.inj h)).1.symm, .inl rfl⟩
      · obtain ⟨items, hitems, rfl⟩ := exists_of_map_read h
        exact ⟨items, rfl, .inr ⟨depth, cs', hitems⟩⟩
  · next cs' _ =>
    cases depth with
    | zero => simp at h
    | succ depth =>
      refine .inr (.inr ?_)
      dsimp only at h
      split at h
      · exact ⟨[], (Prod.mk.inj (Option.some.inj h)).1.symm, .inl rfl⟩
      · obtain ⟨members, hmembers, rfl⟩ := exists_of_map_read (f := fun members => object (distinct members)) h
        exact ⟨members, rfl, .inr ⟨depth, cs', hmembers⟩⟩
  · exact .inl (isLeaf_of_readNumber h)
  · exact .inl (isLeaf_of_readNumber h)

/-- The first item is read, and then the others if there are any. -/
theorem readItems_cases (h : readItems (bound + 1) depth cs = some (items, rest)) :
    ∃ item more cs', items = item :: more ∧ readValue bound depth cs = some (item, cs') ∧
      (more = [] ∨ ∃ cs'', readItems bound depth cs'' = some (more, rest)) := by
  rw [readItems] at h
  split at h
  · simp at h
  · next item cs' hitem =>
    split at h
    · next cs'' _ =>
      obtain ⟨more, hmore, rfl⟩ := exists_of_map_read h
      exact ⟨item, more, cs', rfl, hitem, .inr ⟨cs'', hmore⟩⟩
    · exact ⟨item, [], cs', (Prod.mk.inj (Option.some.inj h)).1.symm, hitem, .inl rfl⟩
    · simp at h

/-- The first member is read, and then the others if there are any. -/
theorem readMembers_cases (h : readMembers (bound + 1) depth cs = some (members, rest)) :
    ∃ key value more cs' cs'', members = (key, value) :: more ∧ readValue bound depth cs' = some (value, cs'') ∧
      (more = [] ∨ ∃ cs'', readMembers bound depth cs'' = some (more, rest)) := by
  rw [readMembers] at h
  split at h
  · split at h
    · simp at h
    · next key _ _ =>
      split at h
      · next cs' _ =>
        split at h
        · simp at h
        · next value cs'' hvalue =>
          split at h
          · next cs₁ _ =>
            obtain ⟨more, hmore, rfl⟩ := exists_of_map_read h
            exact ⟨_, value, more, cs', cs'', rfl, hvalue, .inr ⟨cs₁, hmore⟩⟩
          · exact ⟨_, value, [], cs', cs'', (Prod.mk.inj (Option.some.inj h)).1.symm, hvalue, .inl rfl⟩
          · simp at h
      · simp at h
  · simp at h

/-- What is read at any depth holds each key once. -/
theorem everywhere_of_read (bound : Nat) :
    (∀ {depth cs rest j}, readValue bound depth cs = some (j, rest) → j.Everywhere KeysDistinct) ∧
    (∀ {depth cs rest items}, readItems bound depth cs = some (items, rest) → EverywhereInItems KeysDistinct items) ∧
    ∀ {depth cs rest members}, readMembers bound depth cs = some (members, rest) →
      EverywhereInMembers KeysDistinct members := by
  induction bound with
  | zero =>
    refine ⟨?_, ?_, ?_⟩
    all_goals
      intro depth cs rest _ h
      simp [readValue, readItems, readMembers] at h
  | succ bound ih =>
    obtain ⟨ihvalue, ihitems, ihmembers⟩ := ih
    refine ⟨?_, ?_, ?_⟩
    · intro depth cs rest j h
      rcases readValue_cases h with hleaf | ⟨items, rfl, rfl | ⟨_, _, hitems⟩⟩ | ⟨members, rfl, rfl | ⟨_, _, hmembers⟩⟩
      · exact hleaf.everywhere
      · exact ⟨trivial, trivial⟩
      · exact ⟨trivial, ihitems hitems⟩
      · exact ⟨nodup_distinct [], trivial⟩
      · exact ⟨nodup_distinct members, everywhereInMembers_distinct (ihmembers hmembers)⟩
    · intro depth cs rest items h
      obtain ⟨item, more, _, rfl, hitem, rfl | ⟨_, hmore⟩⟩ := readItems_cases h
      · exact ⟨ihvalue hitem, trivial⟩
      · exact ⟨ihvalue hitem, ihitems hmore⟩
    · intro depth cs rest members h
      obtain ⟨key, value, more, _, _, rfl, hvalue, rfl | ⟨_, hmore⟩⟩ := readMembers_cases h
      · exact ⟨ihvalue hvalue, trivial⟩
      · exact ⟨ihvalue hvalue, ihmembers hmore⟩

/-- Every object that was read holds each key once. -/
theorem everywhere_of_parse {s : String} {j : Json} (h : parse s = some j) : j.Everywhere KeysDistinct := by
  rw [parse, parseChars] at h
  split at h
  · next j' rest hread =>
    split at h
    · exact Option.some.inj h ▸ (everywhere_of_read _).1 hread
    · simp at h
  · simp at h

end Telemetry.Json
