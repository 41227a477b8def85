import Mathlib.Data.List.Forall2

/-!
# Computations that may fail

What a computation in steps comes to tells what its first step came to (`exists_of_bind_eq_ok`), and what a list is
mapped to tells what becomes of each of its members (`mapM_eq_ok_iff`).
-/

namespace Telemetry

/-- A computation that succeeds has succeeded in its first step. -/
theorem exists_of_bind_eq_ok {ε α β : Type} {x : Except ε α} {f : α → Except ε β} {b : β} (h : x >>= f = .ok b) :
    ∃ a, x = .ok a ∧ f a = .ok b := by
  cases x with
  | error e => simp [bind, Except.bind] at h
  | ok a => exact ⟨a, rfl, h⟩

/-- What is made of a result tells the result. -/
theorem exists_of_map_eq_ok {ε α β : Type} {x : Except ε α} {f : α → β} {b : β} (h : x.map f = .ok b) :
    ∃ a, x = .ok a ∧ b = f a := by
  cases x with
  | error e => simp [Except.map] at h
  | ok a => exact ⟨a, rfl, (Except.ok.inj h).symm⟩

/-- Nothing can be made of an error. -/
theorem eq_error_of_map {ε α β : Type} {x : Except ε α} {f : α → β} {e : ε} (h : x.map f = .error e) : x = .error e := by
  cases x with
  | error e' => exact congrArg _ (Except.error.inj h)
  | ok a => simp [Except.map] at h

/-- A list is mapped without an error exactly if each of its members is. -/
theorem mapM_eq_ok_iff {α β ε : Type} {f : α → Except ε β} {as : List α} {bs : List β} :
    as.mapM f = .ok bs ↔ List.Forall₂ (fun a b => f a = .ok b) as bs := by
  induction as generalizing bs with
  | nil =>
    constructor
    · intro h
      obtain rfl := Except.ok.inj h
      exact .nil
    · intro h
      obtain rfl := List.forall₂_nil_left_iff.mp h
      rfl
  | cons a as ih =>
    rw [List.mapM_cons]
    constructor
    · intro h
      cases hb : f a with
      | error e => simp [hb, bind, Except.bind] at h
      | ok b =>
        cases hmore : as.mapM f with
        | error e => simp [hb, hmore, bind, Except.bind] at h
        | ok more =>
          simp only [hb, hmore, bind, Except.bind, pure, Except.pure, Except.ok.injEq] at h
          subst h
          exact .cons hb (ih.mp hmore)
    · rintro (_ | ⟨hb, hmore⟩)
      simp [hb, ih.mpr hmore, bind, Except.bind, pure, Except.pure]

/-- A list is mapped without an error if each of its members is. -/
theorem exists_mapM_eq_ok {α β ε : Type} {f : α → Except ε β} {as : List α} (h : ∀ a ∈ as, ∃ b, f a = .ok b) :
    ∃ bs, as.mapM f = .ok bs := by
  simp only [mapM_eq_ok_iff]
  induction as with
  | nil => exact ⟨[], .nil⟩
  | cons a as ih =>
    obtain ⟨b, hb⟩ := h a List.mem_cons_self
    obtain ⟨bs, hbs⟩ := ih fun a' ha' => h a' (List.mem_cons_of_mem a ha')
    exact ⟨b :: bs, .cons hb hbs⟩

/-- What keeps a list from being mapped is an error of one of its members. -/
theorem exists_of_mapM_eq_error {α β ε : Type} {f : α → Except ε β} {as : List α} {e : ε}
    (h : as.mapM f = .error e) : ∃ a ∈ as, f a = .error e := by
  induction as with
  | nil => simp [pure, Except.pure] at h
  | cons a as ih =>
    rw [List.mapM_cons] at h
    cases hfirst : f a with
    | error e' =>
      simp only [hfirst, bind, Except.bind, Except.error.injEq] at h
      exact ⟨a, List.mem_cons_self, h ▸ hfirst⟩
    | ok b =>
      cases hmore : as.mapM f with
      | error e' =>
        simp only [hfirst, hmore, bind, Except.bind, Except.error.injEq] at h
        obtain ⟨a', ha', hfault⟩ := ih (h ▸ hmore)
        exact ⟨a', List.mem_cons_of_mem a ha', hfault⟩
      | ok bs => simp [hfirst, hmore, bind, Except.bind, pure, Except.pure] at h

/-- What comes of a list comes of each of its members. -/
theorem exists_of_map_mapM_eq_ok {α β γ ε : Type} {f : α → Except ε β} {g : List β → γ} {as : List α} {c : γ}
    (h : (as.mapM f).map g = .ok c) : ∀ a ∈ as, ∃ b, f a = .ok b := by
  obtain ⟨bs, hmap, -⟩ := exists_of_map_eq_ok h
  have hall := mapM_eq_ok_iff.mp hmap
  clear h hmap
  induction hall with
  | nil => simp
  | cons hb _ ih => exact List.forall_mem_cons.mpr ⟨⟨_, hb⟩, ih⟩

/-- One more member is mapped at the end. -/
theorem mapM_concat_eq_ok {α β ε : Type} {f : α → Except ε β} {as : List α} {bs : List β} {a : α} {b : β}
    (h : as.mapM f = .ok bs) (hb : f a = .ok b) : (as ++ [a]).mapM f = .ok (bs ++ [b]) :=
  mapM_eq_ok_iff.mpr (List.rel_append (mapM_eq_ok_iff.mp h) (.cons hb .nil))

end Telemetry
