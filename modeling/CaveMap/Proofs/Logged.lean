import CaveMap.Log.Logged

namespace CaveMap

namespace Except

variable {ε ε' α β : Type}

theorem mapError_eq_ok {f : ε → ε'} {x : Except ε α} {a : α} : x.mapError f = .ok a ↔ x = .ok a := by
  cases x with
  | error cause => exact ⟨nofun, nofun⟩
  | ok b =>
    change Except.ok b = .ok a ↔ _
    simp only [Except.ok.injEq]

theorem mapError_eq_error {f : ε → ε'} {x : Except ε α} {fault : ε'} :
    x.mapError f = .error fault ↔ ∃ cause, x = .error cause ∧ f cause = fault := by
  cases x with
  | error cause =>
    change Except.error (f cause) = .error fault ↔ _
    simp
  | ok a => exact ⟨nofun, nofun⟩

theorem bind_eq_ok {x : Except ε α} {f : α → Except ε β} {b : β} :
    x >>= f = .ok b ↔ ∃ a, x = .ok a ∧ f a = .ok b := by
  cases x <;> simp [bind, Except.bind]

theorem eq_ok {x : Except ε α} {a : α} (h : x.toOption = some a) : x = .ok a := by
  cases x <;> cases h
  rfl

theorem exists_ok {x : Except ε α} (h : x.toOption.isSome) : ∃ a, x = .ok a := by
  obtain ⟨a, ha⟩ := Option.isSome_iff_exists.1 h
  exact ⟨a, eq_ok ha⟩

theorem mapM_ok {f : α → Except ε β} {g : α → β} {items : List α}
    (h : ∀ a ∈ items, f a = .ok (g a)) : items.mapM f = .ok (items.map g) := by
  induction items with
  | nil => rfl
  | cons a rest ih =>
    rw [List.mapM_cons, h a List.mem_cons_self, ih fun b hb => h b (List.mem_cons_of_mem _ hb)]
    rfl

theorem map_of_mapM {γ : Type} {f : α → Except ε β} {seen : β → γ} {said : α → γ} {items : List α}
    {results : List β} (h : items.mapM f = .ok results)
    (hkept : ∀ item ∈ items, ∀ result, f item = .ok result → seen result = said item) :
    results.map seen = items.map said := by
  induction items generalizing results with
  | nil =>
    cases h
    rfl
  | cons item rest ih =>
    rw [List.mapM_cons] at h
    obtain ⟨first, hfirst, h⟩ := bind_eq_ok.1 h
    obtain ⟨others, hothers, h⟩ := bind_eq_ok.1 h
    cases h
    rw [List.map_cons, List.map_cons, hkept item List.mem_cons_self first hfirst,
      ih hothers fun other hin => hkept other (List.mem_cons_of_mem item hin)]

theorem mapM_eq_error {f : α → Except ε β} {items : List α} {fault : ε} :
    items.mapM f = .error fault ↔ ∃ front item back, items = front ++ item :: back ∧
      (∀ earlier ∈ front, ∃ b, f earlier = .ok b) ∧ f item = .error fault := by
  induction items with
  | nil => simp [pure, Except.pure]
  | cons first rest ih =>
    rw [List.mapM_cons]
    cases hfirst : f first with
    | error other =>
      constructor
      · intro h
        cases h
        exact ⟨[], first, rest, rfl, by simp, hfirst⟩
      · rintro ⟨front, item, back, he, hfront, hitem⟩
        cases front with
        | nil =>
          cases he
          rw [hfirst] at hitem
          cases hitem
          rfl
        | cons head front =>
          cases he
          obtain ⟨b, hb⟩ := hfront first List.mem_cons_self
          rw [hfirst] at hb
          cases hb
    | ok b =>
      have hrest : (do let bs ← rest.mapM f; pure (b :: bs)) = .error fault ↔ rest.mapM f = .error fault := by
        cases rest.mapM f <;> simp [bind, Except.bind, pure, Except.pure]
      change (do let bs ← rest.mapM f; pure (b :: bs)) = .error fault ↔ _
      rw [hrest, ih]
      constructor
      · rintro ⟨front, item, back, rfl, hfront, hitem⟩
        exact ⟨first :: front, item, back, rfl, List.forall_mem_cons.2 ⟨⟨b, hfirst⟩, hfront⟩, hitem⟩
      · rintro ⟨front, item, back, he, hfront, hitem⟩
        cases front with
        | nil =>
          cases he
          rw [hfirst] at hitem
          cases hitem
        | cons head front =>
          cases he
          exact ⟨front, item, back, rfl, (List.forall_mem_cons.1 hfront).2, hitem⟩

end Except

namespace Logged

variable {ε α β : Type}

theorem bind_eq_ok {x : Logged ε α} {f : α → Logged ε β} {b : β} :
    (x >>= f).result = .ok b ↔ ∃ a, x.result = .ok a ∧ (f a).result = .ok b := by
  change (x.andThen f).result = _ ↔ _
  unfold andThen
  cases x.result <;> simp

theorem bind_of_ok {x : Logged ε α} {f : α → Logged ε β} {a : α} (h : x.result = .ok a) :
    (x >>= f).result = (f a).result := by
  change (x.andThen f).result = _
  rw [andThen, h]

theorem bind_eq_error {x : Logged ε α} {f : α → Logged ε β} {fault : ε} :
    (x >>= f).result = .error fault ↔
      x.result = .error fault ∨ ∃ a, x.result = .ok a ∧ (f a).result = .error fault := by
  change (x.andThen f).result = _ ↔ _
  unfold andThen
  cases x.result <;> simp

end Logged

end CaveMap
