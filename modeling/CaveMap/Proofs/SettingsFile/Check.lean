import CaveMap.Proofs.Value
import CaveMap.SettingsFile.Schema

namespace CaveMap.SettingsFile

namespace Check

variable {α β : Type}

theorem map_eq_ok {f : α → β} {check : Check α} {b : β} :
    check.map f = .ok b ↔ ∃ a, check = .ok a ∧ f a = b := by
  cases check <;> simp [Except.map]

theorem bind_eq_ok {check : Check α} {next : α → Check β} {b : β} :
    check >>= next = .ok b ↔ ∃ a, check = .ok a ∧ next a = .ok b := by
  cases check <;> simp [Bind.bind, Except.bind]

theorem within_eq_ok {step : Step} {check : Check α} {a : α} :
    within step check = .ok a ↔ check = .ok a := by
  cases check <;> simp [within, Except.mapError]

theorem also_eq_ok {f : Check (α → β)} {x : Check α} {b : β} :
    also f x = .ok b ↔ ∃ g a, f = .ok g ∧ x = .ok a ∧ g a = b := by
  cases f <;> cases x <;> simp [also]

theorem gather_eq_ok {checks : List (Check α)} {values : List α} :
    gather checks = .ok values ↔ checks = values.map .ok := by
  induction checks generalizing values with
  | nil => cases values <;> simp [gather]
  | cons check rest ih =>
    rw [gather, also_eq_ok]
    constructor
    · rintro ⟨_, tail, hf, hrest, rfl⟩
      obtain ⟨a, hcheck, rfl⟩ := map_eq_ok.1 hf
      rw [List.map_cons, hcheck, ih.1 hrest]
    · intro h
      cases values with
      | nil => simp at h
      | cons a tail =>
        rw [List.map_cons, List.cons.injEq] at h
        exact ⟨List.cons a, tail, map_eq_ok.2 ⟨a, h.1, rfl⟩, ih.2 h.2, rfl⟩

theorem gather_map_eq {items : List β} {f : β → Check α} {g : β → α} {values : List α}
    (h : gather (items.map f) = .ok values) (hg : ∀ b ∈ items, ∀ a, f b = .ok a → a = g b) :
    values = items.map g := by
  rw [gather_eq_ok] at h
  induction items generalizing values with
  | nil => cases values with
    | nil => rfl
    | cons => simp at h
  | cons b rest ih =>
    cases values with
    | nil => simp at h
    | cons a tail =>
      rw [List.map_cons, List.map_cons, List.cons.injEq] at h
      rw [List.map_cons, hg b List.mem_cons_self a h.1,
        ih h.2 fun b hb => hg b (List.mem_cons_of_mem _ hb)]

end Check

open Check

theorem entry?_nil (key : String) : Value.entry? [] key = none := rfl

theorem entry?_cons (key k : String) (value : Value) (rest : Entries) :
    Value.entry? (entry k value :: rest) key = if k = key then some value else Value.entry? rest key := by
  unfold Value.entry? entry
  by_cases h : k = key <;> simp [h]

theorem entry?_map {α : Type} {items : List α} {key : α → String} {value : α → Value} {item : α}
    (hn : (items.map key).Nodup) (hin : item ∈ items) :
    Value.entry? (items.map fun a => entry (key a) (value a)) (key item) = some (value item) := by
  induction items with
  | nil => simp at hin
  | cons first rest ih =>
    rw [List.map_cons, entry?_cons]
    rw [List.map_cons, List.nodup_cons] at hn
    rcases List.mem_cons.1 hin with rfl | hrest
    · rw [if_pos rfl]
    · have hne : key first ≠ key item := fun he => hn.1 (he ▸ List.mem_map_of_mem hrest)
      rw [if_neg hne, ih hn.2 hrest]

variable {α β : Type} {entries : Entries} {key : String}

theorem fieldOr_eq_ok {value : Value} {default a : α} {check : Value → Check α}
    (he : Value.entry? entries key = some value) :
    fieldOr entries key default check = .ok a ↔ check value = .ok a := by
  rw [fieldOr, he]
  exact within_eq_ok

theorem fieldOr_absent {default : α} {check : Value → Check α}
    (he : Value.entry? entries key = none) : fieldOr entries key default check = .ok default := by
  rw [fieldOr, he]
  rfl

theorem optionalField_eq_ok {value : Value} {a : Option α} {check : Value → Check α}
    (he : Value.entry? entries key = some value) (hv : value ≠ .null) :
    optionalField entries key check = .ok a ↔ ∃ b, check value = .ok b ∧ some b = a := by
  rw [optionalField, fieldOr_eq_ok he]
  cases value with
  | null => exact absurd rfl hv
  | _ => exact map_eq_ok

theorem requiredField_eq_ok {value : Value} {a : α} {check : Value → Check α}
    (he : Value.entry? entries key = some value) :
    requiredField entries key check = .ok a ↔ check value = .ok a := by
  rw [requiredField, he]
  exact within_eq_ok

theorem closed_eq_ok {known : List String} {result : Check α} {a : α}
    (h : closed known entries result = .ok a) : result = .ok a := by
  obtain ⟨_, _, hf, -, rfl⟩ := also_eq_ok.1 h
  obtain ⟨b, hb, rfl⟩ := map_eq_ok.1 hf
  exact hb

theorem checkText_text (t : String) : checkText (.text t) = .ok t := rfl

theorem eq_of_accepted {p : Prop} [Decidable p] {a b : α} {complaint : Complaint}
    (h : (if p then return a else complain complaint : Check α) = .ok b) : b = a := by
  split at h <;> cases h
  rfl

theorem eq_of_not_refused {p : Prop} [Decidable p] {a b : α} {complaint : Complaint}
    (h : (if p then complain complaint else return a : Check α) = .ok b) : b = a := by
  split at h <;> cases h
  rfl

theorem checkFilledText_text {t s : String} (h : checkFilledText (.text t) = .ok s) : s = t :=
  eq_of_not_refused h

theorem checkColor_text {t s : String} (h : checkColor (.text t) = .ok s) : s = t :=
  eq_of_accepted h

theorem checkAnchor_text {t s : String} (h : checkAnchor (.text t) = .ok s) : s = t :=
  eq_of_accepted h

theorem checkFilled_text {key t s : String} (h : checkFilled key (.text t) = .ok s) : s = t :=
  eq_of_not_refused h

theorem checkChoice_eq_ok {names : List String} {v : Value} {s : String}
    (h : checkChoice names v = .ok s) : v = .text s := by
  unfold checkChoice at h
  split at h
  · rw [eq_of_accepted h]
  · cases h

theorem checkItems_map {check : Value → Check α} {items : List β} {document : β → Value} {g : β → α}
    {values : List α} (h : checkItems check (.list (items.map document)) = .ok values)
    (hg : ∀ b ∈ items, ∀ a, check (document b) = .ok a → a = g b) : values = items.map g := by
  change Check.gather (((items.map document).zipIdx).map fun x =>
    (check x.1).within (.index x.2)) = .ok values at h
  rw [List.zipIdx_map, List.map_map] at h
  have hall := gather_map_eq (g := fun x : β × Nat => g x.1) h fun x hx a ha =>
    hg x.1 (List.fst_mem_of_mem_zipIdx hx) a (within_eq_ok.1 ha)
  have hmap : items.zipIdx.map (fun x => g x.1) = (items.zipIdx.map Prod.fst).map g := by
    rw [List.map_map]
    rfl
  rw [hall, hmap, List.zipIdx_map_fst]

theorem checkTexts_eq {texts found : List String}
    (h : checkItems checkText (.list (texts.map .text)) = .ok found) : found = texts := by
  rw [checkItems_map (g := id) h fun t _ s hs => by cases hs; rfl, List.map_id]

end CaveMap.SettingsFile
