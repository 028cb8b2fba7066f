import CaveMap.Value
import Mathlib.Data.List.Induction
import Mathlib.Data.List.Nodup

namespace CaveMap.Value

@[simp] theorem equals_text (s t : String) : (text s).equals (text t) = decide (s = t) := by
  simp only [equals]

theorem equals_text_iff {v : Value} {t : String} : v.equals (text t) ↔ v = text t := by
  cases v <;> simp [equals, integer?]

theorem text_equals_iff {v : Value} {t : String} : (text t).equals v ↔ v = text t := by
  cases v <;> simp [equals, integer?, eq_comm]

theorem any_equals_texts (ids : List String) (id : String) :
    (ids.map text).any (·.equals (text id)) = decide (id ∈ ids) := by
  induction ids with
  | nil => rfl
  | cons first rest ih =>
    rw [List.map_cons, List.any_cons, ih, equals_text, ← Bool.decide_or]
    simp only [List.mem_cons, eq_comm]

theorem any_text_equals (ids : List String) (id : String) :
    (ids.map text).any (text id).equals = decide (id ∈ ids) := by
  induction ids with
  | nil => rfl
  | cons first rest ih =>
    rw [List.map_cons, List.any_cons, ih, equals_text, ← Bool.decide_or]
    simp only [List.mem_cons]

theorem areWritable_iff {items : List Value} : areWritable items ↔ ∀ v ∈ items, v.isWritable := by
  induction items with
  | nil => simp [areWritable]
  | cons first rest ih => rw [areWritable, Bool.and_eq_true, ih, List.forall_mem_cons]

theorem entriesWritable_iff {entries : List (Value × Value)} :
    entriesWritable entries ↔ ∀ entry ∈ entries, entry.1.isWritable ∧ entry.2.isWritable := by
  induction entries with
  | nil => simp [entriesWritable]
  | cons first rest ih =>
    rw [entriesWritable, Bool.and_eq_true, Bool.and_eq_true, ih, List.forall_mem_cons]

theorem areWritable_texts (texts : List String) : areWritable (texts.map text) := by
  rw [areWritable_iff, List.forall_mem_map]
  exact fun _ _ => rfl

theorem distinct_append_singleton (items : List Value) (v : Value) :
    distinct (items ++ [v]) =
      if (distinct items).any v.equals then distinct items else distinct items ++ [v] := by
  rw [distinct, List.foldl_append]
  rfl

theorem distinct_distinct (items : List Value) : distinct (distinct items) = distinct items := by
  induction items using List.reverseRecOn with
  | nil => rfl
  | append_singleton front v ih =>
    rw [distinct_append_singleton]
    split
    · exact ih
    · next hnew => rw [distinct_append_singleton, ih, if_neg hnew]

theorem mem_distinct_text {items : List Value} {t : String} : text t ∈ distinct items ↔ text t ∈ items := by
  induction items using List.reverseRecOn with
  | nil => rfl
  | append_singleton front v ih =>
    rw [distinct_append_singleton, List.mem_append, List.mem_singleton, ← ih]
    split
    · next hany =>
      obtain ⟨w, hw, he⟩ := List.any_eq_true.1 hany
      constructor
      · exact Or.inl
      · rintro (hin | rfl)
        · exact hin
        · exact text_equals_iff.1 he ▸ hw
    · rw [List.mem_append, List.mem_singleton]

theorem distinct_texts {ids : List String} (h : ids.Nodup) :
    distinct (ids.map text) = ids.map text := by
  induction ids using List.reverseRecOn with
  | nil => rfl
  | append_singleton ids id ih =>
    obtain ⟨hids, -, hdisj⟩ := List.nodup_append'.1 h
    have hid : id ∉ ids := fun hin => hdisj hin (List.mem_singleton_self id)
    rw [List.map_append, List.map_singleton, distinct_append_singleton, ih hids, any_text_equals,
      if_neg (by simpa using hid)]

theorem distinct_map_text (ids : List String) : distinct (ids.map text) = ids.eraseDups.map text := by
  induction ids using List.reverseRecOn with
  | nil => rfl
  | append_singleton front id ih =>
    rw [List.map_append, List.map_singleton, distinct_append_singleton, ih, any_text_equals,
      List.eraseDups_append]
    by_cases hin : id ∈ front
    · simp [hin, List.removeAll]
    · simp [hin, List.removeAll, List.eraseDups_cons]

end CaveMap.Value
