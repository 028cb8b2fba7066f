import CaveMap.Table
import Mathlib.Data.List.Basic
import Mathlib.Data.List.Induction
import Mathlib.Data.List.Infix

namespace CaveMap.Table

variable {α : Type}

theorem put_of_not_mem {key : String} {value : α} {entries : List (String × α)}
    (h : key ∉ entries.map (·.1)) : put key value entries = entries ++ [(key, value)] := by
  induction entries with
  | nil => rfl
  | cons entry rest ih =>
    rw [List.map_cons, List.mem_cons, not_or] at h
    rw [put, if_neg (Ne.symm h.1), ih h.2, List.cons_append]

theorem keys_put_of_mem {key : String} {value : α} {entries : List (String × α)}
    (h : key ∈ entries.map (·.1)) : (put key value entries).map (·.1) = entries.map (·.1) := by
  induction entries with
  | nil => simp at h
  | cons entry rest ih =>
    rw [put]
    split
    · rfl
    · next hne =>
      rw [List.map_cons, List.mem_cons] at h
      rw [List.map_cons, List.map_cons, ih (h.resolve_left (Ne.symm hne))]

theorem mem_put {key : String} {value : α} {entries : List (String × α)} {entry : String × α}
    (h : entry ∈ put key value entries) : entry = (key, value) ∨ entry ∈ entries := by
  induction entries with
  | nil => exact .inl (List.mem_singleton.1 h)
  | cons first rest ih =>
    rw [put] at h
    split at h
    · next heq =>
      rcases List.mem_cons.1 h with he | hin
      · exact .inl (by rw [he, ← heq])
      · exact .inr (List.mem_cons_of_mem _ hin)
    · rcases List.mem_cons.1 h with he | hin
      · exact .inr (he ▸ List.mem_cons_self)
      · exact (ih hin).imp_right (List.mem_cons_of_mem _)

theorem ext_entries {s t : Table α} (h : s.entries = t.entries) : s = t := by
  cases s with
  | mk entries nodup => cases t with
    | mk entries' nodup' => cases h; rfl

theorem contains_iff {table : Table α} {key : String} : table.contains key ↔ key ∈ table.keys := by
  obtain ⟨entries, nodup⟩ := table
  simp only [contains, get?, keys]
  clear nodup
  induction entries with
  | nil => simp
  | cons entry rest ih =>
    obtain ⟨k, v⟩ := entry
    rw [List.lookup_cons, List.map_cons, List.mem_cons]
    by_cases h : key = k
    · simp [h]
    · simp only [beq_eq_false_iff_ne.2 h, ih, h, false_or]

theorem mem_of_get? {table : Table α} {key : String} {value : α} (h : table.get? key = some value) :
    (key, value) ∈ table.entries := by
  obtain ⟨entries, nodup⟩ := table
  simp only [get?] at h ⊢
  clear nodup
  induction entries with
  | nil => simp at h
  | cons entry rest ih =>
    obtain ⟨k, v⟩ := entry
    rw [List.lookup_cons] at h
    by_cases hk : key = k
    · simp only [hk, beq_self_eq_true, Option.some.injEq] at h
      rw [hk, h]
      exact List.mem_cons_self
    · simp only [beq_eq_false_iff_ne.2 hk] at h
      exact List.mem_cons_of_mem _ (ih h)

theorem get?_of_mem {table : Table α} {key : String} {value : α} (h : (key, value) ∈ table.entries) :
    table.get? key = some value := by
  obtain ⟨entries, nodup⟩ := table
  simp only [get?] at h ⊢
  induction entries with
  | nil => simp at h
  | cons entry rest ih =>
    obtain ⟨k, v⟩ := entry
    obtain ⟨hnot, hrest⟩ := List.nodup_cons.1 nodup
    rw [List.lookup_cons]
    rcases List.mem_cons.1 h with he | hin
    · cases he
      simp
    · have hne : key ≠ k := by
        rintro rfl
        exact hnot (List.mem_map_of_mem (f := (·.1)) hin)
      simp only [beq_eq_false_iff_ne.2 hne]
      exact ih hrest hin

theorem mem_keys_of_get? {table : Table α} {key : String} {value : α} (h : table.get? key = some value) :
    key ∈ table.keys :=
  List.mem_map_of_mem (f := (·.1)) (mem_of_get? h)

theorem keys_insert_of_mem {table : Table α} {key : String} {value : α} (h : key ∈ table.keys) :
    (table.insert key value).keys = table.keys :=
  keys_put_of_mem h

theorem entries_insert_of_not_mem {table : Table α} {key : String} {value : α} (h : key ∉ table.keys) :
    (table.insert key value).entries = table.entries ++ [(key, value)] :=
  put_of_not_mem h

theorem put_of_mem {key : String} {value : α} {entries : List (String × α)} (hn : (entries.map (·.1)).Nodup)
    (h : key ∈ entries.map (·.1)) :
    put key value entries = entries.map fun entry => (entry.1, if entry.1 = key then value else entry.2) := by
  induction entries with
  | nil => simp at h
  | cons entry rest ih =>
    obtain ⟨k, v⟩ := entry
    obtain ⟨hnot, hrest⟩ := List.nodup_cons.1 hn
    rw [put, List.map_cons]
    dsimp only
    split
    · next hk =>
      have hothers : (rest.map fun entry => (entry.1, if entry.1 = key then value else entry.2)) = rest.map id := by
        apply List.map_congr_left
        intro other hin
        have hne : other.1 ≠ key := by
          intro he
          exact hnot (List.mem_map.2 ⟨other, hin, he.trans hk.symm⟩)
        rw [if_neg hne, id]
      rw [hothers, List.map_id]
    · next hk =>
      rw [List.map_cons, List.mem_cons] at h
      rw [ih hrest (h.resolve_left (Ne.symm hk))]

theorem entries_insert_of_mem {table : Table α} {key : String} {value : α} (h : key ∈ table.keys) :
    (table.insert key value).entries =
      table.entries.map fun entry => (entry.1, if entry.1 = key then value else entry.2) :=
  put_of_mem table.nodup h

theorem keys_prefix_insert (table : Table α) (key : String) (value : α) :
    table.keys <+: (table.insert key value).keys := by
  by_cases h : key ∈ table.keys
  · rw [keys_insert_of_mem h]
  · rw [keys, keys, entries_insert_of_not_mem h, List.map_append]
    exact List.prefix_append _ _

theorem mem_keys_insert {table : Table α} {key k : String} {value : α} :
    k ∈ (table.insert key value).keys ↔ k = key ∨ k ∈ table.keys :=
  mem_keys_put

theorem entries_foldl_insert {table : Table α} {entries : List (String × α)} (h : (entries.map (·.1)).Nodup)
    (hnew : ∀ entry ∈ entries, entry.1 ∉ table.keys) :
    (entries.foldl (fun table (key, value) => table.insert key value) table).entries = table.entries ++ entries := by
  induction entries generalizing table with
  | nil => exact (List.append_nil _).symm
  | cons entry rest ih =>
    obtain ⟨hnot, hrest⟩ := List.nodup_cons.1 h
    rw [List.forall_mem_cons] at hnew
    rw [List.foldl_cons, ih hrest, entries_insert_of_not_mem hnew.1, List.append_assoc, List.singleton_append]
    intro other hin hkeys
    rcases mem_keys_insert.1 hkeys with he | hold
    · exact hnot (List.mem_map.2 ⟨other, hin, he⟩)
    · exact hnew.2 other hin hold

theorem entries_ofList {entries : List (String × α)} (h : (entries.map (·.1)).Nodup) :
    (ofList entries).entries = entries :=
  entries_foldl_insert h fun _ _ => List.not_mem_nil

theorem fill_cons (table : Table α) (key : String) (value : α) (rest : List (String × α)) :
    table.fill ((key, value) :: rest) =
      (if table.contains key then table else table.insert key value).fill rest := rfl

theorem keys_prefix_fill (table : Table α) (entries : List (String × α)) :
    table.keys <+: (table.fill entries).keys := by
  induction entries generalizing table with
  | nil => exact List.prefix_rfl
  | cons entry rest ih =>
    obtain ⟨key, value⟩ := entry
    rw [fill_cons]
    split
    · exact ih table
    · exact (keys_prefix_insert table key value).trans (ih _)

theorem mem_entries_fill {table : Table α} {entries : List (String × α)} {entry : String × α}
    (h : entry ∈ (table.fill entries).entries) : entry ∈ table.entries ∨ entry ∈ entries := by
  induction entries generalizing table with
  | nil => exact .inl h
  | cons first rest ih =>
    obtain ⟨key, value⟩ := first
    rw [fill_cons] at h
    split at h
    · exact (ih h).imp_right (List.mem_cons_of_mem _)
    · rcases ih h with hin | hin
      · rcases mem_put hin with he | hold
        · exact .inr (he ▸ List.mem_cons_self)
        · exact .inl hold
      · exact .inr (List.mem_cons_of_mem _ hin)

theorem mem_keys_fill {table : Table α} {entries : List (String × α)} {key : String}
    (h : key ∈ entries.map (·.1)) : key ∈ (table.fill entries).keys := by
  induction entries generalizing table with
  | nil => simp at h
  | cons first rest ih =>
    obtain ⟨k, value⟩ := first
    rw [fill_cons]
    rw [List.map_cons, List.mem_cons] at h
    rcases h with rfl | hin
    · refine (keys_prefix_fill _ rest).subset ?_
      split
      · next hc => exact contains_iff.1 hc
      · exact mem_keys_insert.2 (.inl rfl)
    · exact ih hin

theorem fill_append (table : Table α) (front back : List (String × α)) :
    table.fill (front ++ back) = (table.fill front).fill back :=
  List.foldl_append

theorem fill_of_keys {table : Table α} {entries : List (String × α)}
    (h : ∀ entry ∈ entries, entry.1 ∈ table.keys) : table.fill entries = table := by
  induction entries with
  | nil => rfl
  | cons entry rest ih =>
    obtain ⟨key, value⟩ := entry
    have hin : table.contains key := contains_iff.2 (h (key, value) List.mem_cons_self)
    rw [fill_cons, if_pos hin]
    exact ih fun e he => h e (List.mem_cons_of_mem _ he)

/-- The first entry of each key. -/
def firsts (entries : List (String × α)) : List (String × α) :=
  entries.eraseDupsBy fun entry other => entry.1 == other.1

theorem firsts_cons (key : String) (value : α) (rest : List (String × α)) :
    firsts ((key, value) :: rest) = (key, value) :: firsts (rest.filter (·.1 ≠ key)) := by
  simp [firsts, List.eraseDupsBy_cons]

theorem firsts_of_nodup {entries : List (String × α)} (h : (entries.map (·.1)).Nodup) :
    firsts entries = entries := by
  induction entries with
  | nil => rfl
  | cons entry rest ih =>
    obtain ⟨hnot, hrest⟩ := List.nodup_cons.1 h
    have hothers : rest.filter (·.1 ≠ entry.1) = rest :=
      List.filter_eq_self.2 fun other hin => decide_eq_true fun he => hnot (List.mem_map.2 ⟨other, hin, he⟩)
    rw [firsts_cons, hothers, ih hrest]

/-- Filling in leaves the entries as they are and adds the first entry of each new key. -/
theorem entries_fill (table : Table α) (entries : List (String × α)) :
    (table.fill entries).entries =
      table.entries ++ firsts (entries.filter (·.1 ∉ table.keys)) := by
  induction entries generalizing table with
  | nil => exact (List.append_nil _).symm
  | cons entry rest ih =>
    obtain ⟨key, value⟩ := entry
    rw [fill_cons]
    by_cases hin : key ∈ table.keys
    · rw [if_pos (contains_iff.2 hin), ih, List.filter_cons_of_neg (by simpa using hin)]
    · have hkeys : ∀ k, k ∈ (table.insert key value).keys ↔ k = key ∨ k ∈ table.keys := fun _ =>
        mem_keys_insert
      rw [if_neg (contains_iff.not.2 hin), ih, entries_insert_of_not_mem hin,
        List.filter_cons_of_pos (by simpa using hin), firsts_cons, List.append_assoc, List.filter_filter]
      simp only [List.singleton_append, hkeys, not_or, Bool.decide_and]

theorem mem_keys_fill_empty {entries : List (String × α)} {key : String} :
    key ∈ (fill ∅ entries).keys ↔ key ∈ entries.map (·.1) := by
  constructor
  · intro h
    obtain ⟨entry, hentry, rfl⟩ := List.mem_map.1 h
    rcases mem_entries_fill hentry with hin | hin
    · exact absurd hin List.not_mem_nil
    · exact List.mem_map_of_mem hin
  · exact mem_keys_fill

theorem keys_fill_empty (entries : List (String × α)) :
    (fill ∅ entries).keys = (entries.map (·.1)).eraseDups := by
  induction entries using List.reverseRecOn with
  | nil => rfl
  | append_singleton front entry ih =>
    obtain ⟨key, value⟩ := entry
    rw [fill_append, fill_cons, List.map_append, List.map_singleton, List.eraseDups_append, ← ih]
    by_cases hin : key ∈ (fill ∅ front).keys
    · have hfront : key ∈ front.map (·.1) := mem_keys_fill_empty.1 hin
      rw [if_pos (contains_iff.2 hin)]
      simp [hfront, List.removeAll, fill]
    · have hfront : key ∉ front.map (·.1) := fun h => hin (mem_keys_fill_empty.2 h)
      rw [if_neg (contains_iff.not.2 hin), keys, fill, List.foldl_nil, entries_insert_of_not_mem hin, List.map_append]
      simp [hfront, List.removeAll, List.eraseDups_cons, keys]

/-- What is there already goes before what is filled in, and the first entry of a key before the later ones. -/
theorem get?_fill (table : Table α) (entries : List (String × α)) (key : String) :
    (table.fill entries).get? key = (table.get? key).or (entries.lookup key) := by
  induction entries generalizing table with
  | nil => exact (Option.or_none ..).symm
  | cons entry rest ih =>
    obtain ⟨k, value⟩ := entry
    rw [fill_cons, ih, List.lookup_cons]
    by_cases hin : k ∈ table.keys
    · rw [if_pos (contains_iff.2 hin)]
      by_cases he : key = k
      · obtain ⟨old, hold⟩ := Option.isSome_iff_exists.1 (contains_iff.2 hin)
        rw [he, hold, Option.some_or, Option.some_or]
      · rw [beq_eq_false_iff_ne.2 he]
    · have hentries : (table.insert k value).entries = table.entries ++ [(k, value)] :=
        entries_insert_of_not_mem hin
      rw [if_neg (contains_iff.not.2 hin), get?, hentries, List.lookup_append, Option.or_assoc, List.lookup_cons]
      cases key == k <;> rfl

theorem fill_fill_empty (table : Table α) (entries : List (String × α)) :
    table.fill (fill ∅ entries).entries = table.fill entries := by
  induction entries using List.reverseRecOn with
  | nil => rfl
  | append_singleton front entry ih =>
    obtain ⟨key, value⟩ := entry
    have hstep (t : Table α) : t.fill [(key, value)] = if t.contains key then t else t.insert key value := rfl
    rw [fill_append, fill_append, hstep]
    by_cases hin : key ∈ (fill ∅ front).keys
    · have hfront : key ∈ (table.fill front).keys := mem_keys_fill (mem_keys_fill_empty.1 hin)
      rw [if_pos (contains_iff.2 hin), ih, hstep, if_pos (contains_iff.2 hfront)]
    · rw [if_neg (contains_iff.not.2 hin), entries_insert_of_not_mem hin, fill_append, ih]

end CaveMap.Table
