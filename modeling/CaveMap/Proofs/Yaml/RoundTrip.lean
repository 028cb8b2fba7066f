import CaveMap.Proofs.Text.Lines
import CaveMap.Proofs.Yaml.Reading

namespace CaveMap

namespace Yaml

open Written

section Clean

variable {c : Char} {m column k : Nat} {v : Value}

/-- All that is written for a value can stand in a document. -/
def Clean (v : Value) : Prop :=
  ∀ (m column : Nat) (compact : Bool), ∀ c ∈ behindMark m column compact v, IsClean c

theorem isClean_space : IsClean ' ' := IsFold.isClean (.inl rfl)

theorem isClean_of_mem_newLine (h : c ∈ newLine m) : IsClean c := (isFold_of_mem_newLine h).isClean

theorem clean_sequence {items : List Value} (h : ∀ item ∈ items, Clean item) (m : Nat) :
    ∀ c ∈ sequence m items, IsClean c := by
  induction items with
  | nil => exact fun _ hin => absurd hin List.not_mem_nil
  | cons item rest ih =>
    intro c hin
    have hrest := ih fun other hother => h other (List.mem_cons_of_mem _ hother)
    rw [Written.sequence, List.cons_append, List.mem_cons, List.mem_append] at hin
    rcases hin with rfl | hin | hin
    · exact ⟨by decide, by decide⟩
    · exact h item List.mem_cons_self m (m + 1) true c hin
    · split at hin
      · cases hin
      · rcases List.mem_append.1 hin with hin | hin
        · exact isClean_of_mem_newLine hin
        · exact hrest c hin

theorem clean_keyChars (key : String) (h : c ∈ (keyChars m (.text key)).1) : IsClean c := by
  have hcolon : IsClean ':' := ⟨by decide, by decide⟩
  cases hsimple : isSimpleKey key Tag.text with
  | true =>
    rw [keyChars_simple hsimple] at h
    rcases List.mem_append.1 h with h | h
    · exact isClean_of_mem_chars h
    · rw [List.mem_singleton.1 h]
      exact hcolon
  | false =>
    rw [keyChars_marked hsimple] at h
    rcases List.mem_cons.1 h with rfl | h
    · exact ⟨by decide, by decide⟩
    rcases List.mem_cons.1 h with rfl | h
    · exact isClean_space
    · rcases List.mem_append.1 h with h | h
      · rcases List.mem_append.1 h with h | h
        · exact isClean_of_mem_chars h
        · exact isClean_of_mem_newLine h
      · rw [List.mem_singleton.1 h]
        exact hcolon

theorem clean_mapping {entries : List (String × Value)} (h : ∀ entry ∈ entries, Clean entry.2) (m : Nat) :
    ∀ c ∈ mapping m (textEntries entries), IsClean c := by
  induction entries with
  | nil => exact fun _ hin => absurd hin List.not_mem_nil
  | cons entry rest ih =>
    obtain ⟨key, v⟩ := entry
    intro c hin
    have hrest := ih fun other hother => h other (List.mem_cons_of_mem _ hother)
    have hcons := mapping_cons m key v rest []
    rw [List.append_nil] at hcons
    rw [hcons, List.mem_append, List.mem_append] at hin
    rcases hin with hin | hin | hin
    · exact clean_keyChars key hin
    · exact h (key, v) List.mem_cons_self m _ _ c hin
    · unfold behindEntry at hin
      split at hin
      · cases hin
      · rw [List.append_nil] at hin
        rcases List.mem_append.1 hin with hin | hin
        · exact isClean_of_mem_newLine hin
        · exact hrest c hin

theorem Storable.clean (h : Storable k v) : Clean v := by
  have hempty (first last : Char) (hf : IsClean first) (hl : IsClean last) : ∀ c ∈ [' ', first, last], IsClean c := by
    intro c hin
    simp only [List.mem_cons, List.not_mem_nil, or_false] at hin
    rcases hin with rfl | rfl | rfl
    · exact isClean_space
    · exact hf
    · exact hl
  induction h with
  | scalar h =>
    intro m column compact c hin
    rw [behindMark_scalar h] at hin
    rcases List.mem_cons.1 hin with rfl | hin
    · exact isClean_space
    · exact isClean_of_mem_chars hin
  | @list k items _ ih =>
    intro m column compact
    by_cases hne : items = []
    · rw [hne, (behindMark_nil m column compact).1]
      exact hempty '[' ']' ⟨by decide, by decide⟩ ⟨by decide, by decide⟩
    · rw [behindMark_sequence hne]
      intro c hin
      split at hin
      · rcases List.mem_cons.1 hin with rfl | hin
        · exact isClean_space
        · exact clean_sequence ih _ c hin
      · rcases List.mem_append.1 hin with hin | hin
        · exact isClean_of_mem_newLine hin
        · exact clean_sequence ih _ c hin
  | @map k entries _ _ _ ih =>
    intro m column compact
    by_cases hne : textEntries entries = []
    · rw [hne, (behindMark_nil m column compact).2]
      exact hempty '\x7b' '\x7d' ⟨by decide, by decide⟩ ⟨by decide, by decide⟩
    · rw [behindMark_mapping hne]
      intro c hin
      rcases List.mem_append.1 hin with hin | hin
      · split at hin
        · rw [List.mem_singleton.1 hin]
          exact isClean_space
        · exact isClean_of_mem_newLine hin
      · exact clean_mapping ih _ c hin

end Clean

section Documents

variable {k : Nat} {entries : List (String × Value)}

/-- A mapping that can be stored at the top of a document. -/
structure StorableDocument (entries : List (String × Value)) : Prop where
  nodup : (entries.map (·.1)).Nodup
  keys : ∀ entry ∈ entries, IsKey entry.1
  filled : entries ≠ []
  values : ∃ k, (∀ entry ∈ entries, Storable k entry.2) ∧ 2 * k + 2 < width

theorem StorableDocument.of_short (keys : List String) (hkeys : entries.map (·.1) = keys) (hnodup : keys.Nodup)
    (hshort : ∀ key ∈ keys, IsShortKey key) (hne : keys ≠ [])
    (hvalues : ∀ entry ∈ entries, Storable k entry.2) (hk : 2 * k + 2 < width) : StorableDocument entries where
  nodup := hkeys ▸ hnodup
  keys _ hin := (hshort _ (hkeys ▸ List.mem_map_of_mem hin)).isKey
  filled he := hne (by rw [← hkeys, he]; rfl)
  values := ⟨k, hvalues, hk⟩

theorem document_mapping (hne : entries ≠ []) :
    document (.map (textEntries entries)) = mapping 0 (textEntries entries) ++ ['\n'] := by
  cases entries with
  | nil => exact absurd rfl hne
  | cons entry rest => simp [document, scalar?, textEntries]

theorem clean_document (h : StorableDocument entries) : ∀ c ∈ document (.map (textEntries entries)), IsClean c := by
  obtain ⟨k, hvalues, -⟩ := h.values
  intro c hin
  rw [document_mapping h.filled] at hin
  rcases List.mem_append.1 hin with hin | hin
  · exact clean_mapping (fun entry hentry => (hvalues entry hentry).clean) 0 c hin
  · rw [List.mem_singleton.1 hin]
    exact IsFold.isClean (.inr rfl)

theorem load_document (h : StorableDocument entries) :
    load (document (.map (textEntries entries))) = .ok (.map (textEntries entries)) := by
  obtain ⟨k, hvalues, hw⟩ := h.values
  have hmeans : Node.Means (.map (textEntries entries)) :=
    Node.means_mapping h.nodup fun entry hin => Node.means (hvalues entry hin)
  have hread := read_document (fun c hin => (clean_document h c hin).1) h.keys hvalues h.filled hw
  have hnode : nodeOf (.map (textEntries entries)) = .mapping Tag.mapping (entryNodes (textEntries entries)) := by
    rw [nodeOf]
  rw [← hnode] at hread
  have hvalue := hmeans _ (Nat.le_succ (2 * (nodeOf (.map (textEntries entries))).depth + 1))
  unfold load
  rw [hread]
  simp only [bind, Except.bind, hvalue]
  rfl

theorem Storable.isWritable {v : Value} (h : Storable k v) : v.isWritable := by
  induction h with
  | scalar h => exact h.writable
  | list _ ih => exact Value.areWritable_iff.2 ih
  | map _ _ _ ih => exact Value.entriesWritable_iff.2 (List.forall_mem_map.2 fun entry hin => ⟨rfl, ih entry hin⟩)

theorem StorableDocument.isWritable (h : StorableDocument entries) :
    (Value.map (textEntries entries)).isWritable := by
  obtain ⟨k, hvalues, -⟩ := h.values
  exact Value.entriesWritable_iff.2
    (List.forall_mem_map.2 fun entry hin => ⟨rfl, (hvalues entry hin).isWritable⟩)

/-- A mapping is read back from the file that it is written to. -/
theorem load_dump (h : StorableDocument entries) :
    load (Text.unifyNewlines (dump (.map (textEntries entries))).toList) = .ok (.map (textEntries entries)) := by
  have hreturn : '\r' ∉ document (.map (textEntries entries)) := fun hin => (clean_document h '\r' hin).2 rfl
  rw [dump, String.toList_ofList, Text.unifyNewlines_of_notMem hreturn, load_document h]

end Documents

end Yaml

end CaveMap
