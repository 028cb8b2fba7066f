import CaveMap.Files.Tree
import CaveMap.Proofs.Path

namespace CaveMap.FileTree

variable {tree tree' : FileTree} {place q : List String} {entry : FileEntry}

theorem lookup_filter_ne {α β : Type} [BEq α] [LawfulBEq α] [DecidableEq α] {a key : α}
    (entries : List (α × β)) (h : key ≠ a) :
    (entries.filter (·.1 ≠ a)).lookup key = entries.lookup key := by
  induction entries with
  | nil => rfl
  | cons first rest ih =>
    by_cases hf : first.1 = a
    · have hne : (key == first.1) = false := by simpa [hf] using h
      rw [List.filter_cons_of_neg (by simpa using hf), ih, List.lookup_cons, hne]
    · rw [List.filter_cons_of_pos (by simpa using hf), List.lookup_cons, List.lookup_cons, ih]

theorem get?_set (tree : FileTree) (entry : FileEntry) (hp : place ≠ []) :
    (tree.set place entry).get? q = if q = place then some entry else tree.get? q := by
  cases q with
  | nil => rw [if_neg (Ne.symm hp)]; rfl
  | cons name rest =>
    by_cases h : name :: rest = place
    · rw [if_pos h, ← h]
      simp [get?, set]
    · have hne : ((name :: rest : List String) == place) = false := by simpa using h
      rw [if_neg h]
      simp only [get?, set, List.lookup_cons, hne]
      exact lookup_filter_ne tree.entries h

theorem get?_erase (tree : FileTree) (hp : place ≠ []) :
    (tree.erase place).get? q = if q = place then none else tree.get? q := by
  cases q with
  | nil => rw [if_neg (Ne.symm hp)]; rfl
  | cons name rest =>
    by_cases h : name :: rest = place
    · rw [if_pos h]
      simp only [get?, erase, List.lookup_eq_none_iff]
      intro other hin
      have hne : other.1 ≠ place := of_decide_eq_true (List.mem_filter.1 hin).2
      rw [h]
      exact bne_iff_ne.2 (Ne.symm hne)
    · rw [if_neg h]
      exact lookup_filter_ne tree.entries h

theorem set_directories (hp : place ≠ []) (hf : tree.get? place ≠ some .directory)
    (hq : tree.get? q = some .directory) : (tree.set place entry).get? q = some .directory := by
  rw [get?_set tree entry hp, if_neg, hq]
  rintro rfl
  exact hf hq

theorem erase_directories (hp : place ≠ []) (hf : tree.get? place ≠ some .directory)
    (hq : tree.get? q = some .directory) : (tree.erase place).get? q = some .directory := by
  rw [get?_erase tree hp, if_neg, hq]
  rintro rfl
  exact hf hq

/-- Every entry lies in a directory, places are named without steps back, and there is a working
directory. -/
structure Proper (tree : FileTree) : Prop where
  parent : ∀ place name, tree.get? (place ++ [name]) ≠ none → tree.get? place = some .directory
  names : ∀ place, tree.get? place ≠ none → ".." ∉ place
  working : tree.get? tree.working = some .directory

theorem Proper.of_entries
    (h : ∀ entry ∈ tree.entries, ".." ∉ entry.1 ∧ tree.get? entry.1.dropLast = some .directory)
    (hworking : tree.get? tree.working = some .directory) : tree.Proper := by
  have hentry (place : List String) (hin : tree.get? place ≠ none) (hne : place ≠ []) :
      ".." ∉ place ∧ tree.get? place.dropLast = some .directory := by
    obtain ⟨name, rest, rfl⟩ := List.exists_cons_of_ne_nil hne
    obtain ⟨entry, hlookup⟩ := Option.ne_none_iff_exists'.1 hin
    obtain ⟨front, back, hentries, -⟩ := List.lookup_eq_some_iff.1 hlookup
    exact h (name :: rest, entry) (by rw [hentries]; simp)
  refine ⟨fun place name hin => ?_, fun place hin => ?_, hworking⟩
  · have hparent := (hentry (place ++ [name]) hin (by simp)).2
    rwa [List.dropLast_concat] at hparent
  · by_cases hne : place = []
    · rw [hne]
      exact List.not_mem_nil
    · exact (hentry place hin hne).1

theorem Proper.prefix_directory (h : tree.Proper) {front back : List String}
    (hin : tree.get? (front ++ back) ≠ none) (hb : back ≠ []) : tree.get? front = some .directory := by
  induction back using List.reverseRecOn with
  | nil => exact absurd rfl hb
  | append_singleton back name ih =>
    rw [← List.append_assoc] at hin
    have hdir := h.parent _ _ hin
    by_cases hn : back = []
    · rwa [hn, List.append_nil] at hdir
    · exact ih (by simp [hdir]) hn

theorem Proper.directory_of_prefix (h : tree.Proper) {front back : List String}
    (hin : tree.get? (front ++ back) = some .directory) : tree.get? front = some .directory := by
  by_cases hn : back = []
  · rwa [hn, List.append_nil] at hin
  · exact h.prefix_directory (by simp [hin]) hn

theorem Proper.set_entry {name : String} (h : tree.Proper) (hd : tree.get? place = some .directory)
    (hn : name ≠ "..") (hf : tree.get? (place ++ [name]) ≠ some .directory) (entry : FileEntry) :
    (tree.set (place ++ [name]) entry).Proper := by
  have hne : place ++ [name] ≠ [] := by simp
  refine ⟨fun q n hin => ?_, fun q hin => ?_, set_directories hne hf h.working⟩
  · rw [get?_set tree _ hne] at hin
    split at hin
    · next he =>
      obtain ⟨rfl, -⟩ := List.append_inj' he rfl
      exact set_directories hne hf hd
    · exact set_directories hne hf (h.parent q n hin)
  · rw [get?_set tree _ hne] at hin
    split at hin
    · next he =>
      have hplace := h.names place (by rw [hd]; exact Option.some_ne_none _)
      rw [he, List.mem_append, not_or]
      exact ⟨hplace, by simpa [eq_comm] using hn⟩
    · exact h.names q hin

theorem Proper.erase_file (h : tree.Proper) (hp : place ≠ []) (hf : tree.get? place ≠ some .directory) :
    (tree.erase place).Proper := by
  refine ⟨fun q n hin => ?_, fun q hin => ?_, erase_directories hp hf h.working⟩
  · rw [get?_erase tree hp] at hin
    split at hin
    · exact absurd rfl hin
    · exact erase_directories hp hf (h.parent q n hin)
  · rw [get?_erase tree hp] at hin
    split at hin
    · exact absurd rfl hin
    · exact h.names q hin

def walk (tree : FileTree) (place : List String) (names : List String) : Except FileFault (List String) :=
  names.foldlM tree.step place

theorem walk_nil (tree : FileTree) (place : List String) : tree.walk place [] = .ok place := rfl

theorem walk_append (tree : FileTree) (place front back : List String) :
    tree.walk place (front ++ back) = tree.walk place front >>= fun p => tree.walk p back := by
  exact List.foldlM_append

theorem walk_cons (tree : FileTree) (place rest : List String) (name : String) :
    tree.walk place (name :: rest) = tree.step place name >>= fun p => tree.walk p rest := rfl

theorem walk_singleton (tree : FileTree) (place : List String) (name : String) :
    tree.walk place [name] = tree.step place name := by
  simp [walk]

theorem step_up (hd : tree.get? place = some .directory) : tree.step place ".." = .ok place.dropLast := by
  rw [step, hd]
  rfl

theorem step_down {name : String} (hd : tree.get? place = some .directory) (hn : name ≠ "..")
    (hs : name.utf8ByteSize ≤ maxName) : tree.step place name = .ok (place ++ [name]) := by
  rw [step, hd]
  simp only [if_neg hn, if_neg (Nat.not_lt.2 hs)]
  rfl

theorem step_ok {name : String} (hd : tree.get? place = some .directory) (hp : ".." ∉ place)
    (hs : name = ".." ∨ name.utf8ByteSize ≤ maxName) :
    tree.step place name = .ok (Path.stepBack (place ++ [name])) := by
  by_cases hn : name = ".."
  · rw [hn, step_up hd, Path.stepBack_append_up, Path.stepBack_names hp]
  · have hname : ".." ∉ [name] := by simpa [eq_comm] using hn
    rw [step_down hd hn (hs.resolve_left hn), Path.stepBack_append_names hname, Path.stepBack_names hp]

theorem step_directory {name : String} (h : tree.step place name = .ok q) :
    tree.get? place = some .directory := by
  unfold step at h
  cases hg : tree.get? place with
  | none => rw [hg] at h; cases h
  | some entry =>
    cases entry with
    | file => rw [hg] at h; cases h
    | directory => rfl

theorem step_eq_stepBack {name : String} (hp : ".." ∉ place) (h : tree.step place name = .ok q) :
    q = Path.stepBack (place ++ [name]) ∧ (name = ".." ∨ name.utf8ByteSize ≤ maxName) := by
  have hd := step_directory h
  by_cases hn : name = ".."
  · rw [hn, step_up hd] at h
    cases h
    rw [hn, Path.stepBack_append_up, Path.stepBack_names hp]
    exact ⟨rfl, .inl rfl⟩
  · rw [step, hd] at h
    simp only [if_neg hn] at h
    split at h
    · cases h
    · next hs =>
      cases h
      have hname : ".." ∉ [name] := by simpa [eq_comm] using hn
      rw [Path.stepBack_append_names hname, Path.stepBack_names hp]
      exact ⟨rfl, .inr (Nat.not_lt.1 hs)⟩

theorem walk_eq_stepBack {names : List String} (hp : ".." ∉ place) (h : tree.walk place names = .ok q) :
    q = Path.stepBack (place ++ names) ∧ ∀ name ∈ names, name = ".." ∨ name.utf8ByteSize ≤ maxName := by
  induction names generalizing place with
  | nil =>
    cases h
    rw [List.append_nil, Path.stepBack_names hp]
    exact ⟨rfl, by simp⟩
  | cons name rest ih =>
    rw [walk_cons] at h
    cases hs : tree.step place name with
    | error => rw [hs] at h; cases h
    | ok next =>
      rw [hs] at h
      obtain ⟨hnext, hname⟩ := step_eq_stepBack hp hs
      obtain ⟨hq, hrest⟩ := ih (hnext ▸ Path.not_mem_stepBack _) h
      refine ⟨?_, List.forall_mem_cons.2 ⟨hname, hrest⟩⟩
      rw [hq, hnext, Path.stepBack_stepBack_append, List.append_assoc, List.singleton_append]

theorem walk_mono (h : ∀ p, tree.get? p = some .directory → tree'.get? p = some .directory)
    {names : List String} (hw : tree.walk place names = .ok q) : tree'.walk place names = .ok q := by
  induction names generalizing place with
  | nil => exact hw
  | cons name rest ih =>
    rw [walk_cons] at hw ⊢
    cases hs : tree.step place name with
    | error => rw [hs] at hw; cases hw
    | ok next =>
      have hd := step_directory hs
      have hstep : tree'.step place name = .ok next := by
        rw [step, hd] at hs
        rw [step, h place hd]
        exact hs
      rw [hs] at hw
      rw [hstep]
      exact ih hw

theorem walk_ups (h : tree.Proper) {front back : List String}
    (hd : tree.get? (front ++ back) = some .directory) :
    tree.walk (front ++ back) (List.replicate back.length "..") = .ok front := by
  induction back using List.reverseRecOn with
  | nil => simp [walk_nil]
  | append_singleton back name ih =>
    rw [← List.append_assoc] at hd ⊢
    have hparent : tree.get? (front ++ back) = some .directory := by
      refine h.parent _ name ?_
      rw [hd]
      exact Option.some_ne_none _
    rw [List.length_append, List.length_singleton, List.replicate_succ, walk_cons, step_up hd,
      List.dropLast_concat]
    exact ih hparent

theorem walk_down (h : tree.Proper) {names : List String} (hin : tree.get? (place ++ names) ≠ none)
    (hs : ∀ name ∈ names, name.utf8ByteSize ≤ maxName) : tree.walk place names = .ok (place ++ names) := by
  induction names using List.reverseRecOn with
  | nil => rw [List.append_nil]; rfl
  | append_singleton names name ih =>
    rw [← List.append_assoc] at hin ⊢
    have hdir := h.parent _ name hin
    have hname : name ≠ ".." := fun he => h.names _ hin (by simp [he])
    rw [walk_append, ih (by simp [hdir]) fun n hn => hs n (List.mem_append_left _ hn)]
    exact (walk_singleton tree _ name).trans (step_down hdir hname (hs name (by simp)))

end CaveMap.FileTree
