import CaveMap.Path
import CaveMap.Proofs.Text.Lines
import Mathlib.Data.List.Induction

namespace CaveMap.Path

open Text

/-- A name that stands for itself in the text of a path. -/
def IsName (name : String) : Prop := name ≠ "" ∧ '/' ∉ name.toList ∧ name ≠ "."

theorem pieces_joined {names : List String} (h : ∀ name ∈ names, IsName name) :
    pieces (· = '/') (String.intercalate "/" names).toList = names.map String.toList := by
  rw [String.toList_intercalate, pieces]
  cases names with
  | nil => rfl
  | cons first rest =>
    rw [show "/".toList = ['/'] from rfl, stretches_intercalate]
    · refine List.filter_eq_self.2 fun part hin => ?_
      obtain ⟨name, hname, rfl⟩ := List.mem_map.1 hin
      simpa using (h name hname).1
    · intro part hin
      obtain ⟨name, hname, rfl⟩ := List.mem_map.1 hin
      exact (h name hname).2.1
    · simp

theorem namesOf_joined {names : List String} (h : ∀ name ∈ names, IsName name) :
    namesOf (String.intercalate "/" names) = names := by
  rw [namesOf, pieces_joined h, List.map_map]
  have hself : names.map (String.ofList ∘ String.toList) = names := by
    simp [Function.comp_def]
  rw [hself]
  exact List.filter_eq_self.2 fun name hin => by simpa using (h name hin).2.2

theorem namesOf_slash (text : String) : namesOf ("/" ++ text) = namesOf text := by
  have hpieces : pieces (· = '/') ("/" ++ text).toList = pieces (· = '/') text.toList := by
    rw [String.toList_append]
    change (([] : List Char) :: stretches (· = '/') text.toList).filter _ = _
    exact List.filter_cons_of_neg (by simp)
  rw [namesOf, hpieces, namesOf]

theorem head?_joined {names : List String} (h : ∀ name ∈ names, IsName name) :
    (String.intercalate "/" names).toList.head? ≠ some '/' := by
  cases names with
  | nil => simp
  | cons first rest =>
    obtain ⟨hne, hslash, -⟩ := h first List.mem_cons_self
    intro hhead
    apply hslash
    cases hf : first.toList with
    | nil => exact absurd (String.toList_inj.1 hf) hne
    | cons c more =>
      cases rest with
      | nil =>
        rw [String.intercalate_singleton, hf, List.head?_cons] at hhead
        rw [Option.some.inj hhead]
        exact List.mem_cons_self
      | cons second rest =>
        rw [String.intercalate_cons_cons, String.toList_append, String.toList_append, hf] at hhead
        rw [Option.some.inj hhead]
        exact List.mem_cons_self

theorem takeWhile_joined {names : List String} (h : ∀ name ∈ names, IsName name) :
    (String.intercalate "/" names).toList.takeWhile (· = '/') = [] := by
  have hhead := head?_joined h
  cases hj : (String.intercalate "/" names).toList with
  | nil => rfl
  | cons c rest =>
    rw [hj, List.head?_cons] at hhead
    rw [List.takeWhile_cons_of_neg]
    simpa using hhead

theorem ofString_text_relative {names : List String} (h : ∀ name ∈ names, IsName name) :
    ofString (text ⟨0, names⟩) = ⟨0, names⟩ := by
  cases names with
  | nil => decide
  | cons first rest =>
    have htext : text ⟨0, first :: rest⟩ = String.intercalate "/" (first :: rest) := by
      simp [text]
    rw [htext, ofString, takeWhile_joined h, namesOf_joined h]
    rfl

theorem text_ofPlace (names : List String) : (ofPlace names).text = "/" ++ String.intercalate "/" names := by
  unfold text
  rw [if_neg (by simp [ofPlace])]
  rfl

theorem mem_joined {c : Char} (hc : c ≠ '/') {names : List String} :
    c ∈ (String.intercalate "/" names).toList ↔ ∃ name ∈ names, c ∈ name.toList := by
  have hslash : c ∉ "/".toList := by simpa using hc
  induction names with
  | nil => simp
  | cons first rest ih =>
    cases rest with
    | nil => simp
    | cons second rest =>
      rw [String.intercalate_cons_cons, String.toList_append, String.toList_append, List.mem_append,
        List.mem_append]
      simp only [ih, hslash, or_false, List.mem_cons, exists_eq_or_imp]

theorem mem_text_ofPlace {c : Char} (hc : c ≠ '/') {place : List String} :
    c ∈ (ofPlace place).text.toList ↔ ∃ name ∈ place, c ∈ name.toList := by
  have hslash : c ∉ "/".toList := by simpa using hc
  rw [text_ofPlace, String.toList_append, List.mem_append, mem_joined hc]
  simp only [hslash, false_or]

theorem ofString_text_ofPlace {names : List String} (h : ∀ name ∈ names, IsName name) :
    ofString (ofPlace names).text = ofPlace names := by
  have hleading : ("/" ++ String.intercalate "/" names).toList.takeWhile (· = '/') = ['/'] := by
    rw [String.toList_append]
    change '/' :: (String.intercalate "/" names).toList.takeWhile (· = '/') = ['/']
    rw [takeWhile_joined h]
  rw [text_ofPlace, ofString, hleading, namesOf_slash, namesOf_joined h]
  rfl

/-- A path with names that stand for themselves. -/
def Named (p : Path) : Prop := ∀ name ∈ p.names, IsName name

theorem named_ofString (text : String) : (ofString text).Named := by
  intro name hin
  obtain ⟨hmap, hpoint⟩ := List.mem_filter.1 hin
  obtain ⟨piece, hpiece, rfl⟩ := List.mem_map.1 hmap
  obtain ⟨hstretch, hne⟩ := List.mem_filter.1 hpiece
  refine ⟨?_, ?_, of_decide_eq_true hpoint⟩
  · simpa [String.ofList_eq_empty_iff] using hne
  · rw [String.toList_ofList]
    intro hslash
    have hfalse := not_separates_of_mem hstretch hslash
    simp at hfalse

theorem Named.join {p q : Path} (hp : p.Named) (hq : q.Named) : (p.join q).Named := by
  unfold Path.join
  split
  · exact hq
  · intro name hin
    exact (List.mem_append.1 hin).elim (hp name) (hq name)

theorem Named.name {p : Path} (h : p.Named) : p.name = "" ∨ IsName p.name := by
  unfold Path.name
  cases hlast : p.names.getLast? with
  | none => exact .inl rfl
  | some name => exact .inr (h name (List.mem_of_getLast? hlast))

theorem stepBack_append (front back : List String) :
    stepBack (front ++ back) =
      back.foldl (fun seen name => if name = ".." then seen.dropLast else seen ++ [name]) (stepBack front) := by
  rw [stepBack, List.foldl_append]
  rfl

theorem stepBack_append_names {front names : List String} (h : ".." ∉ names) :
    stepBack (front ++ names) = stepBack front ++ names := by
  induction names using List.reverseRecOn with
  | nil => rw [List.append_nil, List.append_nil]
  | append_singleton names name ih =>
    rw [List.mem_append, not_or] at h
    have hne : name ≠ ".." := fun he => h.2 (he ▸ List.mem_singleton_self _)
    rw [← List.append_assoc, stepBack_append, ih h.1, List.foldl_cons, List.foldl_nil, if_neg hne,
      List.append_assoc]

theorem stepBack_append_up (front : List String) : stepBack (front ++ [".."]) = (stepBack front).dropLast := by
  rw [stepBack_append]
  rfl

theorem stepBack_names {names : List String} (h : ".." ∉ names) : stepBack names = names := by
  have happend : stepBack ([] ++ names) = stepBack [] ++ names := stepBack_append_names h
  rwa [List.nil_append] at happend

theorem not_mem_stepBack (names : List String) : ".." ∉ stepBack names := by
  induction names using List.reverseRecOn with
  | nil => simp [stepBack]
  | append_singleton names name ih =>
    by_cases h : name = ".."
    · rw [h, stepBack_append_up]
      exact fun hin => ih ((List.dropLast_subset _) hin)
    · have hname : ".." ∉ [name] := by simpa [eq_comm] using h
      rw [stepBack_append_names hname, List.mem_append, not_or]
      exact ⟨ih, hname⟩

theorem stepBack_stepBack_append (front back : List String) :
    stepBack (stepBack front ++ back) = stepBack (front ++ back) := by
  rw [stepBack_append, stepBack_append, stepBack_names (not_mem_stepBack front)]

theorem stepBack_append_ups (front : List String) (n : Nat) :
    stepBack (front ++ List.replicate n "..") = (stepBack front).take ((stepBack front).length - n) := by
  induction n with
  | zero => simp
  | succ n ih =>
    rw [List.replicate_succ', ← List.append_assoc, stepBack_append_up, ih, List.dropLast_eq_take,
      List.take_take, List.length_take]
    congr 1
    omega

theorem between_eq (base target : List String) : ∃ common b t, base = common ++ b ∧ target = common ++ t ∧
    between base target = ⟨0, List.replicate b.length ".." ++ t⟩ := by
  induction base generalizing target with
  | nil => exact ⟨[], [], target, rfl, rfl, by cases target <;> rfl⟩
  | cons first base ih =>
    cases target with
    | nil => exact ⟨[], first :: base, [], rfl, rfl, rfl⟩
    | cons head target =>
      by_cases h : first = head
      · obtain ⟨common, b, t, hb, ht, he⟩ := ih target
        exact ⟨first :: common, b, t, by rw [hb, List.cons_append], by rw [ht, h, List.cons_append],
          by rw [between, if_pos h, he]⟩
      · exact ⟨[], first :: base, head :: target, rfl, rfl, by rw [between, if_neg h]; rfl⟩

theorem stepBack_between {base target : List String} (hb : ".." ∉ base) (ht : ".." ∉ target) :
    stepBack (base ++ (between base target).names) = target := by
  obtain ⟨common, b, t, rfl, rfl, he⟩ := between_eq base target
  have htail : ".." ∉ t := fun h => ht (List.mem_append_right _ h)
  rw [he, ← List.append_assoc, stepBack_append_names htail, stepBack_append_ups, stepBack_names hb]
  simp

/-- The way to a place has no characters but points, slashes and those of the place. -/
theorem mem_text_between {c : Char} (hc : c ≠ '/' ∧ c ≠ '.') {base target : List String}
    (h : c ∈ (between base target).text.toList) : ∃ name ∈ target, c ∈ name.toList := by
  obtain ⟨common, back, down, -, rfl, he⟩ := between_eq base target
  rw [he] at h
  by_cases hnames : List.replicate back.length ".." ++ down = []
  · rw [hnames] at h
    have hpoint : c ∉ ".".toList := by simpa using hc.2
    exact absurd h hpoint
  · have htext : text ⟨0, List.replicate back.length ".." ++ down⟩ =
        String.intercalate "/" (List.replicate back.length ".." ++ down) := by
      rw [text, if_neg fun hempty => hnames hempty.2]
      exact String.empty_append
    rw [htext, mem_joined hc.1] at h
    obtain ⟨name, hin, hmem⟩ := h
    rcases List.mem_append.1 hin with hup | hdown
    · have hpoints : c ∉ "..".toList := by simpa using hc.2
      rw [List.eq_of_mem_replicate hup] at hmem
      exact absurd hmem hpoints
    · exact ⟨name, List.mem_append_right common hdown, hmem⟩

end CaveMap.Path
