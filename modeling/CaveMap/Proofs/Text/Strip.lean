import CaveMap.Text.Blank
import Mathlib.Data.List.DropRight

namespace CaveMap.Text

theorem mem_dropWhile_of_not {p : Char → Bool} {text : List Char} {c : Char} (h : c ∈ text)
    (hc : p c = false) : c ∈ text.dropWhile p := by
  induction text with
  | nil => simp at h
  | cons d rest ih =>
    rw [List.dropWhile_cons]
    split
    · next hd =>
      rcases List.mem_cons.1 h with rfl | hin
      · rw [hc] at hd
        exact absurd hd Bool.false_ne_true
      · exact ih hin
    · exact h

theorem mem_stripOf_of_not {p : Char → Bool} {text : List Char} {c : Char} (h : c ∈ text)
    (hc : p c = false) : c ∈ stripOf p text := by
  rw [stripOf, List.mem_reverse]
  exact mem_dropWhile_of_not (List.mem_reverse.2 (mem_dropWhile_of_not h hc)) hc

theorem dropWhile_of_head {p : Char → Bool} {text : List Char} (h : text.head?.all (!p ·)) :
    text.dropWhile p = text := by
  cases text with
  | nil => rfl
  | cons c rest =>
    rw [List.head?_cons, Option.all_some, Bool.not_eq_true'] at h
    rw [List.dropWhile_cons, if_neg (by simp [h])]

theorem head?_dropWhile_all (p : Char → Bool) (text : List Char) :
    (text.dropWhile p).head?.all (!p ·) := by
  induction text with
  | nil => rfl
  | cons c rest ih =>
    rw [List.dropWhile_cons]
    split
    · exact ih
    · next hc => simpa using hc

theorem stripOf_prefix_dropWhile (p : Char → Bool) (text : List Char) : stripOf p text <+: text.dropWhile p := by
  rw [stripOf, ← List.reverse_suffix, List.reverse_reverse]
  exact List.dropWhile_suffix p

theorem dropWhile_eq_stripOf_append (p : Char → Bool) (text : List Char) :
    ∃ tail, text.dropWhile p = stripOf p text ++ tail ∧ ∀ c ∈ tail, p c :=
  ⟨(text.dropWhile p).rtakeWhile p, List.rdropWhile_append_rtakeWhile.symm,
    fun _ => List.mem_rtakeWhile_imp⟩

theorem head?_stripOf_all (p : Char → Bool) (text : List Char) :
    (stripOf p text).head?.all (!p ·) := by
  obtain ⟨tail, ht⟩ := stripOf_prefix_dropWhile p text
  cases hs : stripOf p text with
  | nil => rfl
  | cons c rest =>
    have hd := head?_dropWhile_all p text
    rw [← ht, hs, List.cons_append, List.head?_cons] at hd
    exact hd

theorem getLast?_stripOf_all (p : Char → Bool) (text : List Char) :
    (stripOf p text).getLast?.all (!p ·) := by
  rw [stripOf, List.getLast?_reverse]
  exact head?_dropWhile_all p _

theorem stripOf_of_edges {p : Char → Bool} {text : List Char} (hh : text.head?.all (!p ·))
    (hl : text.getLast?.all (!p ·)) : stripOf p text = text := by
  rw [stripOf, dropWhile_of_head hh, dropWhile_of_head, List.reverse_reverse]
  rwa [List.head?_reverse]

theorem stripOf_append_left {p : Char → Bool} {front : List Char} (h : front.all p) (text : List Char) :
    stripOf p (front ++ text) = stripOf p text := by
  rw [stripOf, stripOf, List.dropWhile_append_of_pos (List.all_eq_true.1 h)]

theorem stripOf_append_right {p : Char → Bool} {text trail : List Char} (h : trail.all p)
    (hh : text.head?.all (!p ·)) (hl : text.getLast?.all (!p ·)) : stripOf p (text ++ trail) = text := by
  cases text with
  | nil => rw [List.nil_append, ← List.append_nil trail, stripOf_append_left h, stripOf, List.dropWhile_nil,
      List.reverse_nil, List.dropWhile_nil, List.reverse_nil]
  | cons c rest =>
    have hhead : ((c :: rest) ++ trail).head?.all (!p ·) := hh
    rw [stripOf, dropWhile_of_head hhead, List.reverse_append, List.dropWhile_append_of_pos
      (fun c hc => List.all_eq_true.1 h c (List.mem_reverse.1 hc)), dropWhile_of_head (by rwa [List.head?_reverse]),
      List.reverse_reverse]

theorem stripOf_stripOf (p : Char → Bool) (text : List Char) :
    stripOf p (stripOf p text) = stripOf p text :=
  stripOf_of_edges (head?_stripOf_all p text) (getLast?_stripOf_all p text)

theorem strip_strip (text : String) : strip (strip text) = strip text := by
  rw [strip, strip, String.toList_ofList, stripOf_stripOf]

theorem isBlankText_strip {text : String} (h : isBlankText text = false) :
    isBlankText (strip text) = false := by
  rw [isBlankText, List.all_eq_false] at h ⊢
  obtain ⟨c, hc, hb⟩ := h
  rw [Bool.not_eq_true] at hb
  refine ⟨c, ?_, by rw [hb]; exact Bool.false_ne_true⟩
  rw [strip, String.toList_ofList]
  exact mem_stripOf_of_not hc hb

end CaveMap.Text
