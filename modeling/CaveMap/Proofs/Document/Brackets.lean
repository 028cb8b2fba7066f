import CaveMap.Document.Layout
import CaveMap.Proofs.Text.Lines
import CaveMap.Proofs.Text.Strip

namespace CaveMap

namespace Brackets

open Text

/-- A line that opens or closes a block. -/
inductive Keyword
  | layout (name : String)
  | code
  | endcode
  | endlayout
  deriving DecidableEq

inductive Place
  | outside
  | layout
  | code
  deriving DecidableEq

/-- A block that is opened. -/
inductive Opening
  | layout (name : String)
  | code
  deriving DecidableEq

def layoutMark : List Char := "layout ".toList

/-- The keyword of a line without the white space around it. -/
def keywordOf? (line : List Char) : Option Keyword :=
  if line = "endcode".toList then some .endcode
  else if line = "endlayout".toList then some .endlayout
  else if line = "code metapost".toList ∨ line = "code tex-map".toList then some .code
  else if layoutMark.isPrefixOf line then some (.layout (String.ofList (line.drop layoutMark.length)))
  else none

def keyword? (line : String) : Option Keyword := keywordOf? (stripOf isBlank line.toList)

/-- Where a line leads and what it opens; none if its keyword is out of place. -/
def step : Place → Option Keyword → Option (Place × List Opening)
  | .code, some .endcode => some (.layout, [])
  | .code, _ => some (.code, [])
  | place, none => some (place, [])
  | .outside, some (.layout name) => some (.layout, [.layout name])
  | .layout, some .code => some (.code, [.code])
  | .layout, some .endlayout => some (.outside, [])
  | _, _ => none

/-- Where lines lead, and which blocks they open on the way. -/
def scan : Place → List String → Option (Place × List Opening)
  | place, [] => some (place, [])
  | place, line :: rest => do
    let (next, opened) ← step place (keyword? line)
    let (last, more) ← scan next rest
    return (last, opened ++ more)

def linesOf (text : String) : List String := (stretches (· = '\n') text.toList).map String.ofList

/-- Lines that lead from one place to another and open blocks. -/
def Leads (place : Place) (lines : List String) (next : Place) (opened : List Opening) : Prop :=
  scan place lines = some (next, opened)

variable {place next last : Place} {a b lines : List String} {opened more : List Opening} {line : String}

theorem Leads.nil (place : Place) : Leads place [] place [] := rfl

theorem Leads.append (ha : Leads place a next opened) (hb : Leads next b last more) :
    Leads place (a ++ b) last (opened ++ more) := by
  unfold Leads at *
  induction a generalizing place opened with
  | nil =>
    cases ha
    exact hb
  | cons line rest ih =>
    rw [List.cons_append, scan]
    rw [scan] at ha
    cases hstep : step place (keyword? line) with
    | none => rw [hstep] at ha; cases ha
    | some x =>
      obtain ⟨middle, first⟩ := x
      rw [hstep] at ha
      cases hrest : scan middle rest with
      | none => simp [hrest] at ha
      | some y =>
        obtain ⟨end_, others⟩ := y
        simp only [hrest, Option.bind_eq_bind, Option.bind_some, Option.pure_def, Option.some.injEq,
          Prod.mk.injEq] at ha
        obtain ⟨rfl, rfl⟩ := ha
        simp [ih hrest]

theorem Leads.singleton (h : step place (keyword? line) = some (next, opened)) :
    Leads place [line] next opened := by
  simp [Leads, scan, h]

theorem Leads.neutral (place : Place) (h : ∀ line ∈ lines, keyword? line = none) :
    Leads place lines place [] := by
  induction lines with
  | nil => exact .nil place
  | cons line rest ih =>
    rw [List.forall_mem_cons] at h
    have hline : step place (keyword? line) = some (place, []) := by
      rw [h.1]
      cases place <;> rfl
    exact (Leads.singleton hline).append (ih h.2)

theorem scan_congr (place : Place) (h : a.map keyword? = b.map keyword?) : scan place a = scan place b := by
  induction a generalizing b place with
  | nil => cases b with
    | nil => rfl
    | cons => simp at h
  | cons line rest ih => cases b with
    | nil => simp at h
    | cons other more =>
      rw [List.map_cons, List.map_cons, List.cons.injEq] at h
      simp only [scan, h.1, ih _ h.2]

theorem Leads.congr (h : a.map keyword? = b.map keyword?) : Leads place a next opened ↔ Leads place b next opened := by
  rw [Leads, Leads, scan_congr place h]

theorem keyword?_empty : keyword? "" = none := by decide

theorem keyword?_indented (line : String) : keyword? ("  " ++ line) = keyword? line := by
  rw [keyword?, keyword?, String.toList_append, stripOf_append_left (by decide)]

theorem map_keyword?_indent (lines : List String) : (Layout.indent lines).map keyword? = lines.map keyword? := by
  rw [Layout.indent, List.map_map]
  refine List.map_congr_left fun line _ => ?_
  simp only [Function.comp_apply]
  split
  · next h => rw [String.isEmpty_iff.1 h]
  · exact keyword?_indented line

theorem Leads.indent (h : Leads place lines next opened) : Leads place (Layout.indent lines) next opened :=
  (Leads.congr (map_keyword?_indent lines)).2 h

def keywordStarts : List (List Char) :=
  ["endcode".toList, "endlayout".toList, "code metapost".toList, "code tex-map".toList, layoutMark]

theorem keywordOf?_eq_none {line : List Char} (h : ∀ start ∈ keywordStarts, ¬ start <+: line) :
    keywordOf? line = none := by
  have hne (start : List Char) (hin : start ∈ keywordStarts) : line ≠ start :=
    fun he => h start hin (he ▸ List.prefix_rfl)
  have hlayout : layoutMark.isPrefixOf line = false :=
    Bool.eq_false_iff.2 fun hp => h layoutMark (by decide) (List.isPrefixOf_iff_prefix.1 hp)
  rw [keywordOf?, if_neg (hne _ (by decide)), if_neg (hne _ (by decide)),
    if_neg (not_or.2 ⟨hne _ (by decide), hne _ (by decide)⟩), hlayout]
  rfl

def firstWord (text : List Char) : List Char := (text.dropWhile isBlank).takeWhile (!isBlank ·)

/-- A text whose first word neither begins a keyword nor is begun by one. -/
def Apart (head : String) : Prop :=
  firstWord head.toList ≠ [] ∧
    ∀ start ∈ keywordStarts, ¬ start <+: firstWord head.toList ∧ ¬ firstWord head.toList <+: start

instance (head : String) : Decidable (Apart head) := inferInstanceAs (Decidable (_ ∧ _))

theorem firstWord_of_front (head rest : List Char) (hne : firstWord head ≠ []) :
    firstWord head <+: stripOf isBlank (head ++ rest) := by
  obtain ⟨tail, htail⟩ : ∃ tail, head.dropWhile isBlank = firstWord head ++ tail :=
    ⟨_, (List.takeWhile_append_dropWhile (p := (!isBlank ·))).symm⟩
  have hword : ∀ c ∈ firstWord head, isBlank c = false := fun c hc => by
    simpa using List.mem_takeWhile_imp hc
  have hdrop : (head ++ rest).dropWhile isBlank = firstWord head ++ (tail ++ rest) := by
    rw [List.dropWhile_append, htail, if_neg (by simp [hne]), List.append_assoc]
  have hlast : (firstWord head).reverse.dropWhile isBlank = (firstWord head).reverse := by
    refine dropWhile_of_head ?_
    cases hl : (firstWord head).reverse.head? with
    | none => rfl
    | some c => simp [hword c (List.mem_reverse.1 (List.mem_of_mem_head? hl))]
  rw [stripOf, hdrop, ← List.reverse_suffix, List.reverse_reverse, List.reverse_append, List.dropWhile_append]
  split
  · exact ⟨[], hlast.symm⟩
  · exact List.suffix_append _ _

theorem Apart.keyword?_eq {head : String} (h : Apart head) (rest : String) : keyword? (head ++ rest) = none := by
  refine keywordOf?_eq_none fun start hin hprefix => ?_
  rw [String.toList_append] at hprefix
  obtain ⟨hstart', hword⟩ := h.2 start hin
  rcases List.prefix_or_prefix_of_prefix hprefix (firstWord_of_front _ rest.toList h.1) with hp | hp
  · exact hstart' hp
  · exact hword hp

theorem linesOf_joined {lines : List String} (h : ∀ line ∈ lines, IsLine line) (hne : lines ≠ []) :
    linesOf (String.intercalate "\n" lines) = lines := by
  have hstretches : stretches (· = '\n') (String.intercalate "\n" lines).toList = lines.map String.toList := by
    rw [String.toList_intercalate]
    refine stretches_intercalate '\n' (fun part hin => ?_) (by simpa using hne)
    obtain ⟨line, hline, rfl⟩ := List.mem_map.1 hin
    exact h line hline
  rw [linesOf, hstretches, List.map_map]
  simp [Function.comp_def]

theorem linesOf_append_newline (front back : String) :
    linesOf (front ++ "\n" ++ back) = linesOf front ++ linesOf back := by
  have hnewline : "\n".toList = ['\n'] := rfl
  rw [linesOf, String.toList_append, String.toList_append, hnewline, List.append_assoc, List.singleton_append,
    stretches_append (by simp), List.map_append]
  rfl

theorem linesOf_ended (text : String) : linesOf (text ++ "\n") = linesOf text ++ [""] := by
  have h := linesOf_append_newline text ""
  rwa [String.append_empty] at h

end Brackets

end CaveMap
