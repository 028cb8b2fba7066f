import CaveMap.Proofs.Document.Legible
import CaveMap.Proofs.Number.Plain
import CaveMap.Proofs.SettingsFile.Precedence

namespace CaveMap

/-- A value other than an infinity or a floating-point number that is none. -/
def Value.isFinite : Value → Bool
  | .float x => x.isFinite
  | _ => true

/-- The texts in which a layout document shows the number of a field. -/
def Visible.numbers (v : Visible) : Field → List String
  | .scale => [v.scale]
  | .rotation => [v.rotation]
  | .overlap => [v.overlap]
  | .scaleBarLength => [v.scaleBar]
  | .headerX => [v.headerX]
  | .headerY => [v.headerY]
  | .legendWidth => [v.legendWidth]
  | .legendColumns => [v.legendColumns]
  | .logoWidth => (v.logo.map (·.2)).toList
  | .caveNameFontSize => [v.fontSize]
  | .borderThickness => [v.border]
  | .stationLabelSize => v.stationLabels.toList
  | _ => []

theorem Layout.mem_numbers {s : Settings} {field : Field} {t : String}
    (h : t ∈ (visible s).numbers field) :
    t = (s.get field).plain ∨ field = .legendColumns ∧ t = (s.get field).shown := by
  have hoption (shown : Bool) {text : String} (hin : t ∈ (if shown then some text else none).toList) :
      t = text := by
    cases shown with
    | true => simpa using hin
    | false => simp at hin
  cases field
  case legendColumns => exact .inr ⟨rfl, List.mem_singleton.1 h⟩
  case logoWidth =>
    refine .inl (hoption s.logoPath.holds ?_)
    simp only [Visible.numbers, visible] at h
    split at h <;> simp_all [Settings.get]
  case stationLabelSize => exact .inl (hoption s.debugStationNames.holds h)
  all_goals first | exact absurd h List.not_mem_nil | exact .inl (List.mem_singleton.1 h)

namespace SettingsFile

open Check

/-- The fields whose numbers may have either sign. -/
def signedNumbers : List Field := [.rotation, .headerX, .headerY]

/-- The numbers that a loaded field may hold. -/
inductive IsNumberOf (field : Field) : Value → Prop
  | int (i : Int) : IsNumberOf field (.int i)
  | float {x : Binary64} : field ≠ .legendColumns → (x.isNonnegative ∨ field ∈ signedNumbers) →
      IsNumberOf field (.float x)

theorem checkPositive_ok {v : Value} {x : Binary64} (h : checkPositive v = .ok x) : x.isNonnegative := by
  obtain ⟨y, -, hy⟩ := bind_eq_ok.1 h
  split at hy
  · next hpositive =>
    cases hy
    cases x with
    | nan => cases hpositive
    | infinite => exact hpositive
    | finite => simp_all [Binary64.isPositive, Binary64.isNonnegative]
  · cases hy

theorem checkNonnegative_ok {v : Value} {x : Binary64} (h : checkNonnegative v = .ok x) : x.isNonnegative := by
  obtain ⟨y, -, hy⟩ := bind_eq_ok.1 h
  split at hy
  · next hnonnegative =>
    cases hy
    exact hnonnegative
  · cases hy

theorem isNumberOf_check {field : Field} (hin : field ∈ Settings.shownNumbers) {raw v : Value}
    (h : field.check raw = .ok v) : IsNumberOf field v := by
  revert hin
  cases field
  case legendColumns =>
    intro _
    obtain ⟨i, -, rfl⟩ := map_eq_ok.1 h
    exact .int i
  case scale | legendWidth | logoWidth | caveNameFontSize | stationLabelSize =>
    intro _
    obtain ⟨x, hx, rfl⟩ := map_eq_ok.1 h
    exact .float (by decide) (.inl (checkPositive_ok hx))
  case borderThickness | overlap | scaleBarLength =>
    intro _
    obtain ⟨x, hx, rfl⟩ := map_eq_ok.1 h
    exact .float (by decide) (.inl (checkNonnegative_ok hx))
  case headerX | headerY | rotation =>
    intro _
    obtain ⟨x, hx, rfl⟩ := map_eq_ok.1 h
    exact .float (by decide) (.inr (by decide))
  all_goals exact fun hin => absurd hin (by decide)

theorem isNumberOf_default {field : Field} (hin : field ∈ Settings.shownNumbers) :
    IsNumberOf field (Settings.default.get field) := by
  revert hin
  cases field
  case borderThickness => exact fun _ => .float (by decide) (.inl (by decide +kernel))
  all_goals first | exact fun _ => .int _ | exact fun hin => absurd hin (by decide)

theorem Comes.isNumberOf {theme : Option Theme} {given : Option Value} {field : Field} {v : Value}
    (h : Comes theme given field v) (hin : field ∈ Settings.shownNumbers) : IsNumberOf field v := by
  cases h with
  | theme _ hv =>
    have hnone (chosen : Theme) : chosen.value? field = none := by
      revert hin
      cases field <;> first | exact fun _ => rfl | exact fun hin => absurd hin (by decide)
    rw [hnone] at hv
    cases hv
  | document _ _ hcheck => exact isNumberOf_check hin hcheck
  | default => exact isNumberOf_default hin

/-- How the numbers that a field may hold are written. -/
structure NumberText (field : Field) (v : Value) (t : String) : Prop where
  plain_iff : IsPlain t ↔ v.isFinite
  infinite : v.isFinite = false → field ≠ .legendColumns ∧
    (t = "inf" ∨ (t = "-inf" ∨ t = "nan") ∧ field ∈ signedNumbers)

theorem IsNumberOf.numberText {field : Field} {v : Value} (h : IsNumberOf field v) {t : String}
    (ht : t = v.plain ∨ field = .legendColumns ∧ t = v.shown) : NumberText field v t := by
  cases h with
  | int i =>
    obtain rfl : t = Text.integerText i := ht.elim id fun ⟨_, he⟩ => he
    exact ⟨iff_of_true (Text.isPlain_integerText i) rfl, fun hnot => by cases hnot⟩
  | @float x hfield hsign =>
    obtain rfl : t = x.plainText := ht.elim id fun ⟨he, _⟩ => absurd he hfield
    refine ⟨Binary64.isPlain_plainText_iff, fun hnot => ⟨hfield, ?_⟩⟩
    rcases Binary64.plainText_not_finite hnot with ⟨rfl, he⟩ | ⟨rfl, he⟩ | ⟨rfl, he⟩
    · exact .inr ⟨.inr he, hsign.resolve_left (by decide)⟩
    · exact .inr ⟨.inl he, hsign.resolve_left (by decide)⟩
    · exact .inl he

/-- Every number that a layout document shows of loaded settings is one that it may hold, unless the settings
file gives an infinity or, where no bound excludes it, a number that is none. There is no document where the number
of columns is an integer that is too long to be written. -/
theorem build_numbers {document : Value} {draft : Draft} (hd : checkDocument document = .ok draft)
    {tree : FileTree} {base : Path} {ids : Nat → String} {s : Settings}
    (hs : (draft.build tree base ids).result = .ok s) :
    (s.legendColumns.isWritable → (Layout.generate s).result = .ok (Layout.visible s).text ∧
      ∀ field ∈ Settings.shownNumbers, ∀ t ∈ (Layout.visible s).numbers field,
        NumberText field (s.get field) t) ∧
    (s.legendColumns.isWritable = false → (Layout.generate s).result = .error .longInteger) := by
  have hgenerate := (drawable_of_build hd hs).generate_eq
  refine ⟨fun hcolumns => ⟨?_, fun field hin t ht => ?_⟩, fun hcolumns => ?_⟩
  · rw [hgenerate, if_pos hcolumns]
  · obtain ⟨entries, rfl, haccepts⟩ := checkDocument_ok_iff.1 hd
    obtain ⟨start, files, hstart, -, rfl⟩ := Draft.build_eq_ok.1 hs
    obtain ⟨part, hpart⟩ := field.mem_some_section
    have hcomes := (composed_addFiles haccepts hstart ids files).scalars part field hpart
    exact (hcomes.isNumberOf hin).numberText (Layout.mem_numbers ht)
  · rw [hgenerate, if_neg (by rw [hcolumns]; exact Bool.false_ne_true)]

def boundlessSheet : Value :=
  .map [(.text "project", .map [(.text "scale", .float (.infinite false))]),
    (.text "legend_text", .map [(.text "border_thickness", .text "1e-7")]),
    (.text "presentation", .map [(.text "rotation", .text "nan")])]

theorem exists_boundless :
    ∃ draft s, checkDocument boundlessSheet = .ok draft ∧
      (draft.build { entries := [], working := [] } (.ofString ".") fun _ => "").result = .ok s ∧
      s.legendColumns.isWritable ∧ (Layout.visible s).numbers .scale = ["inf"] ∧
      (Layout.visible s).numbers .rotation = ["nan"] ∧
      (Layout.visible s).numbers .borderThickness = ["0.0000001"] := by
  have hok : (checkDocument boundlessSheet).toOption.any fun draft =>
      (draft.build { entries := [], working := [] } (.ofString ".") fun _ => "").result.toOption.any fun s =>
        s.legendColumns.isWritable ∧ (Layout.visible s).numbers .scale = ["inf"] ∧
          (Layout.visible s).numbers .rotation = ["nan"] ∧
          (Layout.visible s).numbers .borderThickness = ["0.0000001"] := by
    decide +kernel
  obtain ⟨draft, hd, hbuilt⟩ := (Option.any_eq_true ..).1 hok
  obtain ⟨s, hs, hnumbers⟩ := (Option.any_eq_true ..).1 hbuilt
  exact ⟨draft, s, Except.eq_ok hd, Except.eq_ok hs, of_decide_eq_true hnumbers⟩

theorem build_numbers_boundless :
    ∃ draft s, checkDocument boundlessSheet = .ok draft ∧
      (draft.build { entries := [], working := [] } (.ofString ".") fun _ => "").result = .ok s ∧
      (Layout.generate s).result = .ok (Layout.visible s).text ∧
      ∀ field ∈ Settings.shownNumbers, ∀ t ∈ (Layout.visible s).numbers field,
        NumberText field (s.get field) t := by
  obtain ⟨draft, s, hd, hs, hcolumns, -⟩ := exists_boundless
  exact ⟨draft, s, hd, hs, (build_numbers hd hs).1 hcolumns⟩

/-- An infinity is accepted and written as a word. -/
theorem scale_not_plain :
    ∃ draft s, checkDocument boundlessSheet = .ok draft ∧
      (draft.build { entries := [], working := [] } (.ofString ".") fun _ => "").result = .ok s ∧
      (Layout.generate s).result = .ok (Layout.visible s).text ∧
      ∃ t ∈ (Layout.visible s).numbers .scale, t = "inf" ∧ ¬ IsPlain t := by
  obtain ⟨draft, s, hd, hs, hcolumns, hscale, -⟩ := exists_boundless
  have htext := (drawable_of_build hd hs).generate_eq
  rw [if_pos hcolumns] at htext
  refine ⟨draft, s, hd, hs, htext, "inf", ?_, rfl, fun hplain => ?_⟩
  · rw [hscale]
    exact List.mem_singleton_self _
  · exact hplain.not_letter (by decide)

def crowdedSheet : Value :=
  .map [(.text "header", .map [(.text "legend_columns", .int (10 ^ Text.maxDigits))])]

/-- A settings file may ask for so many columns. -/
theorem generate_crowded :
    ∃ draft s, checkDocument crowdedSheet = .ok draft ∧
      (draft.build { entries := [], working := [] } (.ofString ".") fun _ => "").result = .ok s ∧
      (Layout.generate s).result = .error .longInteger := by
  have hok : (checkDocument crowdedSheet).toOption.any fun draft =>
      (draft.build { entries := [], working := [] } (.ofString ".") fun _ => "").result.toOption.any fun s =>
        !s.legendColumns.isWritable := by
    decide +kernel
  obtain ⟨draft, hd, hbuilt⟩ := (Option.any_eq_true ..).1 hok
  obtain ⟨s, hs, hcolumns⟩ := (Option.any_eq_true ..).1 hbuilt
  have hgenerate := (drawable_of_build (Except.eq_ok hd) (Except.eq_ok hs)).generate_eq
  rw [if_neg (by simpa using hcolumns)] at hgenerate
  exact ⟨draft, s, Except.eq_ok hd, Except.eq_ok hs, hgenerate⟩

end SettingsFile

end CaveMap
