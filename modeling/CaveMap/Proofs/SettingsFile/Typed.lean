import CaveMap.Proofs.Number.Plain
import CaveMap.Proofs.SettingsFile.Check

namespace CaveMap

inductive FieldKind
  | text | flag | number | count | choices
  deriving DecidableEq

namespace Field

def kind : Field → FieldKind
  | caveName | selectName | author | language | paperSize | colorScheme | mapBgColor | mapFgColor
  | headerAnchor | defaultSymbolSet | logoPath | topoTeam | cartoTeam | exploTeam | exploTitle | comment
  | surveyColor | surveyStyle => .text
  | printMode | showLegend | headerBg | showSurvey | debugStationNames | transparency => .flag
  | scale | legendWidth | headerX | headerY | logoWidth | caveNameFontSize | borderThickness
  | stationLabelSize | rotation | overlap | scaleBarLength => .number
  | legendColumns => .count
  | exportTypes => .choices

theorem mem_all (field : Field) : field ∈ all := by
  cases field <;> decide

theorem nodup_keys : (all.map key).Nodup := by decide

end Field

namespace Value

/-- A number that a floating-point number represents exactly. -/
def IsExact : Value → Prop
  | int i => ∃ x : Binary64, x.toInt? = some i
  | float x => x ≠ .nan
  | _ => False

/-- A number that is shown as it is when it has become a floating-point number. -/
def IsMeasure : Value → Prop
  | int i => ∃ x : Binary64, x.toInt? = some i
  | float _ => True
  | _ => False

/-- An integer as a floating-point number, anything else as it is. -/
def widened : Value → Value
  | int i => float (.ofInt i)
  | v => v

end Value

namespace FieldKind

def Holds : FieldKind → Value → Prop
  | text, v => ∃ t, v = .text t
  | flag, v => ∃ b, v = .bool b
  | number, v => v.IsExact
  | count, v => ∃ i, v = .int i
  | choices, v => ∃ names : List String, v = .list (names.map .text)

/-- The values of a kind, and what is no number among the numbers. -/
def Takes : FieldKind → Value → Prop
  | number, v => v.IsMeasure
  | kind, v => kind.Holds v

def loaded : FieldKind → Value → Value
  | number, v => v.widened
  | _, v => v

end FieldKind

namespace Binary64

theorem equals_self {x : Binary64} (h : x ≠ .nan) : x.equals x := by
  cases x with
  | nan => exact absurd rfl h
  | infinite => simp [equals]
  | finite => simp [equals]

end Binary64

namespace Value

theorem isExact_int {i : Int} (h : (Binary64.ofInt i).toInt? = some i) : (int i).IsExact := ⟨_, h⟩

variable {v : Value}

theorem IsExact.isMeasure (h : v.IsExact) : v.IsMeasure := by
  cases v with
  | int => exact h
  | float => trivial
  | _ => exact h.elim

theorem IsMeasure.plain_widened (h : v.IsMeasure) : v.widened.plain = v.plain := by
  cases v with
  | int i =>
    obtain ⟨x, hx⟩ := h
    exact Binary64.plainText_of_toInt? (Binary64.toInt?_ofInt hx)
  | float => rfl
  | _ => exact h.elim

theorem IsExact.equals_widened (h : v.IsExact) : v.equals v.widened := by
  cases v with
  | int i =>
    obtain ⟨x, hx⟩ := h
    have hi := Binary64.toInt?_ofInt hx
    simp [widened, equals, integer?, Binary64.equalsInt, hi]
  | float x =>
    have hx := Binary64.equals_self h
    simpa [widened, equals] using hx
  | _ => exact h.elim

theorem equalItems_texts (names : List String) :
    equalItems (names.map text) (names.map text) := by
  induction names with
  | nil => simp [equalItems]
  | cons name rest ih => simp [equalItems, ih]

end Value

namespace FieldKind

variable {kind : FieldKind} {v : Value}

theorem Holds.takes (h : kind.Holds v) : kind.Takes v := by
  cases kind with
  | number => exact Value.IsExact.isMeasure h
  | _ => exact h

theorem Takes.ne_null (h : kind.Takes v) : v ≠ .null := by
  rintro rfl
  cases kind <;> simp [Takes, Holds, Value.IsMeasure] at h

theorem Takes.isWritable (h : kind.Takes v) (hkind : kind ≠ count) : v.isWritable := by
  cases kind with
  | text =>
    obtain ⟨t, rfl⟩ := h
    rfl
  | flag =>
    obtain ⟨b, rfl⟩ := h
    rfl
  | number =>
    cases v with
    | int i =>
      obtain ⟨x, hx⟩ := h
      exact Binary64.isWritable_of_toInt? hx
    | float => rfl
    | _ => exact h.elim
  | count => exact absurd rfl hkind
  | choices =>
    obtain ⟨names, rfl⟩ := h
    exact Value.areWritable_texts names

theorem Takes.isWritable_loaded (h : kind.Takes v) (hkind : kind ≠ count) : (kind.loaded v).isWritable := by
  cases kind with
  | number =>
    cases v with
    | int | float => rfl
    | _ => exact h.elim
  | _ => exact h.isWritable hkind

theorem Takes.plain_loaded (h : kind.Takes v) : (kind.loaded v).plain = v.plain := by
  cases kind with
  | number => exact Value.IsMeasure.plain_widened h
  | _ => rfl

theorem Holds.equals_loaded (h : kind.Holds v) : v.equals (kind.loaded v) := by
  cases kind with
  | text =>
    obtain ⟨t, rfl⟩ := h
    simp [loaded]
  | flag =>
    obtain ⟨b, rfl⟩ := h
    simp [loaded, Value.equals, Value.integer?]
  | number => exact Value.IsExact.equals_widened h
  | count =>
    obtain ⟨i, rfl⟩ := h
    simp [loaded, Value.equals, Value.integer?]
  | choices =>
    obtain ⟨names, rfl⟩ := h
    simpa [loaded, Value.equals] using Value.equalItems_texts names

end FieldKind

namespace SettingsFile

open Check

variable {v : Value}

theorem checkNumber_measure {x : Binary64} (h : v.IsMeasure) (hc : checkNumber v = .ok x) :
    .float x = v.widened := by
  cases v with
  | int i =>
    unfold checkNumber at hc
    simp only [spelled?, Value.integer?, Option.map_some] at hc
    split at hc
    · next negative code he =>
      cases hc
      rw [Value.widened, ← Option.some.inj he]
    · cases hc
  | float => cases hc; rfl
  | _ => exact h.elim

theorem checkPositive_measure {x : Binary64} (h : v.IsMeasure) (hc : checkPositive v = .ok x) :
    .float x = v.widened := by
  obtain ⟨y, hy, hx⟩ := bind_eq_ok.1 hc
  rw [eq_of_accepted hx]
  exact checkNumber_measure h hy

theorem checkNonnegative_measure {x : Binary64} (h : v.IsMeasure) (hc : checkNonnegative v = .ok x) :
    .float x = v.widened := by
  obtain ⟨y, hy, hx⟩ := bind_eq_ok.1 hc
  rw [eq_of_accepted hx]
  exact checkNumber_measure h hy

theorem checkCount_int {i j : Int} (h : checkCount (.int i) = .ok j) : j = i :=
  eq_of_accepted h

theorem checkItems_choices {allowed names chosen : List String}
    (h : checkItems (checkChoice allowed) (.list (names.map .text)) = .ok chosen) : chosen = names := by
  rw [checkItems_map (g := id) h fun t _ s hs => by cases checkChoice_eq_ok hs; rfl, List.map_id]

end SettingsFile

open SettingsFile Check in
/-- A value of its field's kind is read back as it is, a number as a floating-point number. -/
theorem Field.check_eq {field : Field} {v w : Value} (h : field.kind.Takes v)
    (hc : field.check v = .ok w) : w = field.kind.loaded v := by
  cases field with
  | caveName | selectName | author | colorScheme | logoPath | topoTeam | cartoTeam | exploTeam | exploTitle
  | comment | printMode | showLegend | headerBg | showSurvey | debugStationNames | transparency =>
    obtain ⟨_, rfl⟩ := h
    cases hc
    rfl
  | language | defaultSymbolSet =>
    obtain ⟨_, rfl⟩ := h
    obtain ⟨s, hs, rfl⟩ := map_eq_ok.1 hc
    rw [checkFilledText_text hs]
    rfl
  | mapBgColor | mapFgColor | surveyColor =>
    obtain ⟨_, rfl⟩ := h
    obtain ⟨s, hs, rfl⟩ := map_eq_ok.1 hc
    rw [checkColor_text hs]
    rfl
  | headerAnchor =>
    obtain ⟨_, rfl⟩ := h
    obtain ⟨s, hs, rfl⟩ := map_eq_ok.1 hc
    rw [checkAnchor_text hs]
    rfl
  | paperSize | surveyStyle =>
    obtain ⟨s, hs, rfl⟩ := map_eq_ok.1 hc
    rw [checkChoice_eq_ok hs]
    rfl
  | exportTypes =>
    obtain ⟨_, rfl⟩ := h
    obtain ⟨s, hs, rfl⟩ := map_eq_ok.1 hc
    rw [checkItems_choices hs]
    rfl
  | legendColumns =>
    obtain ⟨_, rfl⟩ := h
    obtain ⟨s, hs, rfl⟩ := map_eq_ok.1 hc
    rw [checkCount_int hs]
    rfl
  | scale | legendWidth | logoWidth | caveNameFontSize | stationLabelSize =>
    obtain ⟨s, hs, rfl⟩ := map_eq_ok.1 hc
    exact checkPositive_measure h hs
  | borderThickness | overlap | scaleBarLength =>
    obtain ⟨s, hs, rfl⟩ := map_eq_ok.1 hc
    exact checkNonnegative_measure h hs
  | headerX | headerY | rotation =>
    obtain ⟨s, hs, rfl⟩ := map_eq_ok.1 hc
    exact checkNumber_measure h hs

end CaveMap
