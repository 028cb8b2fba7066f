import CaveMap.Proofs.SettingsFile.Typed
import CaveMap.Proofs.Value

namespace CaveMap

theorem PaperSize.name_of_ofName? {name : String} {size : PaperSize} (h : ofName? name = some size) :
    size.name = name := by
  simpa using List.find?_some h

theorem SurveyStyle.name_of_ofName? {name : String} {style : SurveyStyle} (h : ofName? name = some style) :
    style.name = name := by
  simpa using List.find?_some h

theorem PaperSize.ofName?_name (size : PaperSize) : ofName? size.name = some size := by
  cases size <;> rfl

theorem SurveyStyle.ofName?_name (style : SurveyStyle) : ofName? style.name = some style := by
  cases style <;> rfl

theorem PaperSize.name_injective : Function.Injective name := by
  intro size other h
  cases size <;> cases other <;> revert h <;> decide

theorem SurveyStyle.name_injective : Function.Injective name := by
  intro style other h
  cases style <;> cases other <;> revert h <;> decide

theorem Value.eq_text_of_text? {v : Value} {t : String} (h : v.text? = some t) : v = .text t := by
  cases v <;> cases h
  rfl

namespace Settings

theorem itemsOf_eq_ok {v : Value} {items : List Value} : itemsOf v = .ok items ↔ v.items? = some items := by
  unfold itemsOf
  split
  · next h => simp [h, throw, throwThe, MonadExceptOf.throw]
  · next found h => simp [h, pure, Except.pure]

variable {s t : Settings} {changes : Changes}

theorem ext_get (h : ∀ field, s.get field = t.get field) (huploads : s.uploads = t.uploads)
    (henabled : s.enabledModules = t.enabledModules) (hcustom : s.customModules = t.customModules)
    (hsymbols : s.symbols = t.symbols) : s = t := by
  have hpaper : s.paperSize = t.paperSize := PaperSize.name_injective (Value.text.inj (h .paperSize))
  have hstyle : s.surveyStyle = t.surveyStyle := SurveyStyle.name_injective (Value.text.inj (h .surveyStyle))
  have hexports := Value.list.inj (h .exportTypes)
  cases s
  cases t
  rw [mk.injEq]
  exact ⟨h .caveName, h .selectName, h .author, h .scale, h .language, hexports, hpaper, h .colorScheme,
    h .mapBgColor, h .mapFgColor, h .printMode, h .showLegend, h .legendWidth, h .legendColumns, h .headerX,
    h .headerY, h .headerAnchor, h .headerBg, h .defaultSymbolSet, h .logoPath, h .logoWidth, h .topoTeam,
    h .cartoTeam, h .exploTeam, h .exploTitle, h .comment, h .caveNameFontSize, h .borderThickness, h .showSurvey,
    h .surveyColor, hstyle, h .debugStationNames, h .stationLabelSize, h .rotation, h .transparency, h .overlap,
    h .scaleBarLength, huploads, henabled, hcustom, hsymbols⟩

def newValue (s : Settings) (changes : Changes) (field : Field) : Value :=
  (changes.scalars field).getD (s.get field)

/-- What a successful change leaves. -/
structure Revised (s : Settings) (changes : Changes) (t : Settings) : Prop where
  get : ∀ field, field ≠ .exportTypes → t.get field = s.newValue changes field
  exportTypes : (s.newValue changes .exportTypes).items? = some t.exportTypes
  enabledModules : distinctItems (changes.enabledModules.getD (.list s.enabledModules)) = .ok t.enabledModules
  uploads : t.uploads = changes.uploads.getD s.uploads
  customModules : t.customModules = changes.customModules.getD s.customModules
  symbols : t.symbols = changes.symbols.getD s.symbols

theorem revise_eq_ok (h : s.revise changes = .ok t) : Revised s changes t := by
  unfold revise at h
  simp only [bind, Except.bind] at h
  split at h
  · cases h
  next enabled henabled =>
  split at h
  · cases h
  next items hitems =>
  split at h
  next size hsize =>
    split at h
    next style hstyle =>
      cases h
      have hpaper : Value.text size.name = s.newValue changes .paperSize := by
        obtain ⟨name, hname, hfound⟩ := Option.bind_eq_some_iff.1 hsize
        rw [PaperSize.name_of_ofName? hfound]
        exact (Value.eq_text_of_text? hname).symm
      have hstyle : Value.text style.name = s.newValue changes .surveyStyle := by
        obtain ⟨name, hname, hfound⟩ := Option.bind_eq_some_iff.1 hstyle
        rw [SurveyStyle.name_of_ofName? hfound]
        exact (Value.eq_text_of_text? hname).symm
      refine ⟨fun field hfield => ?_, itemsOf_eq_ok.1 hitems, henabled, rfl, rfl, rfl⟩
      cases field with
      | exportTypes => exact absurd rfl hfield
      | paperSize => exact hpaper
      | surveyStyle => exact hstyle
      | _ => rfl
    · cases h
  · cases h

end Settings

end CaveMap
