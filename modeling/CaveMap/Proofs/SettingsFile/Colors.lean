import CaveMap.Proofs.Number.Digits
import CaveMap.Proofs.Session.Files
import CaveMap.Proofs.Session.Invariant
import CaveMap.Proofs.SettingsFile.Accepted
import CaveMap.Proofs.SettingsFile.Derived
import Mathlib.Data.Bool.AllAny

namespace CaveMap

theorem Numeral.digitsValue?_isSome {base : Nat} {digits : List Char} (hne : digits ≠ [])
    (h : ∀ c ∈ digits, (Text.digitIn? base c).isSome) : (digitsValue? base digits).isSome := by
  have hfold : ∀ n, (digits.foldlM (fun n c => (Text.digitIn? base c).map (n * base + ·)) n).isSome := by
    clear hne
    induction digits with
    | nil => exact fun n => rfl
    | cons c rest ih =>
      intro n
      obtain ⟨d, hd⟩ := Option.isSome_iff_exists.1 (h c List.mem_cons_self)
      rw [List.foldlM_cons, hd]
      exact ih (fun e he => h e (List.mem_cons_of_mem _ he)) _
  cases digits with
  | nil => exact absurd rfl hne
  | cons c rest => exact hfold 0

namespace Color

def hexDigits : List Char := "0123456789abcdefABCDEF".toList

theorem mem_hexDigits {c : Char} (h : (hexDigit? c).isSome) : c ∈ hexDigits := by
  have hall : ∀ n < 128, (hexDigit? (Char.ofNat n)).isSome → hexDigits.contains (Char.ofNat n) := by
    decide +kernel
  have hsmall : c.toNat < 128 := by
    unfold hexDigit? at h
    split at h
    · assumption
    · cases h
  have hc := hall c.toNat hsmall
  rw [Char.ofNat_toNat] at hc
  simpa using hc h

theorem hexDigit_facts {c : Char} (h : c ∈ hexDigits) : Text.isSpace c = false ∧ c ≠ '-' ∧ c ≠ '+' ∧
    c ≠ '_' ∧ c ≠ 'x' ∧ c ≠ 'X' ∧ (Text.digitIn? 16 c).isSome := by
  have hall : hexDigits.all fun c => Text.isSpace c = false ∧ c ≠ '-' ∧ c ≠ '+' ∧ c ≠ '_' ∧ c ≠ 'x' ∧
      c ≠ 'X' ∧ (Text.digitIn? 16 c).isSome := by
    decide +kernel
  simpa using List.all_iff_forall_prop.1 hall c h

theorem channel?_isSome (high low : Char) :
    (channel? high low).isSome = ((hexDigit? high).isSome && (hexDigit? low).isSome) := by
  unfold channel?
  cases hexDigit? high <;> cases hexDigit? low <;> rfl

theorem ofHex?_isSome_iff (text : String) :
    (ofHex? text).isSome ↔
      ∃ digits, text.toList = '#' :: digits ∧ digits.length = 6 ∧ ∀ c ∈ digits, (hexDigit? c).isSome := by
  have hchannels (red green blue : Option Nat) :
      (do return (⟨← red, ← green, ← blue⟩ : Color)).isSome = (red.isSome && green.isSome && blue.isSome) := by
    cases red <;> cases green <;> cases blue <;> rfl
  unfold ofHex?
  split
  · next r s g h b c he =>
    rw [he, hchannels]
    simp [channel?_isSome, and_assoc]
  · next hne =>
    refine ⟨fun h => absurd h (by simp), ?_⟩
    rintro ⟨digits, he, hlength, -⟩
    match digits, hlength with
    | [r, s, g, h, b, c], _ => exact absurd he (hne r s g h b c)

theorem integer?_hexDigits {digits : List Char} (hne : digits ≠ [])
    (h : ∀ c ∈ digits, (hexDigit? c).isSome) : (Numeral.integer? 16 (String.ofList digits)).isSome := by
  have hfacts (c : Char) (hc : c ∈ digits) := hexDigit_facts (mem_hexDigits (h c hc))
  have hstrip : Text.stripOf Text.isSpace digits = digits := by
    refine Text.stripOf_of_edges ?_ ?_
    · cases hhead : digits.head? with
      | none => rfl
      | some c => simp [(hfacts c (List.mem_of_mem_head? hhead)).1]
    · cases hlast : digits.getLast? with
      | none => rfl
      | some c => simp [(hfacts c (List.mem_of_mem_getLast? hlast)).1]
  have hsign : Numeral.splitSign digits = (false, digits) := by
    unfold Numeral.splitSign
    split
    · exact absurd rfl (hfacts '-' List.mem_cons_self).2.1
    · exact absurd rfl (hfacts '+' List.mem_cons_self).2.2.1
    · rfl
  have hmark : Numeral.dropBaseMark 16 digits = digits := by
    unfold Numeral.dropBaseMark
    have hx : ∀ c ∈ digits, c ≠ 'x' ∧ c ≠ 'X' := fun c hc =>
      ⟨(hfacts c hc).2.2.2.2.1, (hfacts c hc).2.2.2.2.2.1⟩
    split
    · simp [hx]
    · simp [hx]
    · rfl
  have hbars : '_' ∉ digits := fun hin => (hfacts '_' hin).2.2.2.1 rfl
  have hvalue : (Numeral.digitsValue? 16 digits).isSome :=
    Numeral.digitsValue?_isSome hne fun c hc => (hfacts c hc).2.2.2.2.2.2
  obtain ⟨n, hn⟩ := Option.isSome_iff_exists.1 hvalue
  simp only [Numeral.integer?, String.toList_ofList, hstrip, hsign, hmark, Numeral.dropUnderscores?_eq _ hbars,
    Option.bind_some, hn, Option.map_some, Option.isSome_some]

end Color

open SettingsFile

/-- Overrides whose colors a document may hold. -/
def ColoredOverrides (symbols : SymbolTable) : Prop :=
  ∀ key override, (key, override) ∈ symbols.entries → ∀ t, override.color = some t → isColorText t

theorem Drawing.isColorText_scan {content key t : String} {override : SymbolOverride}
    (h : (key, override) ∈ (scan content).entries) (ht : override.color = some t) : isColorText t := by
  rcases Table.mem_entries_fill h with hin | hin
  · exact absurd hin List.not_mem_nil
  · obtain ⟨⟨category, type⟩, -, he⟩ := List.mem_map.1 hin
    cases he
    cases ht
    decide +kernel

namespace ColoredOverrides

variable {symbols : SymbolTable}

theorem insert (h : ColoredOverrides symbols) (key : String) {override : SymbolOverride}
    (ho : ∀ t, override.color = some t → isColorText t) : ColoredOverrides (symbols.insert key override) := by
  intro k o hin t ht
  rcases Table.mem_put hin with he | hold
  · cases he
    exact ho t ht
  · exact h k o hold t ht

theorem fill_scan (h : ColoredOverrides symbols) (content : String) :
    ColoredOverrides (symbols.fill (Drawing.scan content).entries) := by
  intro k o hin t ht
  rcases Table.mem_entries_fill hin with hold | hnew
  · exact h k o hold t ht
  · exact Drawing.isColorText_scan hnew ht

end ColoredOverrides

namespace Settings

def colorFields : List Field := [.mapBgColor, .mapFgColor, .surveyColor]

/-- Settings whose colors a document may hold. -/
structure Colored (s : Settings) : Prop where
  fields : ∀ field ∈ colorFields, ∃ t, s.get field = .text t ∧ isColorText t
  overrides : ColoredOverrides s.symbols

/-- The colors of settings: those of the map, and those of single symbols. -/
def colors (s : Settings) : List Value :=
  colorFields.map s.get ++ s.symbols.entries.filterMap fun entry => entry.2.color.map .text

variable {s : Settings}

theorem Colored.mem_colors (h : s.Colored) {v : Value} (hv : v ∈ s.colors) :
    ∃ t, v = .text t ∧ isColorText t := by
  rcases List.mem_append.1 hv with hfield | hsymbol
  · obtain ⟨field, hin, rfl⟩ := List.mem_map.1 hfield
    exact h.fields field hin
  · obtain ⟨⟨key, override⟩, hin, hcolor⟩ := List.mem_filterMap.1 hsymbol
    obtain ⟨t, ht, rfl⟩ := Option.map_eq_some_iff.1 hcolor
    exact ⟨t, rfl, h.overrides key override hin t ht⟩

theorem colored_default : Colored default where
  fields := by
    have hall : ∀ field ∈ colorFields, ∃ t, default.get field = .text t ∧ isColorText t := by
      simp only [colorFields, List.forall_mem_cons, List.not_mem_nil, false_imp_iff, implies_true, and_true]
      exact ⟨⟨_, rfl, by decide +kernel⟩, ⟨_, rfl, by decide +kernel⟩, ⟨_, rfl, by decide +kernel⟩⟩
    exact hall
  overrides key override hin := absurd hin List.not_mem_nil

theorem isColorText_theme {theme : Theme} (h : theme ∈ Theme.all) :
    isColorText theme.bgColor ∧ isColorText theme.fgColor ∧ isColorText theme.surveyColor := by
  have hall : Theme.all.all fun theme =>
      isColorText theme.bgColor ∧ isColorText theme.fgColor ∧ isColorText theme.surveyColor := by
    decide +kernel
  simpa using List.all_iff_forall_prop.1 hall theme h

theorem Colored.applyTheme (h : s.Colored) {theme : Theme}
    (ht : isColorText theme.bgColor ∧ isColorText theme.fgColor ∧ isColorText theme.surveyColor) :
    (s.applyTheme theme).Colored where
  fields := by
    obtain ⟨hbg, hfg, hsurvey⟩ := ht
    simp only [colorFields, List.forall_mem_cons, List.not_mem_nil, false_imp_iff, implies_true, and_true]
    exact ⟨⟨_, rfl, hbg⟩, ⟨_, rfl, hfg⟩, ⟨_, rfl, hsurvey⟩⟩
  overrides := h.overrides

end Settings

namespace Session

variable {session : Session}

theorem colored_addFiles (h : ColoredOverrides session.settings.symbols) (ids : Nat → String)
    (files : List NewFile) : ColoredOverrides (session.addFiles ids files).settings.symbols := by
  refine addFiles_induction (P := fun s => ColoredOverrides s.symbols) (fun s id file hs => ?_) h files
  change ColoredOverrides (if _ then _ else _)
  split
  · exact hs.fill_scan file.content
  · exact hs

end Session

theorem Settings.Colored.addFiles {session : Session} (h : session.settings.Colored) (ids : Nat → String)
    (files : List NewFile) : (session.addFiles ids files).settings.Colored :=
  ⟨Session.get_addFiles session ids files ▸ h.fields, Session.colored_addFiles h.overrides ids files⟩

namespace SettingsFile

open Check

theorem checked_color {field : Field} (hin : field ∈ Settings.colorFields) {v w : Value}
    (h : field.check v = .ok w) : ∃ t, w = .text t ∧ isColorText t := by
  have hcheck : (checkColor v).map Value.text = .ok w := by
    simp only [Settings.colorFields, List.mem_cons, List.not_mem_nil, or_false] at hin
    rcases hin with rfl | rfl | rfl <;> exact h
  obtain ⟨t, ht, rfl⟩ := map_eq_ok.1 hcheck
  exact ⟨t, rfl, (checkColor_ok_iff.1 ht).2⟩

theorem Accepts.colored {entries : Entries} {draft : Draft} (h : Accepts entries draft) {s : Settings}
    (hs : draft.settings = .ok s) : s.Colored := by
  obtain ⟨base, themed, hbase, hthemed, -, rfl⟩ := Draft.settings_eq_ok.1 hs
  have hrevised := Settings.revise_eq_ok hbase
  have hcolored : base.Colored := by
    refine ⟨fun field hin => ?_, ?_⟩
    · have hne : field ≠ .exportTypes := by
        rintro rfl
        exact absurd hin (by decide)
      rw [hrevised.get field hne]
      change ∃ t, (draft.scalars field).getD (Settings.default.get field) = .text t ∧ isColorText t
      cases hgiven : draft.scalars field with
      | none => exact Settings.colored_default.fields field hin
      | some w =>
        obtain ⟨v, hv⟩ := h.checked hgiven
        exact checked_color hin hv
    · rw [hrevised.symbols]
      exact Settings.colored_default.overrides
  have hfields : ∀ field ∈ Settings.colorFields, ∃ t, themed.get field = .text t ∧ isColorText t := by
    rcases Draft.themed_eq_ok.1 hthemed with ⟨-, rfl⟩ | ⟨id, theme, -, htheme, rfl⟩
    · exact hcolored.fields
    · exact (hcolored.applyTheme (Settings.isColorText_theme (List.mem_of_find?_eq_some htheme))).fields
  refine ⟨hfields, fun key override hin t ht => ?_⟩
  obtain ⟨⟨k, entry⟩, hentry, he⟩ := List.mem_map.1 (Table.mem_of_mem_ofList hin)
  cases he
  exact checkSymbols_color h.symbols hentry ht

/-- The colors that a document may hold are those of six digits and some that no map can show: signs,
underscores and digits of other scripts count as well. -/
theorem ofHex?_isSome_iff_checkColor (v : String) :
    (Color.ofHex? v).isSome ↔
      checkColor (.text v) = .ok v ∧ ∀ c ∈ v.toList.tail, (Color.hexDigit? c).isSome := by
  rw [Color.ofHex?_isSome_iff, checkColor_ok_iff]
  constructor
  · rintro ⟨digits, he, hlength, hdigits⟩
    have hne : digits ≠ [] := List.ne_nil_of_length_pos (by omega)
    have hcolor : isColorText v := by
      simp [isColorText, he, hlength, Color.integer?_hexDigits hne hdigits]
    exact ⟨⟨rfl, hcolor⟩, by rwa [he]⟩
  · rintro ⟨⟨-, hcolor⟩, hdigits⟩
    unfold isColorText at hcolor
    split at hcolor
    · next digits he =>
      rw [he] at hdigits
      simp only [Bool.and_eq_true, decide_eq_true_eq] at hcolor
      exact ⟨digits, he, hcolor.1, hdigits⟩
    · cases hcolor

/-- Colors of loaded settings are those that a document may hold, and a neutral color stands in for one
exactly where a character behind its number sign is no digit of base sixteen in ASCII. -/
theorem load_colors (v : String) :
    ((Color.ofHex? v).isSome ↔
      checkColor (.text v) = .ok v ∧ ∀ c ∈ v.toList.tail, (Color.hexDigit? c).isSome) ∧
    ∀ (tree : FileTree) (path : Path) (ids : Nat → String) (s : Settings),
      (load tree path ids).result = .ok s → ∀ value ∈ s.colors, ∃ t, value = .text t ∧
        checkColor value = .ok t ∧
        (Color.ofValue? value = none ↔ ∃ c ∈ t.toList.tail, Color.hexDigit? c = none) := by
  refine ⟨ofHex?_isSome_iff_checkColor v, fun tree path ids s hload value hvalue => ?_⟩
  obtain ⟨-, document, draft, -, hcheck, hbuild⟩ := load_eq_ok.1 hload
  obtain ⟨start, files, hstart, -, rfl⟩ := Draft.build_eq_ok.1 hbuild
  obtain ⟨entries, -, haccepts⟩ := checkDocument_ok_iff.1 hcheck
  obtain ⟨t, rfl, ht⟩ := ((haccepts.colored hstart).addFiles ids files).mem_colors hvalue
  have hchecked : checkColor (.text t) = .ok t := checkColor_ok_iff.2 ⟨rfl, ht⟩
  refine ⟨t, rfl, hchecked, ?_⟩
  have hiff := ofHex?_isSome_iff_checkColor t
  rw [and_iff_right hchecked, ← not_iff_not] at hiff
  simpa [Color.ofValue?] using hiff

def signedColors : FileTree :=
  { entries := [(["s.yaml"], .file (Text.utf8
      "colors:\n  map_bg_color: '#+12345'\n  map_fg_color: '#1_2_34'\n".toList))]
    working := [] }

theorem load_colors_signed :
    ∃ s, (load signedColors (Path.ofString "s.yaml") fun _ => "").result = .ok s ∧
      ∀ value ∈ s.colors, ∃ t, value = .text t ∧ checkColor value = .ok t ∧
        (Color.ofValue? value = none ↔ ∃ c ∈ t.toList.tail, Color.hexDigit? c = none) := by
  have hok : (load signedColors (Path.ofString "s.yaml") fun _ => "").result.toOption.isSome := by
    decide +kernel
  cases h : (load signedColors (Path.ofString "s.yaml") fun _ => "").result with
  | error => rw [h] at hok; cases hok
  | ok s => exact ⟨s, rfl, (load_colors "#+12345").2 _ _ _ s h⟩

/-- The document check takes a sign for the first of six characters; the map shows its neutral color. -/
theorem checkColor_signed :
    checkColor (.text "#+12345") = .ok "#+12345" ∧ Color.ofHex? "#+12345" = none ∧
      (load signedColors (Path.ofString "s.yaml") fun _ => "").result.toOption.map
        (fun s => (Color.ofValue? s.mapBgColor, Color.fractionsOf s.mapBgColor)) =
          some (none, Color.neutralFractions) := by
  decide +kernel

end SettingsFile

end CaveMap
