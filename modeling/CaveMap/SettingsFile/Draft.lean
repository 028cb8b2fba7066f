import CaveMap.SettingsFile.Schema

namespace CaveMap.SettingsFile

inductive DraftFault
  | refused (fault : SettingsFault)
  | unknownTheme (id : String)
  | duplicateModule (id : String)

def DraftFault.message : DraftFault → String
  | refused fault => "Invalid settings value: " ++ fault.message
  | unknownTheme id => "Invalid settings value: " ++ Text.quote (Theme.unknownMessage id)
  | duplicateModule id => "Duplicate custom module id '" ++ id ++ "'"

/-- What makes up the identifiers that are derived from names. -/
def isSlugChar (c : Char) : Bool := ('0' ≤ c && c ≤ '9') || ('a' ≤ c && c ≤ 'z')

/-- The lower-cased name with an underscore for whatever stands between letters and digits, but none at its ends. -/
def slug (name : String) : String :=
  String.ofList (Text.stripOf (· = '_') (Text.collapse (!isSlugChar ·) '_' (Text.lower name.toList)))

def derivedId (name : String) (index : Nat) : String :=
  "custom_" ++ if (slug name).isEmpty then Text.decimalText index else slug name

/-- The given identifier of an entry, or one derived from its name or else its place. -/
def effectiveId (entry : CustomEntry) (index : Nat) : String :=
  match entry.id with
  | none => derivedId entry.name index
  | some id => if id.isEmpty then derivedId entry.name index else id

def moduleOf (entry : CustomEntry) (index : Nat) : MapModule :=
  { id := effectiveId entry index, displayName := Text.strip entry.name, description := entry.description,
    code := entry.code, category := .drawing, isCustom := true }

def firstRepeated? (seen : List String) : List String → Option String
  | [] => none
  | s :: rest => if seen.contains s then some s else firstRepeated? (s :: seen) rest

def overrideOf (type : String) (entry : SymbolEntry) : SymbolOverride :=
  { type, category := entry.category, visible := entry.visible, color := entry.color,
    symbolSet := entry.symbolSet }

namespace Draft

def modules (draft : Draft) : List MapModule :=
  draft.customModules.zipIdx.map fun (entry, index) => moduleOf entry index

/-- Listed modules first, then the custom ones that are declared enabled. -/
def enabledIds (draft : Draft) : List String :=
  draft.enabledModules ++
    ((draft.modules.zip draft.customModules).filter (·.2.enabled)).map (·.1.id)

def overrides (draft : Draft) : SymbolTable :=
  .ofList (draft.symbols.entries.map fun (key, entry) => (key, overrideOf key entry))

/-- The values that a document gives, in the order of the fields. -/
def givenScalars (draft : Draft) : List (Field × Value) :=
  Field.all.filterMap fun field => (draft.scalars field).map fun value => (field, value)

def themed (draft : Draft) (s : Settings) : Except DraftFault Settings :=
  match draft.theme with
  | none => return s
  | some id =>
    match Theme.ofId? id with
    | none => throw (.unknownTheme id)
    | some theme => return s.applyTheme theme

/-- The settings of a document, its source files apart. -/
def settings (draft : Draft) : Except DraftFault Settings := do
  let base ← (Settings.default.revise { scalars := draft.scalars }).mapError .refused
  let base ← draft.themed base
  match firstRepeated? [] (draft.modules.map (·.id)) with
  | some id => throw (.duplicateModule id)
  | none =>
    return { base with
      customModules := draft.modules
      enabledModules := Value.distinct (draft.enabledIds.map .text)
      symbols := draft.overrides }

end Draft

end CaveMap.SettingsFile
