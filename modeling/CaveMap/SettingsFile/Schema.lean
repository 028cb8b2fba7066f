import CaveMap.SettingsFile.Rule
import CaveMap.SettingsFile.Save
import CaveMap.Session.Command

namespace CaveMap.SettingsFile

structure CustomEntry where
  id : Option String
  name : String
  code : String
  description : String
  enabled : Bool
  deriving DecidableEq

structure SymbolEntry where
  type : Option String
  category : SymbolCategory
  visible : Bool
  color : Option String
  symbolSet : Option String
  deriving DecidableEq

structure Draft where
  theme : Option String
  scalars : Field → Option Value
  enabledModules : List String
  customModules : List CustomEntry
  symbols : Table SymbolEntry
  sources : List String

abbrev Entries := List (Value × Value)

def checkRecord (name : String) : Value → Check Entries
  | .map entries => return entries
  | _ => .complain (.recordType name)

variable {α β : Type}

def fieldOr (entries : Entries) (key : String) (default : α) (check : Value → Check α) : Check α :=
  match Value.entry? entries key with
  | none => return default
  | some value => (check value).within (.key key)

def optionalField (entries : Entries) (key : String) (check : Value → Check α) : Check (Option α) :=
  fieldOr entries key none fun
    | .null => return none
    | value => (check value).map some

def requiredField (entries : Entries) (key : String) (check : Value → Check α) : Check α :=
  match Value.entry? entries key with
  | none => (Check.complain .missing).within (.key key)
  | some value => (check value).within (.key key)

def checkKey (known : List String) (key : Value) : Check Unit :=
  match key with
  | .text s => if known.contains s then return () else (Check.complain .unknownKey).within (.key s)
  | key => (Check.complain .keyType).within (.ofKey key)

def closed (known : List String) (entries : Entries) (result : Check α) : Check α :=
  .also (result.map fun a _ => a) (.gather (entries.map fun (key, _) => checkKey known key))

def sectionName : Section → String
  | .project => "ProjectSection"
  | .colors => "ColorsSection"
  | .header => "HeaderSection"
  | .logo => "LogoSection"
  | .legendText => "LegendTextSection"
  | .survey => "SurveySection"
  | .presentation => "PresentationSection"

def checkSection (part : Section) (value : Value) : Check (List (Field × Option Value)) := do
  let entries ← checkRecord (sectionName part) value
  closed (part.fields.map Field.key) entries <|
    .gather (part.fields.map fun field =>
      (optionalField entries field.key field.check).map fun value => (field, value))

def checkSections (entries : Entries) : Check (List (List (Field × Option Value))) :=
  .gather (Section.all.map fun part => fieldOr entries part.key [] (checkSection part))

def givenValue (sections : List (List (Field × Option Value))) (field : Field) : Option Value :=
  (sections.flatten.find? fun entry => entry.1 = field).bind fun entry => entry.2

def checkFilled (key : String) (value : Value) : Check String := do
  let s ← checkText value
  if Text.isBlankText s then .complain (.refused ("Custom module " ++ key ++ " must not be empty"))
  else return s

def checkCustomEntry (value : Value) : Check CustomEntry := do
  let entries ← checkRecord "CustomModuleEntry" value
  let entry := (optionalField entries "id" checkText).map CustomEntry.mk
  let entry := Check.also entry (requiredField entries "name" (checkFilled "name"))
  let entry := Check.also entry (requiredField entries "code" (checkFilled "code"))
  let entry := Check.also entry (fieldOr entries "description" Command.defaultDescription checkText)
  let entry := Check.also entry (fieldOr entries "enabled" true checkFlag)
  closed ["id", "name", "code", "description", "enabled"] entries entry

def checkModules (value : Value) : Check (List String × List CustomEntry) := do
  let entries ← checkRecord "ModulesSection" value
  let lists := (fieldOr entries "enabled" [] (checkItems checkText)).map Prod.mk
  let lists := Check.also lists (fieldOr entries "custom" [] (checkItems checkCustomEntry))
  closed ["enabled", "custom"] entries lists

def checkCategory (value : Value) : Check SymbolCategory :=
  match value.text?.bind SymbolCategory.ofName? with
  | some category => return category
  | none => .complain (.choice (SymbolCategory.all.map (·.name)))

def checkSymbolEntry (value : Value) : Check SymbolEntry := do
  let entries ← checkRecord "SymbolEntry" value
  let entry := (optionalField entries "type" checkText).map SymbolEntry.mk
  let entry := Check.also entry (requiredField entries "category" checkCategory)
  let entry := Check.also entry (fieldOr entries "visible" true checkFlag)
  let entry := Check.also entry (optionalField entries "color" checkColor)
  let entry := Check.also entry (optionalField entries "symbol_set" checkText)
  closed ["type", "category", "visible", "color", "symbol_set"] entries entry

def checkSymbolItem (key value : Value) : Check (String × SymbolEntry) :=
  let item := (Check.within (.ofKey key) (Check.within (.key "[key]") (checkText key))).map Prod.mk
  Check.also item (Check.within (.ofKey key) (checkSymbolEntry value))

def checkSymbols : Value → Check (Table SymbolEntry)
  | .map entries =>
    (Check.gather (entries.map fun (key, value) => checkSymbolItem key value)).map Table.ofList
  | _ => .complain .mappingType

def symbolFault? (key : String) (entry : SymbolEntry) : Option String :=
  if key.isEmpty then some "Symbol type keys must be non-empty"
  else
    match entry.type with
    | none => none
    | some type =>
      if type = key then none
      else some ("Symbol entry '" ++ key ++ "' declares a different type '" ++ type ++ "'")

def checkVersion (value : Value) : Check Unit := do
  let s ← checkText value
  if s = version then return ()
  else .complain (.refused ("Expected schema '" ++ version ++ "', got '" ++ s ++ "'"))

def checkTheme (value : Value) : Check String := do
  let s ← checkText value
  if Theme.ids.contains s then return s
  else .complain (.refused ("theme must be one of " ++ Text.quotedList Theme.ids ++ ", got '" ++ s ++ "'"))

/-- The key that holds the version: the short one if it is there. -/
def versionKey (entries : Entries) : String :=
  if (Value.entry? entries "schema").isSome then "schema" else "schema_version"

def draftOf (theme : Option String) (sections : List (List (Field × Option Value)))
    (modules : List String × List CustomEntry) (symbols : Table SymbolEntry) (sources : List String) :
    Draft :=
  { theme, scalars := givenValue sections, enabledModules := modules.1, customModules := modules.2, symbols,
    sources }

def checkParts (entries : Entries) : Check Draft :=
  let draft := (fieldOr entries (versionKey entries) () checkVersion).map fun _ => draftOf
  let draft := Check.also draft (optionalField entries "theme" checkTheme)
  let draft := Check.also draft (checkSections entries)
  let draft := Check.also draft (fieldOr entries "modules" ([], []) checkModules)
  let draft := Check.also draft (fieldOr entries "symbols" ∅ checkSymbols)
  let draft := Check.also draft (fieldOr entries "sources" [] (checkItems checkText))
  closed ([versionKey entries, "theme"] ++ Section.all.map Section.key ++ ["modules", "symbols", "sources"])
    entries draft

/-- The keys of symbols are looked at only where all else is right. -/
def checkDocument (value : Value) : Check Draft := do
  let draft ← checkParts (← checkRecord "SettingsFileV1" value)
  match draft.symbols.entries.findSome? fun (key, entry) => symbolFault? key entry with
  | some reason => .complain (.refused reason)
  | none => return draft

end CaveMap.SettingsFile
