import CaveMap.Drawing
import CaveMap.Log.Logged
import CaveMap.Theme

namespace CaveMap

structure NewFile where
  name : String
  content : String
  path : Option String := none
  deriving DecidableEq

structure Suggestion where
  type : Option String
  color : Option String
  deriving DecidableEq

/-- New values for some attributes of an override, and the names of attributes that no override has. -/
structure OverrideChanges where
  type : Option String := none
  category : Option Value := none
  visible : Option Bool := none
  color : Option (Option String) := none
  symbolSet : Option (Option String) := none
  unknown : List String := []

inductive Command
  | addFiles (files : List NewFile)
  | removeFile (id : String)
  | addModule (name code description : String)
  | removeModule (id : String)
  | setEnabled (id : String) (enabled : Bool)
  | updateSymbol (type : String) (changes : OverrideChanges)
  | suggestColors (suggestions : List Suggestion)
  | applyTheme (theme : Theme)

namespace Command

inductive Fault
  | noModuleName
  | noModuleCode (name : String)
  | noOverride (type : String)
  | unknownAttributes (names : List String)
  | override (fault : OverrideFault)

def Fault.message : Fault → String
  | noModuleName => "Custom module name must not be empty"
  | noModuleCode name => "Custom module '" ++ name ++ "' has no code"
  | noOverride type => Text.quote ("No symbol override for '" ++ type ++ "'")
  | unknownAttributes names => "unexpected attributes " ++ Text.quotedList names
  | override fault => fault.message

def defaultDescription : String := "User MetaPost code"

end Command

def SymbolOverride.revise (override : SymbolOverride) (changes : OverrideChanges) :
    Except OverrideFault SymbolOverride :=
  SymbolOverride.make (changes.type.getD override.type) (changes.category.getD (.text override.category.name))
    (changes.visible.getD override.visible) (changes.color.getD override.color)
    (changes.symbolSet.getD override.symbolSet)

namespace Settings

/-- Symbol types found in a drawing join the override table; overrides that are there stay as they are. -/
def addFile (s : Settings) (id : String) (file : NewFile) : Settings :=
  let kind := FileKind.ofFileName file.name
  let upload : Upload := { id, fileName := file.name, kind, content := file.content, path := file.path }
  { s with
    uploads := s.uploads ++ [upload]
    symbols := if kind = .drawing then s.symbols.fill (Drawing.scan file.content).entries else s.symbols }

def fileEvents (s : Settings) (file : NewFile) : List Log.Event :=
  if FileKind.ofFileName file.name = .drawing then
    let found := Drawing.scan file.content
    [.drawingScanned file.name found.size (found.keys.filter (!s.symbols.contains ·)).length]
  else []

/-- The overrides stay when a file goes. -/
def removeFile (s : Settings) (id : String) : Settings :=
  { s with uploads := s.uploads.filter (·.id ≠ id) }

def newModule (id name code description : String) : MapModule :=
  { id, displayName := Text.strip name, description, code, category := .drawing, isCustom := true }

/-- A new module is enabled. -/
def addModule (s : Settings) (m : MapModule) : Settings :=
  { s with
    customModules := s.customModules ++ [m]
    enabledModules := Value.distinct (s.enabledModules ++ [.text m.id]) }

def withoutId (ids : List Value) (id : String) : List Value := ids.filter (!·.equals (.text id))

def removeModule (s : Settings) (id : String) : Settings :=
  { s with
    customModules := s.customModules.filter (·.id ≠ id)
    enabledModules := withoutId s.enabledModules id }

/-- An enabled module goes to the end of the list, wherever it was before. -/
def setEnabled (s : Settings) (id : String) (enabled : Bool) : Settings :=
  { s with enabledModules := withoutId s.enabledModules id ++ if enabled then [.text id] else [] }

/-- The override that a suggestion changes and its new color; none without a known type and a color. -/
def suggested? (symbols : SymbolTable) (suggestion : Suggestion) : Option (String × SymbolOverride) := do
  let type ← suggestion.type
  let color ← suggestion.color
  let override ← symbols.get? type
  if type.isEmpty || color.isEmpty then none else return (type, { override with color := some color })

def recolor (symbols : SymbolTable) (suggestion : Suggestion) : SymbolTable :=
  match suggested? symbols suggestion with
  | some (type, override) => symbols.insert type override
  | none => symbols

def suggestColors (s : Settings) (suggestions : List Suggestion) : Settings :=
  { s with symbols := suggestions.foldl recolor s.symbols }

end Settings

structure Session where
  settings : Settings
  drawn : Nat := 0

namespace Session

def start : Session := { settings := .default }

def addFiles (ids : Nat → String) (session : Session) (files : List NewFile) : Session :=
  files.foldl (fun ⟨s, drawn⟩ file => ⟨s.addFile (ids drawn) file, drawn + 1⟩) session

def fileEvents (s : Settings) : List NewFile → List Log.Event
  | [] => []
  | file :: rest => s.fileEvents file ++ fileEvents (s.addFile "" file) rest

def run (ids : Nat → String) (session : Session) : Command → Logged Command.Fault Session
  | .addFiles files =>
    ⟨.ok (session.addFiles ids files), fileEvents session.settings files⟩
  | .removeFile id => return { session with settings := session.settings.removeFile id }
  | .addModule name code description =>
    if Text.isBlankText name then Logged.fail .noModuleName
    else if Text.isBlankText code then Logged.fail (.noModuleCode name)
    else
      let m := Settings.newModule ("custom_" ++ ids session.drawn) name code description
      ⟨.ok ⟨session.settings.addModule m, session.drawn + 1⟩, [.moduleRegistered m.id m.displayName]⟩
  | .removeModule id => return { session with settings := session.settings.removeModule id }
  | .setEnabled id enabled => return { session with settings := session.settings.setEnabled id enabled }
  | .updateSymbol type changes =>
    match session.settings.symbols.get? type with
    | none => Logged.fail (.noOverride type)
    | some override =>
      if changes.unknown ≠ [] then Logged.fail (.unknownAttributes changes.unknown)
      else
        match override.revise changes with
        | .error fault => Logged.fail (.override fault)
        | .ok revised =>
          let symbols := session.settings.symbols.insert type revised
          return { session with settings := { session.settings with symbols } }
  | .suggestColors suggestions =>
    let count := (suggestions.filter fun x => (Settings.suggested? session.settings.symbols x).isSome).length
    ⟨.ok { session with settings := session.settings.suggestColors suggestions }, [.colorsSuggested count]⟩
  | .applyTheme theme => return { session with settings := session.settings.applyTheme theme }

end Session

end CaveMap
