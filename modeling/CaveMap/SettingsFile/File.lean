import CaveMap.SettingsFile.Save
import CaveMap.SettingsFile.Shipped
import CaveMap.SettingsFile.Sources
import CaveMap.Yaml.File

namespace CaveMap.SettingsFile

inductive LoadFault
  | missing (path : Path)
  | system (fault : FileFault)
  /-- Bytes that are no text. -/
  | encoding
  | malformed (name : String)
  /-- A text in the document that does not fit its tag. -/
  | scalar (fault : Yaml.Fault)
  | empty (name : String)
  | notMapping (name : String)
  | invalid (name : String) (problems : List Problem)
  | source (fault : SourceFault)

namespace LoadFault

def ofFile (name : String) : Yaml.FileFault → LoadFault
  | .missing path => missing path
  | .system fault => system fault
  | .encoding => encoding
  | .document .malformed | .document .cyclic => malformed name
  | .document fault => scalar fault

/-- Whether the fault lies with the file; all others are failures on the way to it. -/
def isRefusal : LoadFault → Bool
  | system _ | encoding | scalar _ | source (.system _) => false
  | _ => true

def headline : LoadFault → String
  | missing path => "Settings file not found: " ++ path.text
  | system fault => fault.reason
  | encoding => "invalid UTF-8"
  | malformed name => "Cannot parse settings file " ++ name
  | scalar fault => fault.message
  | empty name => "Empty settings file: " ++ name
  | notMapping name => "Settings file " ++ name ++ " must contain a mapping"
  | invalid name problems =>
    "Settings validation failed at " ++ name ++ ": " ++ Text.decimalText problems.length ++
      if problems.length = 1 then " validation error" else " validation errors"
  | source fault => fault.message

def problems : LoadFault → List Problem
  | invalid _ problems => problems
  | _ => []

def message (fault : LoadFault) : String :=
  String.intercalate "\n"
    (fault.headline :: fault.problems.map fun p => "  " ++ p.placeText ++ ": " ++ p.complaint.message)

end LoadFault

/-- Identifiers for new uploads come from `ids`; sources are found from the directory `base`. -/
def settingsOf (tree : FileTree) (name : String) (base : Path) (ids : Nat → String) (value : Value) :
    Logged LoadFault Settings := do
  match value with
  | .null => .fail (.empty name)
  | .map _ =>
    let draft ← .ofExcept ((checkDocument value).mapError (.invalid name))
    let s ← (draft.build tree base ids).mapError .source
    .record (.settingsLoaded s.sourceFiles.length s.symbols.size s.enabledModules.length)
    return s
  | _ => .fail (.notMapping name)

def load (tree : FileTree) (path : Path) (ids : Nat → String) : Logged LoadFault Settings := do
  if !(← .ofExcept ((tree.exists? path).mapError .system)) then .fail (.missing path)
  .record (.settingsLoading path.text)
  let value ← .ofExcept ((tree.readYaml path).mapError (.ofFile path.text))
  settingsOf tree path.text path.parent ids value

def loadShipped (tree : FileTree) (name : String) (ids : Nat → String) : Logged LoadFault Settings := do
  .record (.settingsLoading name)
  let value ← .ofExcept ((Yaml.load shipped.toList).mapError fun f => .ofFile name (.document f))
  settingsOf tree name (Path.ofString name).parent ids value

def save (tree : FileTree) (path : Path) (s : Settings) : FileTree × Logged WriteFault Unit :=
  let value := document tree.working (some (Path.ofPlace (path.parent.place tree.working))) s
  match tree.writeYaml path value with
  | (tree, .ok ()) => (tree, .record (.settingsWritten path.text))
  | (tree, .error fault) => (tree, .fail fault)

end CaveMap.SettingsFile
