import CaveMap.Files.Access
import CaveMap.SettingsFile.Draft

namespace CaveMap.SettingsFile

inductive SourceFault
  | draft (fault : DraftFault)
  | missing (path : Path)
  | system (fault : FileFault)

def SourceFault.message : SourceFault → String
  | draft fault => fault.message
  | missing path => "Source file not found: " ++ path.text
  | system fault => fault.reason

def fileAt (tree : FileTree) (p : Path) (content : String) : NewFile :=
  { name := p.name, content, path := some (Path.ofPlace (p.place tree.working)).text }

def readSource (tree : FileTree) (base : Path) (source : String) : Except SourceFault NewFile :=
  let p := base.join (Path.ofString source)
  match tree.readText p "utf-8" with
  | .ok content => return fileAt tree p content
  | .error (.system fault) => throw (.system fault)
  | .error _ => throw (.missing p)

/-- The settings of a document with its source files, which are found from the directory `base`. -/
def Draft.build (draft : Draft) (tree : FileTree) (base : Path) (ids : Nat → String) :
    Logged SourceFault Settings := do
  let s ← Logged.ofExcept (draft.settings.mapError .draft)
  let files ← Logged.ofExcept (draft.sources.mapM (readSource tree base))
  ⟨.ok (Session.addFiles ids { settings := s } files).settings, Session.fileEvents s files⟩

end CaveMap.SettingsFile
