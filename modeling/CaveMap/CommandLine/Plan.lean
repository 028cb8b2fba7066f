import CaveMap.CommandLine.Arguments
import CaveMap.Document.Config
import CaveMap.Log.Logger
import CaveMap.SettingsFile.File
import CaveMap.Text.Column

namespace CaveMap.CommandLine

/-- What a run depends on besides its arguments and files. -/
structure Surroundings where
  /-- Seconds since the beginning of 1970. -/
  time : Binary64
  process : Nat
  /-- What the shipped settings file is called. -/
  shippedName : String
  ids : Nat → String

inductive Fault
  | setUp (fault : Log.SetUpFault)
  | load (fault : SettingsFile.LoadFault)
  | read (fault : ReadFault)
  | layout (fault : Layout.Fault)
  | config (fault : Config.Fault)
  | write (fault : WriteFault)

def Fault.message : Fault → String
  | setUp fault => fault.message
  | load fault => fault.message
  | read fault => fault.message
  | layout fault => fault.message
  | config fault => fault.message
  | write fault => fault.message

inductive Obstacle
  | refused (fault : SettingsFile.LoadFault)
  | missing (path : Path)
  | fault (fault : Fault)

inductive Plan
  | listing (text : String)
  | documents (settings : Settings) (layout config : String)

def moduleLine (s : Settings) (m : MapModule) : String :=
  (if s.isEnabled m.id then "[on ] " else "[off] ") ++ Text.leftAligned 24 m.id ++ " " ++ m.displayName ++
    " - " ++ m.description ++ "\n"

def moduleListing (s : Settings) : String :=
  String.join ((MapModule.builtins ++ s.customModules).map (moduleLine s))

def themeLine (theme : Theme) : String :=
  Text.leftAligned 18 theme.id ++ " " ++ theme.name ++ " - " ++ theme.description ++ "\n"

def themeListing : String := String.join (Theme.all.map themeLine)

def Obstacle.ofLoad (fault : SettingsFile.LoadFault) : Obstacle :=
  if fault.isRefusal then refused fault else .fault (.load fault)

def Obstacle.ofRead : ReadFault → Obstacle
  | .missing path => missing path
  | other => .fault (.read other)

namespace Arguments

def loaded (args : Arguments) (around : Surroundings) (tree : FileTree) :
    Logged SettingsFile.LoadFault Settings :=
  match args.settings with
  | none => SettingsFile.loadShipped tree around.shippedName around.ids
  | some path => SettingsFile.load tree path around.ids

/-- The switches that change settings, one after the other. -/
def override (args : Arguments) (s : Settings) : Settings :=
  let s := (args.theme.map s.applyTheme).getD s
  let s := if args.printMode then { s with printMode := .bool true } else s
  let s := { s with paperSize := args.paper.getD s.paperSize }
  let s := if args.exports.isEmpty then s else { s with exportTypes := args.exports.map .text }
  args.modules.foldl (fun s id => s.setEnabled id true) s

def newFiles (args : Arguments) (tree : FileTree) : Except ReadFault (List NewFile) :=
  args.sources.mapM fun p => (tree.readText p "utf-8").map (SettingsFile.fileAt tree p)

/-- Identifiers go on behind those of the uploads that are there. -/
def withSources (args : Arguments) (around : Surroundings) (tree : FileTree) (s : Settings) :
    Logged Obstacle Settings := do
  let files ← .ofExcept ((args.newFiles tree).mapError .ofRead)
  let ids (n : Nat) : String := around.ids (s.uploads.length + n)
  ⟨.ok (Session.addFiles ids { settings := s } files).settings, Session.fileEvents s files⟩

def documents (args : Arguments) (s : Settings) : Logged Obstacle Plan := do
  let layout ← (Layout.generate s).mapError fun f => .fault (.layout f)
  let config ← (Config.generate s args.layoutName).mapError fun f => .fault (.config f)
  return .documents s layout config

def plan (args : Arguments) (around : Surroundings) (tree : FileTree) : Logged Obstacle Plan := do
  let s ← (args.loaded around tree).mapError .ofLoad
  if args.listModules then return .listing (moduleListing s)
  else if args.listThemes then return .listing themeListing
  else
    let s ← args.withSources around tree (args.override s)
    args.documents s

end Arguments

end CaveMap.CommandLine
