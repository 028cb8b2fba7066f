import CaveMap.CommandLine.Plan

namespace CaveMap.CommandLine

inductive Ending
  | done
  /-- The settings file cannot be used. -/
  | refused (fault : SettingsFile.LoadFault)
  /-- What went wrong has been printed. -/
  | failed
  | usage (fault : UsageFault)
  | broken (fault : Fault)

def Ending.exitCode : Ending → Nat
  | done => 0
  | usage _ => 2
  | _ => 1

structure Report where
  tree : FileTree
  printed : String := ""
  events : List Log.Event := []
  ending : Ending := .done

namespace Report

def andThen (report : Report) (next : FileTree → Report) : Report :=
  match report.ending with
  | .done =>
    let more := next report.tree
    { tree := more.tree, printed := report.printed ++ more.printed, events := report.events ++ more.events,
      ending := more.ending }
  | _ => report

def ofObstacle (tree : FileTree) (events : List Log.Event) : Obstacle → Report
  | .refused fault =>
    { tree, printed := "Error loading settings: " ++ fault.message ++ "\n", events, ending := .refused fault }
  | .missing path =>
    { tree, printed := "Error: " ++ (ReadFault.missing path).message ++ "\n", events, ending := .failed }
  | .fault fault => { tree, events, ending := .broken fault }

/-- A file that could not be written is reported; it ends the run like any failure that is not handled
if the way to it could not be made. -/
def ofWriteFault (tree : FileTree) (events : List Log.Event) (fault : WriteFault) : Report :=
  match fault with
  | .failed .. => { tree, printed := "Error: " ++ fault.message ++ "\n", events, ending := .failed }
  | fault => { tree, ending := .broken (.write fault) }

end Report

namespace Arguments

def dryRunText (args : Arguments) (layout config : String) : String :=
  "--- " ++ args.layoutName ++ " ---\n" ++ layout ++ "--- " ++ args.configName ++ " ---\n" ++ config ++
    "--- End ---\n"

def layoutPath (args : Arguments) : Path := args.outDir.join (.ofString args.layoutName)

def configPath (args : Arguments) : Path := args.outDir.join (.ofString args.configName)

/-- The layout first; if it cannot be written the other document is not tried. -/
def writeDocuments (args : Arguments) (layout config : String) (tree : FileTree) : Report :=
  match tree.writeText args.layoutPath layout with
  | (tree, .error fault) => .ofWriteFault tree [.writingFailed fault.message] fault
  | (tree, .ok ()) =>
    match tree.writeText args.configPath config with
    | (tree, .error fault) => .ofWriteFault tree [.writingFailed fault.message] fault
    | (tree, .ok ()) =>
      { tree, events := [.documentsWritten args.layoutName args.configName args.outDir.text] }

def deliver (args : Arguments) (layout config : String) (tree : FileTree) : Report :=
  if args.dryRun then { tree, printed := args.dryRunText layout config }
  else args.writeDocuments layout config tree

def saveSettings? (args : Arguments) (s : Settings) (tree : FileTree) : Report :=
  match args.saveSettings with
  | none => { tree }
  | some path =>
    match SettingsFile.save tree path s with
    | (tree, ⟨.ok (), events⟩) => { tree, events }
    | (tree, ⟨.error fault, events⟩) => .ofWriteFault tree events fault

def carryOut (args : Arguments) (tree : FileTree) : Plan → Report
  | .listing text => { tree, printed := text }
  | .documents s layout config =>
    (args.deliver layout config tree).andThen (args.saveSettings? s)

def run (args : Arguments) (around : Surroundings) (tree : FileTree) : Report :=
  match args.plan around tree with
  | ⟨.error obstacle, events⟩ => .ofObstacle tree events obstacle
  | ⟨.ok plan, events⟩ =>
    let report := args.carryOut tree plan
    { report with events := events ++ report.events }

def setUp (args : Arguments) : Log.SetUp :=
  { level := args.logLevel.name, file := args.logFile, json := args.logJson
    context := [(.text "app", .text programName)] }

end Arguments

structure Outcome where
  tree : FileTree
  printed : String := ""
  logger : Log.Logger := {}
  records : List Log.Record := []
  ending : Ending := .done

namespace Outcome

/-- Lines go to the end of each log file, unless an output has taken its place. -/
def writeLog (before after : FileTree) (logger : Log.Logger) (process : Nat)
    (records : List Log.Record) : FileTree :=
  logger.handlers.foldl (fun tree handler =>
    match handler with
    | .file place json =>
      if before.get? place = tree.get? place then
        let text := String.join ((logger.linesOf json process records).map (· ++ "\n"))
        ((tree.append (.ofPlace place) (Text.utf8 text.toList)).toOption).getD tree
      else tree
    | _ => tree) after

def ofArguments (around : Surroundings) (tree : FileTree) (args : Arguments) : Outcome :=
  match Log.Logger.setUp {} tree args.setUp with
  | (tree, logger, .error fault) => { tree, logger, ending := .broken (.setUp fault) }
  | (opened, logger, .ok _) =>
    let report := args.run around opened
    let records := report.events.map (·.record around.time)
    { tree := writeLog opened report.tree logger around.process records
      printed := report.printed, logger, records, ending := report.ending }

def complaints (outcome : Outcome) (process : Nat) : List String :=
  outcome.logger.linesOf false process outcome.records ++
    match outcome.ending with
    | .usage fault => [programName ++ ": error: " ++ fault.message]
    | .broken fault => [programName ++ ": " ++ fault.message]
    | _ => []

end Outcome

def helpLine (switch : Switch) : String :=
  let spellings := String.intercalate ", " switch.spellings
  let choices := (switch.choices?.map fun names => " (" ++ String.intercalate ", " names ++ ")").getD ""
  "  " ++ Text.leftAligned 22 spellings ++ " " ++ switch.purpose ++ choices ++ "\n"

def helpText : String :=
  "usage: " ++ programName ++ " [options]\n\nGenerate a Therion layout and thconfig from settings\n\n" ++
    String.join (Switch.all.map helpLine)

def run (around : Surroundings) (tree : FileTree) (words : List String) : Outcome :=
  match Arguments.parse words with
  | .error fault => { tree, ending := .usage fault }
  | .ok .help => { tree, printed := helpText }
  | .ok (.run args) => .ofArguments around tree args

end CaveMap.CommandLine
