import CaveMap.Log.Event
import CaveMap.Theme

namespace CaveMap.CommandLine

def programName : String := "therion-layout"

inductive Switch
  | help | settings | source | theme | printMode | paper | exportKind | enableModule | outDir | layoutName
  | configName | dryRun | saveSettings | listModules | listThemes | logLevel | logFile | logJson
  deriving DecidableEq

namespace Switch

def all : List Switch :=
  [help, settings, source, theme, printMode, paper, exportKind, enableModule, outDir, layoutName, configName,
   dryRun, saveSettings, listModules, listThemes, logLevel, logFile, logJson]

def spellings : Switch → List String
  | help => ["-h", "--help"]
  | settings => ["--settings", "-c"]
  | source => ["--source", "-s"]
  | theme => ["--theme"]
  | printMode => ["--print-mode"]
  | paper => ["--paper"]
  | exportKind => ["--export"]
  | enableModule => ["--enable-module"]
  | outDir => ["--out-dir", "-o"]
  | layoutName => ["--layout-name"]
  | configName => ["--config-name"]
  | dryRun => ["--dry-run"]
  | saveSettings => ["--save-settings"]
  | listModules => ["--list-modules"]
  | listThemes => ["--list-themes"]
  | logLevel => ["--log-level"]
  | logFile => ["--log-file"]
  | logJson => ["--log-json"]

def name (switch : Switch) : String := String.intercalate "/" switch.spellings

def takesArgument : Switch → Bool
  | help | printMode | dryRun | listModules | listThemes | logJson => false
  | _ => true

def logLevels : List Log.Level := [.debug, .info, .warning, .error]

/-- The arguments that a switch can have, if not every text will do. -/
def choices? : Switch → Option (List String)
  | theme => some (Theme.all.map (·.id))
  | paper => some (PaperSize.all.map (·.name))
  | exportKind => some ExportKind.all
  | logLevel => some (logLevels.map (·.name))
  | _ => none

def purpose : Switch → String
  | help => "Show this help and exit"
  | settings => "Settings YAML file (default: shipped defaults)"
  | source => "Survey file to add (.th source, .th2 drawing); repeatable"
  | theme => "Apply a color theme"
  | printMode => "Force a neutral background for printing"
  | paper => "Paper size override"
  | exportKind => "Export task; repeatable, replaces the configured list"
  | enableModule => "Enable a MetaPost module by id; repeatable"
  | outDir => "Output directory (default: current directory)"
  | layoutName => "Layout file name (default: layout.thl)"
  | configName => "Config file name (default: thconfig)"
  | dryRun => "Print both documents instead of writing them"
  | saveSettings => "Also write the effective settings to a YAML file"
  | listModules => "List available MetaPost modules and exit"
  | listThemes => "List color themes and exit"
  | logLevel => "Logging level"
  | logFile => "Also write log records to this file"
  | logJson => "Write the log file as JSON lines"

/-- All spellings, in the order in which switches are listed. -/
def table : List (String × Switch) := all.flatMap fun switch => switch.spellings.map (·, switch)

def ofSpelling? (spelling : String) : Option Switch := table.lookup spelling

end Switch

inductive UsageFault
  | ambiguous (word : String) (spellings : List String)
  | noArgument (switch : Switch)
  | unwantedArgument (switch : Switch) (argument : String)
  | badChoice (switch : Switch) (argument : String)
  | unrecognized (words : List String)
  deriving DecidableEq

def UsageFault.message : UsageFault → String
  | ambiguous word spellings =>
    "ambiguous option: " ++ word ++ " could match " ++ String.intercalate ", " spellings
  | noArgument switch => "argument " ++ switch.name ++ ": expected one argument"
  | unwantedArgument switch argument =>
    "argument " ++ switch.name ++ ": ignored explicit argument " ++ Text.quote argument
  | badChoice switch argument =>
    "argument " ++ switch.name ++ ": invalid choice: " ++ Text.quote argument ++ " (choose from " ++
      String.intercalate ", " ((switch.choices?.getD []).map Text.quote) ++ ")"
  | unrecognized words => "unrecognized arguments: " ++ String.intercalate " " words

/-- What a word of the command line is, looked at by itself. -/
inductive Word
  | plain
  /-- A switch and an argument in the same word, or what may be more switches instead. -/
  | spelled (switch : Switch) (bundled : Bool) (attached : Option (List Char))
  /-- Looks like a switch. -/
  | unknown

namespace Word

def isNegativeNumber (cs : List Char) : Bool :=
  let isDigit (c : Char) : Bool := (Text.decimalDigit? c).isSome
  match if cs.getLast? = some '\n' then cs.dropLast else cs with
  | '-' :: rest =>
    match rest.dropWhile isDigit with
    | [] => !rest.isEmpty
    | '.' :: fraction => !fraction.isEmpty && fraction.all isDigit
    | _ => false
  | _ => false

def splitAtEquals (cs : List Char) : List Char × Option (List Char) :=
  match cs.dropWhile (· ≠ '=') with
  | _ :: rest => (cs.takeWhile (· ≠ '='), some rest)
  | [] => (cs, none)

/-- The switches that a word may stand for: a long spelling may be cut short; a short one may go on with
an argument. -/
def candidates (cs : List Char) : List (String × Word) :=
  match cs with
  | '-' :: '-' :: _ =>
    let (start, attached) := splitAtEquals cs
    (Switch.table.filter fun (spelling, _) => start.isPrefixOf spelling.toList).map
      fun (spelling, switch) => (spelling, .spelled switch false attached)
  | _ =>
    Switch.table.filterMap fun (spelling, switch) =>
      if spelling.toList = cs.take 2 then some (spelling, .spelled switch true (some (cs.drop 2)))
      else if cs.isPrefixOf spelling.toList then some (spelling, .spelled switch false none)
      else none

def spelled? (spelling : List Char) (attached : Option (List Char)) : Option Word :=
  (Switch.ofSpelling? (String.ofList spelling)).map fun switch => .spelled switch false attached

def ofText (text : String) : Except UsageFault Word :=
  let cs := text.toList
  if cs.head? ≠ some '-' ∨ cs.length = 1 then return plain
  else
    let (start, attached) := splitAtEquals cs
    match (spelled? cs none).or (if attached.isSome then spelled? start attached else none) with
    | some word => return word
    | none =>
      match candidates cs with
      | [(_, word)] => return word
      | [] => return if isNegativeNumber cs || cs.contains ' ' then plain else unknown
      | several => throw (.ambiguous text (several.map (·.1)))

end Word

end CaveMap.CommandLine
