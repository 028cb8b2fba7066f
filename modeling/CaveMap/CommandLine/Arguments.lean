import CaveMap.CommandLine.Switch
import CaveMap.Path

namespace CaveMap.CommandLine

structure Arguments where
  settings : Option Path := none
  sources : List Path := []
  theme : Option Theme := none
  printMode : Bool := false
  paper : Option PaperSize := none
  exports : List String := []
  modules : List String := []
  outDir : Path := .ofString "."
  layoutName : String := "layout.thl"
  configName : String := "thconfig"
  dryRun : Bool := false
  saveSettings : Option Path := none
  listModules : Bool := false
  listThemes : Bool := false
  logLevel : Log.Level := .info
  logFile : Option Path := none
  logJson : Bool := false

inductive Request
  | help
  | run (arguments : Arguments)

namespace Arguments

def optionalPath (text : String) : Option Path := if text.isEmpty then none else some (.ofString text)

/-- Takes in a switch with its argument, which is empty for a switch without one. -/
def assign (args : Arguments) (switch : Switch) (argument : String) : Except UsageFault Arguments :=
  match switch with
  | .help => return args
  | .settings => return { args with settings := some (.ofString argument) }
  | .source => return { args with sources := args.sources ++ [.ofString argument] }
  | .theme =>
    match Theme.ofId? argument with
    | some theme => return { args with theme := some theme }
    | none => throw (.badChoice switch argument)
  | .printMode => return { args with printMode := true }
  | .paper =>
    match PaperSize.ofName? argument with
    | some size => return { args with paper := some size }
    | none => throw (.badChoice switch argument)
  | .exportKind =>
    if ExportKind.all.contains argument then return { args with exports := args.exports ++ [argument] }
    else throw (.badChoice switch argument)
  | .enableModule => return { args with modules := args.modules ++ [argument] }
  | .outDir => return { args with outDir := .ofString argument }
  | .layoutName => return { args with layoutName := argument }
  | .configName => return { args with configName := argument }
  | .dryRun => return { args with dryRun := true }
  | .saveSettings => return { args with saveSettings := optionalPath argument }
  | .listModules => return { args with listModules := true }
  | .listThemes => return { args with listThemes := true }
  | .logLevel =>
    match Switch.logLevels.find? (·.name = argument) with
    | some level => return { args with logLevel := level }
    | none => throw (.badChoice switch argument)
  | .logFile => return { args with logFile := optionalPath argument }
  | .logJson => return { args with logJson := true }

/-- The switches in a word and the argument of the last one, if it is in the word as well. Behind one dash
a switch without argument may be followed by the letter of another. -/
def unpacked (switch : Switch) : List Char → Except UsageFault (List Switch × Option String)
  | [] => return ([switch], none)
  | c :: rest =>
    if switch.takesArgument then return ([switch], some (String.ofList (c :: rest)))
    else if c = '-' then throw (.unwantedArgument switch (String.ofList (c :: rest)))
    else
      match Switch.ofSpelling? (String.ofList ['-', c]) with
      | none => return ([switch], none)
      | some next =>
        if rest.head? = some '=' then
          if next.takesArgument then return ([switch, next], some (String.ofList (rest.drop 1)))
          else throw (.unwantedArgument next (String.ofList (rest.drop 1)))
        else do
          let (switches, argument) ← unpacked next rest
          return (switch :: switches, argument)

def switchesOf (switch : Switch) (bundled : Bool) (attached : Option (List Char)) :
    Except UsageFault (List Switch × Option String) :=
  match attached with
  | none => return ([switch], none)
  | some cs =>
    if switch.takesArgument then return ([switch], some (String.ofList cs))
    else if bundled then unpacked switch cs
    else throw (.unwantedArgument switch (String.ofList cs))

/-- Reads word after word; `extra` holds the words that belong to no switch. A switch without argument in
its own word takes the next word, unless that is a switch itself. -/
def read (args : Arguments) (extra : List String) : List (String × Word) → Except UsageFault Request
  | [] => if extra.isEmpty then return .run args else throw (.unrecognized extra)
  | (text, .plain) :: rest => read args (extra ++ [text]) rest
  | (text, .unknown) :: rest => read args (extra ++ [text]) rest
  | (_, .spelled switch bundled attached) :: rest =>
    match switchesOf switch bundled attached with
    | .error fault => throw fault
    | .ok (switches, argument) =>
      let last := switches.getLastD switch
      if last.takesArgument then
        match argument, rest with
        | some argument, rest =>
          if switches.contains .help then return .help
          else
            match args.assign last argument with
            | .error fault => throw fault
            | .ok args => read args extra rest
        | none, (text, .plain) :: rest =>
          if switches.contains .help then return .help
          else
            match args.assign last text with
            | .error fault => throw fault
            | .ok args => read args extra rest
        | none, _ => throw (.noArgument last)
      else if switches.contains .help then return .help
      else
        match args.assign last "" with
        | .error fault => throw fault
        | .ok args => read args extra rest

/-- Behind two dashes all words are plain. The dashes themselves are no argument. -/
def classified : List String → Except UsageFault (List (String × Word))
  | [] => return []
  | text :: rest =>
    if text = "--" then return (text, .unknown) :: rest.map (·, .plain)
    else do
      let word ← Word.ofText text
      return (text, word) :: (← classified rest)

def parse (words : List String) : Except UsageFault Request := do
  read {} [] (← classified words)

end Arguments

end CaveMap.CommandLine
