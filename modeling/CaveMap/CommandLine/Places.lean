import CaveMap.CommandLine.Plan

namespace CaveMap.CommandLine

def written (p : Path) : List Path :=
  p :: ((p.withSuffix (p.suffix ++ FileTree.temporarySuffix)).toOption).toList

def listedSources (tree : FileTree) (settings : Path) : List Path :=
  match tree.readYaml settings with
  | .error _ => []
  | .ok value =>
    match SettingsFile.checkDocument value with
    | .error _ => []
    | .ok draft => draft.sources.map fun source => settings.parent.join (.ofString source)

namespace Arguments

def paths (args : Arguments) (tree : FileTree) : List Path :=
  args.settings.toList ++ (args.settings.map (listedSources tree)).getD [] ++ args.sources ++
    written (args.outDir.join (.ofString args.layoutName)) ++
    written (args.outDir.join (.ofString args.configName)) ++
    (args.saveSettings.map written).getD [] ++ args.logFile.toList

end Arguments

/-- All places on the way to a place, the nearest to the root first. -/
def waysTo (place : List String) : List (List String) :=
  (List.range place.length).map fun n => place.take (n + 1)

/-- The settings file has to be in the tree for the sources that it lists to be among the places. -/
def places (tree : FileTree) (words : List String) : List (List String) :=
  match Arguments.parse words with
  | .ok (.run args) => (args.paths tree).flatMap fun p => waysTo (p.place tree.working)
  | _ => []

end CaveMap.CommandLine
