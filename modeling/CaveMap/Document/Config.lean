import CaveMap.Document.Layout

namespace CaveMap

namespace Config

def fallbackSource : String := "main.th"

def mapOutput : String := "map.pdf"

def modelOutput : String := "model.lox"

inductive Fault
  /-- An export kind that cannot be looked up. -/
  | notAKey (kind : Value)
  | longInteger

def Fault.message : Fault → String
  | notAKey kind => "unhashable type: '" ++ kind.kindName ++ "'"
  | longInteger => Text.longIntegerMessage

def mapTask (s : Settings) : String :=
  "export map -layout " ++ Layout.name ++ " -layout " ++ s.paperSize.layoutName ++ " -o " ++ mapOutput

def modelTask : String := "export model -o " ++ modelOutput

def task? (s : Settings) : Value → Option String
  | .text "map" => some (mapTask s)
  | .text "model" => some modelTask
  | _ => none

/-- One line for each requested export that has a template; the others are reported and left out. -/
def tasks (s : Settings) : List Value → Logged Fault (List String)
  | [] => return []
  | kind :: rest =>
    if kind.isKey then
      match task? s kind with
      | some task => do return task :: (← tasks s rest)
      | none => do
        Logged.record (.exportSkipped kind)
        tasks s rest
    else Logged.fail (.notAKey kind)

def sources (s : Settings) : List String :=
  let names := s.sourceFiles.map (·.fileName)
  if names.isEmpty then [fallbackSource] else names

def render (s : Settings) (select layoutName : String) (tasks : List String) : String :=
  let tasks := if tasks.isEmpty then [] else [String.intercalate "\n" tasks]
  String.intercalate "\n\n"
    (["encoding utf-8",
      String.intercalate "\n" ((sources s).map ("source " ++ ·)),
      "select " ++ select,
      "input " ++ layoutName] ++ tasks) ++ "\n"

def generate (s : Settings) (layoutName : String) : Logged Fault String := do
  match s.selectName.shown? with
  | none => Logged.fail .longInteger
  | some select => return render s select layoutName (← tasks s s.exportTypes)

end Config

end CaveMap
