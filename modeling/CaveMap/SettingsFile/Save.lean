import CaveMap.Path
import CaveMap.Settings.Basic

namespace CaveMap

namespace SettingsFile

def version : String := "therion_layout.settings.v1"

def entry (key : String) (value : Value) : Value × Value := (.text key, value)

def optionalText (key : String) : Option String → List (Value × Value)
  | none => []
  | some s => [entry key (.text s)]

def sectionDocument (s : Settings) (part : Section) : Value :=
  .map (part.fields.map fun field => entry field.key (s.get field))

/-- Enabled ids of custom modules are kept with the modules, all others in a list of their own. -/
def modulesDocument (s : Settings) : Value :=
  let isCustom (id : Value) : Bool := s.customModules.any fun m => id.equals (.text m.id)
  .map
    [entry "enabled" (.list (s.enabledModules.filter (!isCustom ·))),
     entry "custom" (.list (s.customModules.map fun m =>
       .map
         [entry "id" (.text m.id),
          entry "name" (.text m.displayName),
          entry "code" (.text m.code),
          entry "description" (.text m.description),
          entry "enabled" (.bool (s.isEnabled m.id))]))]

def symbolDocument (override : SymbolOverride) : Value :=
  .map
    ([entry "category" (.text override.category.name), entry "visible" (.bool override.visible)] ++
      optionalText "color" override.color ++ optionalText "symbol_set" override.symbolSet)

/-- Where the reader of a file in a directory finds an upload: by its way from there if it came from
disk, else by its name. -/
def sourceText (directory : List String) (base : Option Path) (upload : Upload) : String :=
  match upload.path, base with
  | none, _ => upload.fileName
  | some path, none => path
  | some path, some base =>
    if path.isEmpty then path
    else (Path.between (base.place directory) ((Path.ofString path).place directory)).text

/-- The settings as a document for a file in the directory `base`; contents of uploads are not stored. -/
def document (directory : List String) (base : Option Path) (s : Settings) : Value :=
  .map
    ([entry "schema" (.text version)] ++
      Section.all.map (fun part => entry part.key (sectionDocument s part)) ++
      [entry "modules" (modulesDocument s),
       entry "symbols" (.map (s.symbols.entries.map fun (key, o) => entry key (symbolDocument o))),
       entry "sources" (.list
         ((s.uploads.filter fun u => u.kind = .source ∨ u.kind = .drawing).map fun u =>
           .text (sourceText directory base u)))])

end SettingsFile

end CaveMap
