import CaveMap.Files.Access
import CaveMap.Yaml.Dump
import CaveMap.Yaml.Load

namespace CaveMap

namespace Yaml

inductive FileFault
  | missing (path : Path)
  | system (fault : CaveMap.FileFault)
  /-- Bytes that are no text. -/
  | encoding
  | document (fault : Fault)

def FileFault.message : FileFault → String
  | missing path => "YAML file not found: " ++ path.text
  | system fault => fault.reason
  | encoding => "invalid UTF-8"
  | document fault => fault.message

end Yaml

namespace FileTree

def readYaml (tree : FileTree) (p : Path) : Except Yaml.FileFault Value := do
  if !(← (tree.exists? p).mapError .system) then throw (.missing p)
  let bytes ← (tree.read p).mapError .system
  match Text.ofUtf8? bytes with
  | none => throw .encoding
  | some text => (Yaml.load (Text.unifyNewlines text.toList)).mapError .document

def writeYaml (tree : FileTree) (p : Path) (value : Value) : FileTree × Except WriteFault Unit :=
  if value.isWritable then tree.writeText p (Yaml.dump value) else (tree, .error .longInteger)

end FileTree

end CaveMap
