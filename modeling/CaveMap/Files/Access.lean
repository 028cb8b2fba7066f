import CaveMap.Files.Tree
import CaveMap.Text.Encoding

namespace CaveMap

inductive ReadFault
  | missing (path : Path)
  | unknownEncoding (name : String)
  | undecodable
  | system (fault : FileFault)

def ReadFault.message : ReadFault → String
  | missing path => "File not found: " ++ path.text
  | unknownEncoding name => "unknown encoding: " ++ name
  | undecodable => "no byte order mark"
  | system fault => fault.reason

inductive WriteFault
  | unsuitable (fault : Path.SuffixFault)
  | failed (path : Path) (fault : FileFault) (involved : List Path)
  | system (fault : FileFault)
  | longInteger

def WriteFault.message : WriteFault → String
  | unsuitable fault => fault.message
  | failed path fault involved =>
    "Failed to write " ++ path.text ++ " atomically: " ++ fault.message involved
  | system fault => fault.reason
  | longInteger => Text.longIntegerMessage

namespace FileTree

def readText (tree : FileTree) (p : Path) (encoding : String) : Except ReadFault String := do
  if !(← (tree.exists? p).mapError .system) then throw (.missing p)
  let bytes ← (tree.read p).mapError .system
  match Text.Encoding.ofName? encoding with
  | none => throw (.unknownEncoding encoding)
  | some encoding =>
    match encoding.decode? bytes with
    | none => throw .undecodable
    | some text => return String.ofList (Text.unifyNewlines text)

def temporarySuffix : String := ".tmp"

def cleanUp (tree : FileTree) (temporary : Path) (fault : WriteFault) :
    FileTree × Except WriteFault Unit :=
  match tree.exists? temporary with
  | .error other => (tree, .error (.system other))
  | .ok false => (tree, .error fault)
  | .ok true =>
    match tree.unlink temporary with
    | .ok tree => (tree, .error fault)
    | .error other => (tree, .error (.system other))

def replace (tree : FileTree) (p temporary : Path) (bytes : List UInt8) :
    FileTree × Except WriteFault Unit :=
  match tree.write temporary bytes with
  | .error fault => tree.cleanUp temporary (.failed p fault [temporary])
  | .ok written =>
    match written.rename temporary p with
    | .error fault => written.cleanUp temporary (.failed p fault [temporary, p])
    | .ok done => (done, .ok ())

/-- Writes a file whole or not at all, with the directories on the way to it. -/
def writeAtomically (tree : FileTree) (p : Path) (bytes : List UInt8) (tmpSuffix : String := temporarySuffix) :
    FileTree × Except WriteFault Unit :=
  match tree.makeDirectories p.parent with
  | (tree, .error fault) => (tree, .error (.system fault))
  | (tree, .ok ()) =>
    match p.withSuffix (p.suffix ++ tmpSuffix) with
    | .error fault => (tree, .error (.unsuitable fault))
    | .ok temporary => tree.replace p temporary bytes

def writeText (tree : FileTree) (p : Path) (text : String) : FileTree × Except WriteFault Unit :=
  tree.writeAtomically p (Text.utf8 text.toList)

end FileTree

end CaveMap
