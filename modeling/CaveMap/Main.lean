import CaveMap.CommandLine.Places
import CaveMap.CommandLine.Run
import Std.Time.DateTime.Timestamp

open CaveMap

def textOf (place : List String) : String := (Path.ofPlace place).text

def entryAt (place : List String) : IO (Option FileEntry) := do
  let path := (← IO.currentDir) / textOf place
  if ← path.isDir then return some .directory
  try return some (.file (← IO.FS.readBinFile path).toList)
  catch _ => return none

def lookAt (tree : FileTree) (places : List (List String)) : IO FileTree :=
  places.foldlM (fun tree place => do
    if (tree.get? place).isSome then return tree
    match ← entryAt place with
    | some entry => return tree.set place entry
    | none => return tree) tree

/-- Directories first; each file takes its place in one step. -/
def writeBack (before after : FileTree) : IO Unit := do
  let changed := after.entries.filter fun (place, entry) => before.get? place ≠ some entry
  for (place, entry) in changed do
    if entry = .directory then IO.FS.createDirAll (textOf place)
  for (place, entry) in changed do
    if let .file bytes := entry then
      let temporary := textOf place ++ FileTree.temporarySuffix
      IO.FS.writeBinFile temporary (ByteArray.mk bytes.toArray)
      IO.FS.rename temporary (textOf place)

def processNumber : IO Nat := do
  try
    let stat ← IO.FS.readFile "/proc/self/stat"
    return ((stat.splitOn " ").head?.bind String.toNat?).getD 0
  catch _ => return 0

def main (words : List String) : IO UInt32 := do
  let now := (← Std.Time.Timestamp.now).toNanosecondsSinceUnixEpoch.val
  let around : CommandLine.Surroundings :=
    { time := .ofRatio (now < 0) now.natAbs 1000000000, process := ← processNumber
      shippedName := "defaults.yaml", ids := fun n => Text.integerText (now + n) }
  let empty : FileTree := { entries := [], working := Path.namesOf (← IO.currentDir).toString }
  let named ← lookAt empty (CommandLine.waysTo empty.working ++ CommandLine.places empty words)
  let tree ← lookAt named (CommandLine.places named words)
  let outcome := CommandLine.run around tree words
  writeBack tree outcome.tree
  IO.print outcome.printed
  for line in outcome.complaints around.process do
    IO.eprintln line
  return outcome.ending.exitCode.toUInt32
