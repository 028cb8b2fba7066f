import CaveMap.Path

namespace CaveMap

inductive FileEntry
  | file (bytes : List UInt8)
  | directory
  deriving DecidableEq

structure FileTree where
  entries : List (List String × FileEntry)
  /-- The place where relative paths start. -/
  working : List String

inductive FileFault
  | noEntry
  | notDirectory
  | isDirectory
  | alreadyThere
  | nameTooLong
  | busy
  | nullCharacter
  deriving DecidableEq

namespace FileFault

def number : FileFault → Nat
  | noEntry => 2
  | busy => 16
  | alreadyThere => 17
  | notDirectory => 20
  | isDirectory => 21
  | nameTooLong => 36
  | nullCharacter => 22

def reason : FileFault → String
  | noEntry => "No such file or directory"
  | busy => "Device or resource busy"
  | alreadyThere => "File exists"
  | notDirectory => "Not a directory"
  | isDirectory => "Is a directory"
  | nameTooLong => "File name too long"
  | nullCharacter => "embedded null byte"

def message (fault : FileFault) (paths : List Path) : String :=
  match fault with
  | nullCharacter => nullCharacter.reason
  | fault =>
    "[Errno " ++ Text.decimalText fault.number ++ "] " ++ fault.reason ++ ": " ++
      String.intercalate " -> " (paths.map fun p => Text.quote p.text)

end FileFault

namespace FileTree

/-- In bytes. -/
def maxName : Nat := 255

/-- In bytes. -/
def maxPath : Nat := 4095

def get? (tree : FileTree) : List String → Option FileEntry
  | [] => some .directory
  | place => tree.entries.lookup place

def set (tree : FileTree) (place : List String) (entry : FileEntry) : FileTree :=
  { tree with entries := (place, entry) :: tree.entries.filter (·.1 ≠ place) }

def erase (tree : FileTree) (place : List String) : FileTree :=
  { tree with entries := tree.entries.filter (·.1 ≠ place) }

/-- One step on the way: two points lead back to where the directory lies. -/
def step (tree : FileTree) (place : List String) (name : String) : Except FileFault (List String) :=
  match tree.get? place with
  | none => throw .noEntry
  | some (.file _) => throw .notDirectory
  | some .directory =>
    if name = ".." then return place.dropLast
    else if maxName < name.utf8ByteSize then throw .nameTooLong
    else return place ++ [name]

/-- The place a path leads to, whether or not there is anything at it. -/
def locate (tree : FileTree) (p : Path) : Except FileFault (List String) :=
  if p.names.any (·.toList.contains '\x00') then throw .nullCharacter
  else if maxPath < p.text.utf8ByteSize then throw .nameTooLong
  else p.names.foldlM tree.step (if p.isAbsolute then [] else tree.working)

def exists? (tree : FileTree) (p : Path) : Except FileFault Bool :=
  match tree.locate p with
  | .ok place => return (tree.get? place).isSome
  | .error .nameTooLong => throw .nameTooLong
  | .error _ => return false

def isDirectory (tree : FileTree) (p : Path) : Bool :=
  match tree.locate p with
  | .ok place => tree.get? place = some .directory
  | .error _ => false

def read (tree : FileTree) (p : Path) : Except FileFault (List UInt8) := do
  match tree.get? (← tree.locate p) with
  | none => throw .noEntry
  | some .directory => throw .isDirectory
  | some (.file bytes) => return bytes

def write (tree : FileTree) (p : Path) (bytes : List UInt8) : Except FileFault FileTree := do
  let place ← tree.locate p
  match tree.get? place with
  | some .directory => throw .isDirectory
  | _ => return tree.set place (.file bytes)

def append (tree : FileTree) (p : Path) (bytes : List UInt8) : Except FileFault FileTree := do
  let place ← tree.locate p
  match tree.get? place with
  | some .directory => throw .isDirectory
  | some (.file old) => return tree.set place (.file (old ++ bytes))
  | none => return tree.set place (.file bytes)

def unlink (tree : FileTree) (p : Path) : Except FileFault FileTree := do
  let place ← tree.locate p
  match tree.get? place with
  | none => throw .noEntry
  | some .directory => throw .isDirectory
  | some (.file _) => return tree.erase place

def rename (tree : FileTree) (source target : Path) : Except FileFault FileTree := do
  let origin ← tree.locate source
  let place ← tree.locate target
  if source.name = ".." ∨ target.name = ".." then throw .busy
  match tree.get? origin, tree.get? place with
  | none, _ => throw .noEntry
  | some _, some .directory => throw .isDirectory
  | some entry, _ => return (tree.erase origin).set place entry

def makeDirectory (tree : FileTree) (p : Path) : Except FileFault FileTree := do
  let place ← tree.locate p
  match tree.get? place with
  | some _ => throw .alreadyThere
  | none => return tree.set place .directory

def ensureDirectory (tree : FileTree) (p : Path) : Except FileFault FileTree :=
  match tree.makeDirectory p with
  | .ok tree => return tree
  | .error .nullCharacter => throw .nullCharacter
  | .error .noEntry => throw .noEntry
  | .error fault => if tree.isDirectory p then return tree else throw fault

def ensureWay (slashes : Nat) (tree : FileTree) : List String → FileTree × Except FileFault Unit
  | [] =>
    match tree.ensureDirectory ⟨slashes, []⟩ with
    | .ok tree => (tree, .ok ())
    | .error fault => (tree, .error fault)
  | name :: up =>
    let whole : Path := ⟨slashes, (name :: up).reverse⟩
    match tree.ensureDirectory whole with
    | .ok tree => (tree, .ok ())
    | .error .noEntry =>
      match ensureWay slashes tree up with
      | (tree, .error fault) => (tree, .error fault)
      | (tree, .ok ()) =>
        match tree.ensureDirectory whole with
        | .ok tree => (tree, .ok ())
        | .error fault => (tree, .error fault)
    | .error fault => (tree, .error fault)

/-- Makes a directory and those it lies in. What was made before a failure stays. -/
def makeDirectories (tree : FileTree) (p : Path) : FileTree × Except FileFault Unit :=
  tree.ensureWay p.slashes p.names.reverse

end FileTree

end CaveMap
