import CaveMap.Text.Quoted
import CaveMap.Text.Split
import CaveMap.Upload

namespace CaveMap

structure Path where
  /-- Leading slashes: none for a relative path, one or exactly two for an absolute one. -/
  slashes : Nat
  names : List String
  deriving DecidableEq

namespace Path

def namesOf (text : String) : List String :=
  ((Text.pieces (· = '/') text.toList).map String.ofList).filter (· ≠ ".")

def ofString (text : String) : Path :=
  let leading := (text.toList.takeWhile (· = '/')).length
  ⟨if leading ≤ 2 then leading else 1, namesOf text⟩

def isAbsolute (p : Path) : Bool := p.slashes ≠ 0

def text (p : Path) : String :=
  let joined := String.intercalate "/" p.names
  if p.slashes = 0 ∧ p.names = [] then "."
  else String.ofList (List.replicate p.slashes '/') ++ joined

def join (p q : Path) : Path := if q.isAbsolute then q else ⟨p.slashes, p.names ++ q.names⟩

/-- The last component; empty where there is none. -/
def name (p : Path) : String := (p.names.getLast?).getD ""

def parent (p : Path) : Path := ⟨p.slashes, p.names.dropLast⟩

/-- The last point of the name and what follows it; empty where the point is at either end. -/
def suffix (p : Path) : String := String.ofList (FileKind.suffix p.name.toList)

inductive SuffixFault
  | noName (path : Path)
  | badSuffix (suffix : String)

def SuffixFault.message : SuffixFault → String
  | noName path => "PosixPath(" ++ Text.quote path.text ++ ") has an empty name"
  | badSuffix suffix => "Invalid suffix " ++ Text.quote suffix

/-- A suffix is empty, or a point and at least one more character, no slash among them. -/
def isSuffix (suffix : String) : Bool :=
  match suffix.toList with
  | [] => true
  | ['.'] => false
  | '.' :: rest => !rest.contains '/'
  | _ => false

def withSuffix (p : Path) (suffix : String) : Except SuffixFault Path :=
  if !isSuffix suffix then throw (.badSuffix suffix)
  else if p.name.isEmpty then throw (.noName p)
  else
    let stem := p.name.toList.take (p.name.length - p.suffix.length)
    return ⟨p.slashes, p.names.dropLast ++ [String.ofList stem ++ suffix]⟩

/-- Takes two points as a step back. -/
def stepBack (names : List String) : List String :=
  names.foldl (fun seen name => if name = ".." then seen.dropLast else seen ++ [name]) []

/-- The place a path names, seen from a working directory. -/
def place (directory : List String) (p : Path) : List String :=
  stepBack (if p.isAbsolute then p.names else directory ++ p.names)

def ofPlace (names : List String) : Path := ⟨1, names⟩

/-- The way from one place to another: up to where they part, and down again. -/
def between : (base target : List String) → Path
  | b :: base, t :: target =>
    if b = t then between base target
    else ⟨0, List.replicate (base.length + 1) ".." ++ t :: target⟩
  | base, target => ⟨0, List.replicate base.length ".." ++ target⟩

end Path

end CaveMap
