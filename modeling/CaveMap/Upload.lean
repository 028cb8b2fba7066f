import CaveMap.Text.Letter
import CaveMap.Text.Split

namespace CaveMap

inductive FileKind
  | source
  | drawing
  | config
  | text
  | other
  /-- A kind of the caller's own, which no file is recognized as. -/
  | named (name : String)
  deriving DecidableEq

namespace FileKind

def name : FileKind → String
  | source => "source"
  | drawing => "drawing"
  | config => "config"
  | text => "text"
  | other => "other"
  | named n => n

def all : List FileKind := [source, drawing, config, text, other]

def ofName (n : String) : FileKind := (all.find? (·.name = n)).getD (named n)

/-- What follows the last point of a name, with the point; a point at either end does not count. -/
def suffix (fileName : List Char) : List Char :=
  let tail := fileName.reverse.takeWhile (· ≠ '.')
  if tail.isEmpty ∨ fileName.length ≤ tail.length + 1 then [] else '.' :: tail.reverse

def ofSuffix (s : List Char) : FileKind :=
  if s = ".th".toList then source
  else if s = ".th2".toList then drawing
  else if s = ".thconfig".toList then config
  else if s = ".txt".toList then text
  else other

/-- The last component of a path that is neither empty nor a single point. -/
def lastComponent (path : List Char) : List Char :=
  (((Text.pieces (· = '/') path).filter (· ≠ ['.'])).getLast?).getD []

def ofFileName (path : String) : FileKind :=
  let base := Text.lower (lastComponent path.toList)
  if base = "thconfig".toList then config else ofSuffix (suffix base)

end FileKind

structure Upload where
  id : String
  fileName : String
  kind : FileKind
  content : String := ""
  /-- Where the file was read from, if it was read from disk. -/
  path : Option String := none
  deriving DecidableEq

end CaveMap
