import CaveMap.Yaml.Implicit
import CaveMap.Yaml.Token

namespace CaveMap.Yaml

inductive Node
  | scalar (tag text : String)
  | sequence (tag : String) (items : List Node)
  | mapping (tag : String) (entries : List (Node × Node))

/-- What is left to read, and what has been declared so far. While a collection is being read, its anchor
stands for nothing yet. -/
structure Composer where
  tokens : List Token
  /-- Why the tokens end early, if they do. -/
  fault : Option Fault
  handles : List (String × String)
  anchors : List (String × Option Node)

abbrev Compose := StateT Composer (Except Fault)

namespace Compose

def malformed {α : Type} : Compose α := throw .malformed

def peek : Compose (Option Token) := do
  let c ← get
  match c.tokens, c.fault with
  | token :: _, _ => return some token
  | [], some fault => throw fault
  | [], none => return none

def drop : Compose Unit := modify fun c => { c with tokens := c.tokens.drop 1 }

def accept (token : Token) : Compose Bool := do
  if (← peek) = some token then
    drop
    return true
  else return false

def nextIs (tokens : List Token) : Compose Bool := do
  return ((← peek).any tokens.contains)

def standardHandles : List (String × String) := [("!", "!"), ("!!", Tag.core)]

def addHandle (handle uri : String) : Compose Unit := do
  if ((← get).handles.any (·.1 = handle)) then malformed
  else modify fun c => { c with handles := (handle, uri) :: c.handles }

def directives : (fuel : Nat) → (versioned : Bool) → Compose Unit
  | 0, _ => return ()
  | fuel + 1, versioned => do
    match ← peek with
    | some (.directive (.version major)) =>
      if versioned || major ≠ 1 then malformed
      else
        drop
        directives fuel true
    | some (.directive (.tag handle uri)) =>
      drop
      addHandle handle uri
      directives fuel versioned
    | some (.directive .other) =>
      drop
      directives fuel versioned
    | _ => return ()

def wholeTag (handle : Option String) (name : String) : Compose String := do
  match handle with
  | none => return name
  | some handle =>
    match ((← get).handles ++ standardHandles).lookup handle with
    | some uri => return uri ++ name
    | none => malformed

def properties : Compose (Option String × Option String) := do
  match ← peek with
  | some (.anchor anchor) =>
    drop
    match ← peek with
    | some (.tag handle name) =>
      drop
      return (some anchor, some (← wholeTag handle name))
    | _ => return (some anchor, none)
  | some (.tag handle name) =>
    drop
    match ← peek with
    | some (.anchor anchor) =>
      drop
      return (some anchor, some (← wholeTag handle name))
    | _ => return (none, some (← wholeTag handle name))
  | _ => return (none, none)

def declare (anchor : Option String) (node : Option Node) : Compose Unit :=
  match anchor with
  | none => return ()
  | some name => modify fun c => { c with anchors := (name, node) :: c.anchors }

def isFree (anchor : Option String) : Compose Bool := do
  let anchors := (← get).anchors
  return !(anchor.any fun name => anchors.any (·.1 = name))

def tagOr (tag : Option String) (default : String) : String :=
  match tag with
  | none => default
  | some "!" => default
  | some tag => tag

def emptyNode : Node := .scalar (Implicit.tagOf "") ""

def separated (first : Bool) : Compose Bool := if first then return true else accept .flowEntry

def aliased (name : String) : Compose Node := do
  match (← get).anchors.lookup name with
  | none => malformed
  | some none => throw .cyclic
  | some (some node) => return node

mutual

/-- A node. Block collections may stand only where `block` says so, and a sequence without indentation of
its own only as part of a mapping. -/
def node (block indentless : Bool) : (fuel : Nat) → Compose Node
  | 0 => malformed
  | fuel + 1 => do
    match ← peek with
    | some (.alias name) =>
      drop
      aliased name
    | _ =>
      let (anchor, tag) ← properties
      let next ← peek
      if !(← isFree anchor) then malformed
      else
        match next with
        | some (.scalar text plain) =>
          drop
          let default := if plain || tag = some "!" then Implicit.tagOf text else Tag.text
          let node := Node.scalar (tagOr tag default) text
          declare anchor (some node)
          return node
        | _ =>
          let sequence (items : Compose (List Node)) : Compose Node := do
            declare anchor none
            let node := Node.sequence (tagOr tag Tag.sequence) (← items)
            declare anchor (some node)
            return node
          let mapping (entries : Compose (List (Node × Node))) : Compose Node := do
            declare anchor none
            let node := Node.mapping (tagOr tag Tag.mapping) (← entries)
            declare anchor (some node)
            return node
          if indentless && next = some .blockEntry then sequence (indentlessItems fuel)
          else if next = some .flowSequenceStart then
            drop
            sequence (flowItems true fuel)
          else if next = some .flowMappingStart then
            drop
            mapping (flowEntries true fuel)
          else if block && next = some .blockSequenceStart then
            drop
            sequence (blockItems fuel)
          else if block && next = some .blockMappingStart then
            drop
            mapping (blockEntries fuel)
          else if anchor.isSome || tag.isSome then
            let node := Node.scalar (tagOr tag (Implicit.tagOf "")) ""
            declare anchor (some node)
            return node
          else malformed

def nodeUnless (ends : List Token) (block indentless : Bool) : (fuel : Nat) → Compose Node
  | 0 => malformed
  | fuel + 1 => do
    if ← nextIs ends then return emptyNode else node block indentless fuel

def blockItems : (fuel : Nat) → Compose (List Node)
  | 0 => malformed
  | fuel + 1 => do
    if ← accept .blockEntry then
      let item ← nodeUnless [.blockEntry, .blockEnd] true false fuel
      return item :: (← blockItems fuel)
    else if ← accept .blockEnd then return []
    else malformed

def indentlessItems : (fuel : Nat) → Compose (List Node)
  | 0 => malformed
  | fuel + 1 => do
    if ← accept .blockEntry then
      let item ← nodeUnless [.blockEntry, .key, .value, .blockEnd] true false fuel
      return item :: (← indentlessItems fuel)
    else return []

def valueUnless (ends : List Token) (block indentless : Bool) : (fuel : Nat) → Compose Node
  | 0 => malformed
  | fuel + 1 => do
    if ← accept .value then nodeUnless ends block indentless fuel else return emptyNode

def blockEntries : (fuel : Nat) → Compose (List (Node × Node))
  | 0 => malformed
  | fuel + 1 => do
    if ← accept .key then
      let ends : List Token := [.key, .value, .blockEnd]
      let key ← nodeUnless ends true true fuel
      let value ← valueUnless ends true true fuel
      return (key, value) :: (← blockEntries fuel)
    else if ← accept .blockEnd then return []
    else malformed

/-- Items of a flow sequence; a key makes a mapping of one entry. -/
def flowItems (first : Bool) : (fuel : Nat) → Compose (List Node)
  | 0 => malformed
  | fuel + 1 => do
    if ← accept .flowSequenceEnd then return []
    else if !(← separated first) then malformed
    else if ← accept .flowSequenceEnd then return []
    else if ← accept .key then
      let ends : List Token := [.flowEntry, .flowSequenceEnd]
      let key ← nodeUnless (.value :: ends) false false fuel
      let value ← valueUnless ends false false fuel
      return .mapping Tag.mapping [(key, value)] :: (← flowItems false fuel)
    else
      let item ← node false false fuel
      return item :: (← flowItems false fuel)

def flowEntries (first : Bool) : (fuel : Nat) → Compose (List (Node × Node))
  | 0 => malformed
  | fuel + 1 => do
    if ← accept .flowMappingEnd then return []
    else if !(← separated first) then malformed
    else if ← accept .flowMappingEnd then return []
    else if ← accept .key then
      let ends : List Token := [.flowEntry, .flowMappingEnd]
      let key ← nodeUnless (.value :: ends) false false fuel
      let value ← valueUnless ends false false fuel
      return (key, value) :: (← flowEntries false fuel)
    else
      let key ← node false false fuel
      return (key, emptyNode) :: (← flowEntries false fuel)

end

def dropEnds : (fuel : Nat) → Compose Unit
  | 0 => return ()
  | fuel + 1 => do
    if ← accept .documentEnd then dropEnds fuel else return ()

def content (fuel : Nat) : Compose Node := do
  match ← peek with
  | none => return emptyNode
  | some (.directive _) => return emptyNode
  | some .documentStart => return emptyNode
  | some .documentEnd => return emptyNode
  | _ => node true false fuel

def explicitDocument (fuel : Nat) : Compose Node := do
  directives fuel false
  if ← accept .documentStart then content fuel else malformed

def single (fuel : Nat) : Compose (Option Node) := do
  match ← peek with
  | none => return none
  | some token =>
    let opens :=
      match token with
      | .directive _ | .documentStart => true
      | _ => false
    let document ← if opens then explicitDocument fuel else node true false fuel
    dropEnds fuel
    match ← peek with
    | none => return some document
    | some _ => malformed

end Compose

/-- The node of a text; a text without any contents has none. -/
def Node.read (text : List Char) : Except Fault (Option Node) := do
  if text.all isAllowed then
    let (tokens, fault) := Token.scan text
    let composer : Composer := { tokens, fault, handles := [], anchors := [] }
    return ((← (Compose.single (4 * tokens.length + 8)).run composer).1)
  else throw .malformed

end CaveMap.Yaml
