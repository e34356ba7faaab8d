import Componentry.Yaml.Tag
import Componentry.Yaml.Token.Stream

/-!
# Nodes of configuration files

The one document of a configuration file as a graph of nodes. A node is one layer: a tag and a text,
or a tag and the positions of other nodes. An alias is the position of the node that has the name,
so nodes may be shared and may contain themselves. Everything that does not follow the grammar is
refused, and so is a second document.
-/

namespace Componentry.Yaml

/-- A node: its children are positions in a graph. -/
inductive Node where
  | scalar (tag : Tag) (text : Text)
  | sequence (tag : Tag) (items : List Nat)
  | mapping (tag : Tag) (pairs : List (Nat × Nat))
  deriving Inhabited

/-- The tag of a node. -/
def Node.tag : Node → Tag
  | .scalar tag _ => tag
  | .sequence tag _ => tag
  | .mapping tag _ => tag

/-- A mapping with other pairs; any other node stays as it is. -/
def Node.withPairs (pairs : List (Nat × Nat)) : Node → Node
  | .mapping tag _ => .mapping tag pairs
  | n => n

/-- Nodes, and the position of the first one. -/
structure Graph where
  nodes : Array Node
  root : Nat

namespace Graph

/-- The usual room of a reader: collections that stand further inside each other exhaust the stack
of the program that reads them. -/
def maxDepth : Nat := 485

/-- A document that is being read. -/
structure Reading where
  scanner : Scanner
  /-- How deep collections may stand inside each other. -/
  room : Nat
  nodes : Array Node := #[]
  /-- The nodes that have names. -/
  anchors : List (Text × Nat) := []
  /-- What the handles of tags stand for. -/
  handles : List (Text × Text) := [("!", "!"), ("!!", Tag.commonStart)]

/-- A part of the grammar. -/
abbrev Parse (α : Type) : Type := StateT Reading (Except Problem) α

/-- Refuses what stands here. -/
def fail {α : Type} : Parse α := throw .malformed

/-- The next token, which is not taken. -/
def peek : Parse (Option Token) := do
  let r ← get
  let (t, scanner) ← r.scanner.next
  set { r with scanner }
  return t

/-- Takes the next token. -/
def take : Parse Unit := modify fun r => { r with scanner := r.scanner.drop }

/-- Is the next token one of these? At the end of the tokens none is. -/
def nextIn (tokens : List Token) : Parse Bool := do
  match ← peek with
  | some t => return tokens.elem t
  | none => return false

/-- Takes the next token, which must be this one. -/
def expect (t : Token) : Parse Unit := do
  if ← nextIn [t] then take else fail

/-- Adds a node. -/
def add (n : Node) : Parse Nat := do
  let r ← get
  set { r with nodes := r.nodes.push n }
  return r.nodes.size

/-- Gives the node at a position its content. -/
def fillIn (at_ : Nat) (n : Node) : Parse Unit :=
  modify fun r => { r with nodes := r.nodes.setIfInBounds at_ n }

/-- Adds the node that stands where nothing is written. -/
def addEmpty : Parse Nat := add (.scalar .null [])

/-- Gives a node a name that no other has. -/
def bindName (name : Option Text) (at_ : Nat) : Parse Unit :=
  match name with
  | some name => modify fun r => { r with anchors := (name, at_) :: r.anchors }
  | none => pure ()

/-- Refuses a name that is given already. -/
def checkName (name : Option Text) : Parse Unit := do
  match name with
  | some name => if (← get).anchors.any fun (other, _) => other == name then fail
  | none => pure ()

/-- The node of a name. -/
def lookup (name : Text) : Parse Nat := do
  match (← get).anchors.find? fun (other, _) => other == name with
  | some (_, at_) => return at_
  | none => fail

/-- Takes an anchor, if one stands here. -/
def takeAnchor : Parse (Option Text) := do
  match ← peek with
  | some (.anchor name) => do take; return some name
  | _ => return none

/-- Takes a tag, if one stands here. -/
def takeTag : Parse (Option WrittenTag) := do
  match ← peek with
  | some (.tag written) => do take; return some written
  | _ => return none

/-- The full name of a tag; its handle must be known. -/
def tagName (written : WrittenTag) : Parse Text := do
  match written.handle with
  | none => return written.suffix
  | some handle =>
    match (← get).handles.lookup handle with
    | some start => return start ++ written.suffix
    | none => fail

/-- The anchor and the name of the tag before a node, in either order. -/
def properties : Parse (Option Text × Option Text) := do
  let named (written : Option WrittenTag) : Parse (Option Text) := match written with
    | some written => do return some (← tagName written)
    | none => return none
  match ← takeAnchor with
  | some anchor => return (some anchor, ← named (← takeTag))
  | none =>
    match ← takeTag with
    | some written => do
      let anchor ← takeAnchor
      return (anchor, ← named (some written))
    | none => return (none, none)

/-- The tag that a written name asks for; without a name, or with an exclamation mark for one, it is
the usual one. -/
def tagOr (usual : Tag) : Option Text → Tag
  | none => usual
  | some name => if name == "!" then usual else Tag.ofName name

/-- The tag of a scalar. An exclamation mark makes it count as plain. -/
def scalarTag (text : Text) (plain : Bool) (name : Option Text) : Tag :=
  tagOr (if plain || name.isSome then Tag.ofPlain text else .text) name

/-- A node of which only an anchor or a tag is written. -/
def bare (anchor name : Option Text) : Parse Nat := do
  if anchor.isNone && name.isNone then fail
  checkName anchor
  let at_ ← add (.scalar (scalarTag [] true name) [])
  bindName anchor at_
  return at_

/-- A sequence of items, which may name the sequence itself. -/
def sequence (anchor name : Option Text) (items : Parse (List Nat)) : Parse Nat := do
  checkName anchor
  let tag := tagOr .sequence name
  let at_ ← add (.sequence tag [])
  bindName anchor at_
  fillIn at_ (.sequence tag (← items))
  return at_

/-- A mapping of pairs, which may name the mapping itself. -/
def mapping (anchor name : Option Text) (pairs : Parse (List (Nat × Nat))) : Parse Nat := do
  checkName anchor
  let tag := tagOr .mapping name
  let at_ ← add (.mapping tag [])
  bindName anchor at_
  fillIn at_ (.mapping tag (← pairs))
  return at_

mutual

/-- A node; `block` and `indentless` say which collections may stand here, `depth` in how many
collections it stands. -/
def node (block indentless : Bool) (depth : Nat) : (fuel : Nat) → Parse Nat
  | 0 => throw .tooDeep
  | fuel + 1 => do
    if (← get).room < depth then throw .tooDeep
    match ← peek with
    | some (.alias_ name) => do take; lookup name
    | _ => do
      let (anchor, name) ← properties
      match ← peek with
      | some (.scalar text plain) => do
        take
        checkName anchor
        let at_ ← add (.scalar (scalarTag text plain name) text)
        bindName anchor at_
        return at_
      | some .flowSequenceStart => do
        take
        sequence anchor name (flowItems true (depth + 1) fuel)
      | some .flowMappingStart => do
        take
        mapping anchor name (flowPairs true (depth + 1) fuel)
      | some .blockSequenceStart =>
        if block then do
          take
          sequence anchor name (blockItems (depth + 1) fuel)
        else bare anchor name
      | some .blockMappingStart =>
        if block then do
          take
          mapping anchor name (blockPairs (depth + 1) fuel)
        else bare anchor name
      | some .blockEntry =>
        if indentless then sequence anchor name (indentlessItems (depth + 1) fuel)
        else bare anchor name
      | _ => bare anchor name
termination_by structural fuel => fuel

/-- The items of a block sequence. -/
def blockItems (depth : Nat) : (fuel : Nat) → Parse (List Nat)
  | 0 => throw .tooDeep
  | fuel + 1 => do
    if ← nextIn [.blockEntry] then
      take
      let item ← if ← nextIn [.blockEntry, .blockEnd] then addEmpty else node true false depth fuel
      return item :: (← blockItems depth fuel)
    else do
      expect .blockEnd
      return []
termination_by structural fuel => fuel

/-- The items of a block sequence that stands no further in than its key. -/
def indentlessItems (depth : Nat) : (fuel : Nat) → Parse (List Nat)
  | 0 => throw .tooDeep
  | fuel + 1 => do
    if ← nextIn [.blockEntry] then
      take
      let item ← if ← nextIn [.blockEntry, .key, .value, .blockEnd] then addEmpty
        else node true false depth fuel
      return item :: (← indentlessItems depth fuel)
    else return []
termination_by structural fuel => fuel

/-- The pairs of a block mapping. -/
def blockPairs (depth : Nat) : (fuel : Nat) → Parse (List (Nat × Nat))
  | 0 => throw .tooDeep
  | fuel + 1 => do
    if ← nextIn [.key] then
      take
      let k ← if ← nextIn [.key, .value, .blockEnd] then addEmpty else node true true depth fuel
      let v ← blockValue depth fuel
      return (k, v) :: (← blockPairs depth fuel)
    else do
      expect .blockEnd
      return []
termination_by structural fuel => fuel

/-- The value of a pair of a block mapping. -/
def blockValue (depth : Nat) : (fuel : Nat) → Parse Nat
  | 0 => throw .tooDeep
  | fuel + 1 => do
    if ← nextIn [.value] then
      take
      if ← nextIn [.key, .value, .blockEnd] then addEmpty else node true true depth fuel
    else addEmpty
termination_by structural fuel => fuel

/-- The items of a flow sequence. A pair among them is a mapping of its own. -/
def flowItems (first : Bool) (depth : Nat) : (fuel : Nat) → Parse (List Nat)
  | 0 => throw .tooDeep
  | fuel + 1 => do
    if ← nextIn [.flowSequenceEnd] then do take; return []
    else do
      if !first then expect .flowEntry
      if ← nextIn [.key] then
        let item ← mapping none none (flowPair (depth + 1) fuel)
        return item :: (← flowItems false depth fuel)
      else if ← nextIn [.flowSequenceEnd] then do take; return []
      else
        let item ← node false false depth fuel
        return item :: (← flowItems false depth fuel)
termination_by structural fuel => fuel

/-- The pair of a mapping that is written among the items of a flow sequence. -/
def flowPair (depth : Nat) : (fuel : Nat) → Parse (List (Nat × Nat))
  | 0 => throw .tooDeep
  | fuel + 1 => do
    if (← get).room < depth then throw .tooDeep
    take
    let k ← if ← nextIn [.value, .flowEntry, .flowSequenceEnd] then addEmpty
      else node false false depth fuel
    let v ← flowValue .flowSequenceEnd depth fuel
    return [(k, v)]
termination_by structural fuel => fuel

/-- The pairs of a flow mapping. -/
def flowPairs (first : Bool) (depth : Nat) : (fuel : Nat) → Parse (List (Nat × Nat))
  | 0 => throw .tooDeep
  | fuel + 1 => do
    if ← nextIn [.flowMappingEnd] then do take; return []
    else do
      if !first then expect .flowEntry
      if ← nextIn [.key] then
        take
        let k ← if ← nextIn [.value, .flowEntry, .flowMappingEnd] then addEmpty
          else node false false depth fuel
        let v ← flowValue .flowMappingEnd depth fuel
        return (k, v) :: (← flowPairs false depth fuel)
      else if ← nextIn [.flowMappingEnd] then do take; return []
      else
        let k ← node false false depth fuel
        let v ← addEmpty
        return (k, v) :: (← flowPairs false depth fuel)
termination_by structural fuel => fuel

/-- The value of a pair in a flow collection that ends with `closing`. -/
def flowValue (closing : Token) (depth : Nat) : (fuel : Nat) → Parse Nat
  | 0 => throw .tooDeep
  | fuel + 1 => do
    if ← nextIn [.value] then
      take
      if ← nextIn [.flowEntry, closing] then addEmpty else node false false depth fuel
    else addEmpty
termination_by structural fuel => fuel

end

/-- Takes document ends. -/
def takeEnds : (fuel : Nat) → Parse Unit
  | 0 => pure ()
  | fuel + 1 => do
    if ← nextIn [.documentEnd] then do take; takeEnds fuel

/-- Takes directives: there may be one version, which must be the first, and each handle may be
given once. -/
def takeDirectives : (fuel : Nat) → (versioned : Bool) → (given : List (Text × Text)) → Parse Unit
  | 0, _, _ => pure ()
  | fuel + 1, versioned, given => do
    match ← peek with
    | some (.version major) => do
      take
      if versioned || major != 1 then fail
      takeDirectives fuel true given
    | some (.handle handle start) => do
      take
      if given.any fun (other, _) => other == handle then fail
      takeDirectives fuel versioned ((handle, start) :: given)
    | some .directive => do
      take
      takeDirectives fuel versioned given
    | _ => modify fun r => { r with handles := given ++ r.handles }

/-- Does the token stand between documents? -/
def isBoundary : Token → Bool
  | .version _ => true
  | .handle _ _ => true
  | .directive => true
  | .documentStart => true
  | _ => false

/-- The one document of a file, none if the file is empty. Only a document with a start mark may
have directives, and may have nothing in it. -/
def document (fuel : Nat) : Parse (Option Nat) := do
  match ← peek with
  | none => return none
  | some t => do
    let explicit := isBoundary t
    if explicit then
      takeDirectives fuel false []
      expect .documentStart
    let isEmpty ← match ← peek with
      | none => pure true
      | some t => pure (isBoundary t || t == .documentEnd)
    let root ← if explicit && isEmpty then addEmpty else node true false 0 fuel
    takeEnds fuel
    match ← peek with
    | none => return some root
    | some _ => fail

/-- The one document of a file, none if the file is empty. -/
def ofText (text : Text) (room : Nat := maxDepth) : Outcome (Option Graph) := do
  let scanner ← Scanner.ofText text
  let (root, r) ← (document (8 * text.length + 16)).run { scanner, room }
  return root.map fun root => { nodes := r.nodes, root }

end Graph

end Componentry.Yaml
