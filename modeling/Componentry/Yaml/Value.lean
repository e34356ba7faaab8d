import Componentry.Text.Quoted
import Componentry.Yaml.Node
import Componentry.Yaml.Scalar
import Componentry.Yaml.SetOrder

/-!
# Values of configuration files

The values that a configuration file gives. A collection is the position of its content in a table,
so that it may be shared and may contain itself. Mappings keep their pairs in order; a key that
comes again replaces the earlier value, and a pair under the merge mark adds the pairs of the
mapping it names, those that are written out winning.

Collections are filled in waves: all that one wave holds is made before the content of any
collection inside it, so a fault near the root is found before one further in.
-/

namespace Componentry.Yaml

/-- How far a value may usually reach down, through the names of other values too, before the stack
of the program that follows it is exhausted. -/
def maxChain : Nat := 970

/-- A value: a scalar, or the position of a collection. -/
inductive Value where
  | scalar (value : Scalar)
  | collection (at_ : Nat)
  deriving DecidableEq, Repr, Inhabited

/-- The content of a collection. -/
inductive Collection where
  | sequence (items : List Value)
  | mapping (pairs : List (Value × Value))
  | set (items : List Value)
  /-- A sequence of pairs. -/
  | pairs (pairs : List (Value × Value))
  deriving Inhabited

/-- A value and the collections that it is made of. -/
structure Document where
  root : Value
  collections : List (Nat × Collection) := []

/-- The text of a value that is one. -/
def Value.text? : Value → Option Text
  | .scalar (.text s) => some s
  | _ => none

/-- The residue of a value that may be a member of a set. -/
def Value.residue? : Value → Option Int
  | .scalar s => s.residue?
  | .collection _ => none

/-- Are two values one key? -/
def Value.sameKey : Value → Value → Bool
  | .scalar a, .scalar b => a.sameKey b
  | .collection a, .collection b => a == b
  | _, _ => false

/-- Sets a key: in its place if it is there, else as the last one. -/
def setKey (key value : Value) : List (Value × Value) → List (Value × Value)
  | [] => [(key, value)]
  | (k, v) :: rest =>
    if k.sameKey key then (k, value) :: rest else (k, v) :: setKey key value rest

namespace Document

/-- The collection of a value. -/
def collection? (d : Document) : Value → Option Collection
  | .collection at_ => d.collections.lookup at_
  | _ => none

/-- The pairs of a value that is a mapping. -/
def pairs? (d : Document) (v : Value) : Option (List (Value × Value)) :=
  match d.collection? v with
  | some (.mapping pairs) => some pairs
  | _ => none

/-- The value under a text in a mapping. -/
def get? (d : Document) (key : Text) (v : Value) : Option Value := do
  let pairs ← d.pairs? v
  (pairs.find? fun (k, _) => k.sameKey (.scalar (.text key))).map Prod.snd

/-! ## Building -/

/-- A document that is being built from a graph. -/
structure Building where
  nodes : Array Node
  /-- How far a value may reach down, through the names of other values too. -/
  reach : Nat
  /-- The values that have been made, by node. -/
  made : List (Nat × Value) := []
  collections : List (Nat × Collection) := []
  /-- Nodes whose collections have still to be filled, the last one first. -/
  pending : List Nat := []

/-- A step of building. -/
abbrev Build (α : Type) : Type := StateT Building (Except Problem) α

/-- The node at a position. -/
def nodeAt (at_ : Nat) : Build Node := do
  match (← get).nodes[at_]? with
  | some n => return n
  | none => throw .malformed

/-- The tag of the node at a position. -/
def tagAt (at_ : Nat) : Build Tag := do return (← nodeAt at_).tag

/-- The text of a scalar. A mapping with a key that has the mark for it has the text of that
value, unless it is too far down. -/
def scalarText : (levels : Nat) → (at_ : Nat) → Build Text
  | 0, _ => throw .tooDeep
  | levels + 1, at_ => do
    match ← nodeAt at_ with
    | .scalar _ text => return text
    | .mapping _ pairs =>
      match ← pairs.findM? fun (k, _) => do return (← tagAt k) == .default with
      | some (_, v) => scalarText levels v
      | none => throw .malformed
    | .sequence _ _ => throw .malformed

/-- The value of a scalar. A time has to be written as a scalar. -/
def scalarAt (tag : Tag) (at_ : Nat) : Build Scalar := do
  let text ← scalarText (← get).reach at_
  match tag, ← nodeAt at_ with
  | .timestamp, .mapping _ _ => throw .momentType
  | _, _ => Scalar.ofText tag at_ text

/-- Does the tag ask for a collection? -/
def isCollectionTag : Tag → Bool
  | .sequence => true
  | .mapping => true
  | .set => true
  | .orderedMap => true
  | .pairs => true
  | _ => false

/-- The value of a node. A collection is filled later. -/
def valueAt (at_ : Nat) : Build Value := do
  match (← get).made.lookup at_ with
  | some v => return v
  | none => do
    let tag ← tagAt at_
    if isCollectionTag tag then
      let v := Value.collection at_
      modify fun b => { b with made := (at_, v) :: b.made, pending := at_ :: b.pending }
      return v
    else
      let v := Value.scalar (← scalarAt tag at_)
      modify fun b => { b with made := (at_, v) :: b.made }
      return v

/-- Replaces the pairs of a mapping. -/
def setPairs (at_ : Nat) (pairs : List (Nat × Nat)) : Build Unit :=
  modify fun b => { b with nodes := b.nodes.modify at_ (·.withPairs pairs) }

/-- The pairs of the node at a position, which must be a mapping. -/
def pairsAt (at_ : Nat) : Build (List (Nat × Nat)) := do
  match ← nodeAt at_ with
  | .mapping _ pairs => return pairs
  | _ => throw .malformed

/-- Makes a key that has the mark of a default value a text. -/
def settleKey (at_ : Nat) : Build Unit := do
  if (← tagAt at_) == .default then
    let n : Node := match ← nodeAt at_ with
      | .scalar _ text => .scalar .text text
      | .sequence _ items => .sequence .text items
      | .mapping _ pairs => .mapping .text pairs
    modify fun b => { b with nodes := b.nodes.setIfInBounds at_ n }

/-- Settles the keys of pairs up to the first merge mark: the index of its pair, counted from
`index` on, and what it names. -/
def settleUntilMerge : (index : Nat) → List (Nat × Nat) → Build (Option (Nat × Nat))
  | _, [] => return none
  | index, (k, v) :: rest => do
    if (← tagAt k) == .merge then return some (index, v)
    else do
      settleKey k
      settleUntilMerge (index + 1) rest

mutual

/-- Puts the pairs that the merge marks of a mapping add in front of its own. A mark is taken away
before it is followed, so a mapping may name itself. `depth` is the number of mappings that are
being settled, `index` the number of pairs that are, and `merged` what has been found. -/
def flatten (depth at_ index : Nat) (merged : List (Nat × Nat)) : (fuel : Nat) → Build Unit
  | 0 => throw .tooDeep
  | fuel + 1 => do
    if (← get).reach < depth then throw .tooDeep
    let pairs ← pairsAt at_
    match ← settleUntilMerge index (pairs.drop index) with
    | none => if !merged.isEmpty then setPairs at_ (merged ++ pairs)
    | some (i, v) => do
      setPairs at_ (pairs.eraseIdx i)
      let found ← mergedFrom (depth + 1) v fuel
      flatten depth at_ i (merged ++ found) fuel
termination_by structural fuel => fuel

/-- The pairs of a merged mapping, or of merged mappings in a sequence, the last one first. -/
def mergedFrom (depth at_ : Nat) : (fuel : Nat) → Build (List (Nat × Nat))
  | 0 => throw .tooDeep
  | fuel + 1 => do
    match ← nodeAt at_ with
    | .mapping _ _ => do
      flatten depth at_ 0 [] fuel
      pairsAt at_
    | .sequence _ items => mergedItems depth items [] fuel
    | .scalar _ _ => throw .malformed
termination_by structural fuel => fuel

/-- The pairs of merged mappings in a sequence, those of later ones in front. -/
def mergedItems (depth : Nat) (items : List Nat) (found : List (Nat × Nat)) :
    (fuel : Nat) → Build (List (Nat × Nat))
  | 0 => throw .tooDeep
  | fuel + 1 => do
    match items with
    | [] => return found
    | item :: rest => do
      match ← nodeAt item with
      | .mapping _ _ => flatten depth item 0 [] fuel
      | _ => throw .malformed
      mergedItems depth rest ((← pairsAt item) ++ found) fuel
termination_by structural fuel => fuel

end

/-- The number of pairs and nodes, which bounds the merging. -/
def weight (nodes : Array Node) : Nat :=
  nodes.foldl (fun n node => match node with
    | .mapping _ pairs => n + 2 * pairs.length + 2
    | .sequence _ items => n + items.length + 2
    | .scalar _ _ => n + 1) 4

/-- The pairs of a mapping with their values. A key must not be a collection. -/
def mappingPairs (acc : List (Value × Value)) : List (Nat × Nat) → Build (List (Value × Value))
  | [] => return acc
  | (k, v) :: rest => do
    let key ← valueAt k
    match key with
    | .collection _ => throw .malformed
    | .scalar _ => mappingPairs (setKey key (← valueAt v) acc) rest

/-- The pairs of the node at a position, which must be a mapping, merged ones in front. -/
def mappingAt (at_ : Nat) : Build (List (Value × Value)) := do
  let _ ← pairsAt at_
  let total := weight (← get).nodes
  flatten 0 at_ 0 [] (total * total)
  mappingPairs [] (← pairsAt at_)

/-- The items of the node at a position, which must be a sequence. -/
def itemsAt (at_ : Nat) : Build (List Nat) := do
  match ← nodeAt at_ with
  | .sequence _ items => return items
  | _ => throw .malformed

/-- The pair that an item of an ordered mapping is: a mapping with one key. -/
def singlePair (at_ : Nat) : Build (Value × Value) := do
  match ← pairsAt at_ with
  | [(k, v)] => do
    let key ← valueAt k
    return (key, ← valueAt v)
  | _ => throw .malformed

/-- Fills the collection of a node. -/
def fillCollection (at_ : Nat) : Build Unit := do
  let content ← match ← tagAt at_ with
    | .sequence => do pure (Collection.sequence (← (← itemsAt at_).mapM valueAt))
    | .mapping => do pure (Collection.mapping (← mappingAt at_))
    | .set => do
      let members := (← mappingAt at_).map Prod.fst
      pure (Collection.set (SetOrder.listed Value.residue? members))
    | _ => do pure (Collection.pairs (← (← itemsAt at_).mapM singlePair))
  modify fun b => { b with collections := (at_, content) :: b.collections }

/-- Fills collections, wave after wave. -/
def fillAll : (fuel : Nat) → Build Unit
  | 0 => pure ()
  | fuel + 1 => do
    match (← get).pending.reverse with
    | [] => pure ()
    | wave => do
      modify fun b => { b with pending := [] }
      wave.forM fillCollection
      fillAll fuel

/-- The document of a graph. -/
def ofGraph (g : Graph) (reach : Nat := maxChain) : Outcome Document := do
  let build : Build Value := do
    let root ← valueAt g.root
    fillAll (g.nodes.size + 1)
    return root
  let (root, b) ← build.run { nodes := g.nodes, reach }
  return { root, collections := b.collections }

/-- The document of a file; an empty file has nothing in it. -/
def read (text : Text) (room : Nat := Graph.maxDepth) (reach : Nat := maxChain) :
    Outcome Document := do
  match ← Graph.ofText text room with
  | none => return { root := .scalar .null }
  | some g => ofGraph g reach

end Document

end Componentry.Yaml
