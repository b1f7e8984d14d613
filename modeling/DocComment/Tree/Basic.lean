import DocComment.Attribute
import DocComment.Tag.Rules

/-!
# Trees of nodes

A tree keeps every node that was ever made for a comment; those that stand in the comment are listed
in order as its top nodes. A node that is removed from the comment keeps its number, so numbers that
were handed out stay good.
-/

namespace DocComment

/-- The nodes of a comment. -/
structure Tree where
  /-- All nodes ever made, by number. -/
  nodes : Array Node := #[]
  /-- The nodes that stand in the comment, in order. -/
  top : List NodeId := []
  attributes : Attribute.Table := {}
  deriving DecidableEq, Repr, Inhabited

namespace Tree

/-- A node by its number. -/
def node? (t : Tree) (id : NodeId) : Option Node := t.nodes[id]?

/-- The top nodes with their numbers. -/
def topNodes (t : Tree) : List (NodeId × Node) :=
  t.top.filterMap fun id => (t.node? id).map (id, ·)

/-! ### Nodes below others -/

/-- The nodes below a node: the fragments of a container, which have none below them. -/
def fragments (t : Tree) (id : NodeId) : List NodeId := (t.node? id).elim [] Node.fragments

/-- Whether a node stands in the comment, at the top or below a top node. -/
def contains (t : Tree) (id : NodeId) : Bool :=
  t.top.any fun top => top = id || id ∈ t.fragments top

/-- Whether a node or one below it was made or changed after the comment was read. -/
def isModified (t : Tree) (id : NodeId) : Bool :=
  (id :: t.fragments id).any fun n => t.attributes.isChanged n || t.attributes.isSynthesized n

/-! ### Making, replacing and removing nodes -/

/-- The tree with one more node, which gets the next number. -/
def make (t : Tree) (n : Node) : Tree × NodeId := ({ t with nodes := t.nodes.push n }, t.nodes.size)

/-- The tree with the fragments of a reading, and the tag that the reading describes. The fragments
get the next numbers; the tag itself is not made. -/
def makeFragments (t : Tree) (name : Text) : Reading → Tree × Node
  | .value value => (t, .tag name value)
  | .method m =>
    let fragments := m.params.map fun f => Node.fragment f.text
    ({ t with nodes := t.nodes ++ fragments.toArray },
      .container name m.signature (List.range' t.nodes.size m.params.length) m.description)

/-- The tree with a tag, its fragments first. -/
def makeTag (t : Tree) (name : Text) (r : Reading) : Tree × NodeId :=
  let (t, n) := t.makeFragments name r
  t.make n

/-- The tree with a node at the end of the comment. -/
def push (t : Tree) (id : NodeId) : Tree := { t with top := t.top ++ [id] }

/-- The tree with another node under the same number. -/
def replace (t : Tree) (id : NodeId) (n : Node) : Tree :=
  { t with nodes := t.nodes.setIfInBounds id n }

/-- Marks nodes as made after the comment was read. -/
def markSynthesized (t : Tree) (ids : List NodeId) : Tree :=
  { t with attributes := ids.foldl Attribute.Table.markSynthesized t.attributes }

/-- Marks a node as changed after it was read. -/
def markChanged (t : Tree) (id : NodeId) : Tree :=
  { t with attributes := t.attributes.markChanged id }

/-! ### Writing nodes -/

/-- The text of a fragment. -/
def fragmentText (t : Tree) (id : NodeId) : Text :=
  match t.node? id with
  | some (.fragment text) => text
  | _ => []

/-- What stands after the name of a tag, or the text of a node that is no tag. -/
def writePayload (t : Tree) (types : TypeSyntax) (id : NodeId) : Text :=
  match t.node? id with
  | some (.prose text) | some (.fragment text) => text
  | some (.tag _ value) => value.write types
  | some (.container _ signature fragments description) =>
    signature.write types ++ '(' :: [',', ' '].intercalate (fragments.map t.fragmentText)
      ++ [')'] ++ afterBlank description
  | none => []

/-- The written form of a node, for a tag `@name payload`. -/
def write (t : Tree) (types : TypeSyntax) (id : NodeId) : Text :=
  match (t.node? id).bind Node.tagName? with
  | some name => '@' :: name ++ afterBlank (t.writePayload types id)
  | none => t.writePayload types id

end Tree

end DocComment
