import DocComment.Block.Basic
import DocComment.Failure

/-!
# Editing blocks

An edit changes a block and gives an answer, or fails. Tags are added behind all others, removed by
name, or replaced: the only tag of its name, if it was read, is changed where it stands. The edits
keep account of what the printer has to write anew.
-/

namespace DocComment

open Text

/-- A change of a block that answers with an `α` or fails. -/
abbrev Block.Edit (α : Type) := ExceptT Failure (StateM Block) α

namespace Block

/-! ### What may be written -/

/-- No text may close the comment. -/
def checkContent (s : Text) : Except Failure Unit :=
  if Text.contains ['*', '/'] s then throw (.terminator s) else pure ()

/-- The name of a tag without its `@`, which must be one word. -/
def checkName (name : Text) : Except Failure Text := do
  let bare := bareName name
  if bare = [] then throw .emptyTagName
  if bare.any isWhiteSpace then throw (.blankInTagName name)
  checkContent bare
  return bare

/-! ### Steps -/

/-- The block with a new tag at its end. -/
def pushTag (b : Block) (name : Text) (r : Reading) : Block × NodeId :=
  let (tree, id) := b.tree.makeTag name r
  ({ b with tree := (tree.markSynthesized (id :: tree.fragments id)).push id, dirty := true }, id)

/-- The block with a new paragraph at its end. -/
def pushProse (b : Block) (text : Text) : Block × NodeId :=
  let (tree, id) := b.tree.make (.prose text)
  ({ b with tree := (tree.markSynthesized [id]).push id, dirty := true }, id)

/-- The block without the tags of this name, which were `removed`. It is clean again if only new
tags were removed and nothing else was edited. -/
def dropTags (b : Block) (name : Text) : Block × List NodeId :=
  let isRemoved id := (b.tree.node? id).any (isTagNamed name)
  let removed := b.tree.top.filter isRemoved
  if removed = [] then (b, [])
  else
    let tree := { b.tree with top := b.tree.top.filter (!isRemoved ·) }
    let removedRead := b.removedRead || removed.any fun id => (tree.attributes.span? id).isSome
    ({ b with tree, removedRead, dirty := removedRead || tree.top.any tree.isModified }, removed)

/-- The block in which a tag has been read anew where it stands, unless that changes nothing. -/
def rereadTag (b : Block) (id : NodeId) (name : Text) (r : Reading) : Block :=
  let (tree, n) := b.tree.makeFragments name r
  if n.fragments = [] ∧ b.tree.node? id = some n then b
  else
    let tree := ((tree.markSynthesized n.fragments).replace id n).markChanged id
    { b with tree, dirty := true }

/-! ### Edits -/

/-- Adds a tag at the end. -/
def addTag (name payload : Text) : Edit NodeId := do
  let name ← checkName name
  checkContent payload
  let b ← get
  let (b, id) := b.pushTag name (b.rules.resolve name (trim payload))
  set b
  return id

/-- Adds a paragraph at the end. -/
def addProse (text : Text) : Edit NodeId := do
  if trim text = [] then throw .emptyProse
  checkContent text
  let (b, id) := (← get).pushProse (trim text)
  set b
  return id

/-- Removes all tags of this name, and answers with their number. -/
def removeTags (name : Text) : Edit Nat := do
  let name ← checkName name
  let (b, removed) := (← get).dropTags name
  set b
  return removed.length

/-- Replaces the tags of this name by one. The only one is kept in its place if it was not made by
an edit itself; otherwise the new tag stands at the end. -/
def replaceTag (name payload : Text) : Edit NodeId := do
  let name ← checkName name
  checkContent payload
  let b ← get
  match b.tagsNamed name with
  | [only] =>
    if b.tree.attributes.isSynthesized only then
      let _ ← removeTags name
      addTag name payload
    else
      set (b.rereadTag only name (b.rules.resolve name (trim payload)))
      return only
  | _ =>
    let _ ← removeTags name
    addTag name payload

/-- Notes that a node has been changed. -/
def markChanged (id : NodeId) : Edit Unit := do
  let b ← get
  if !b.tree.contains id then throw (.foreignNode id)
  set { b with tree := b.tree.markChanged id, dirty := true }

/-- Gives the tag `id` of this name another type. A typed tag keeps its variable and description;
any other is replaced by the type alone. -/
def changeType (id : NodeId) (name : Text) (type : TypeExpr) : Edit NodeId := do
  let b ← get
  match b.tree.node? id with
  | some (.tag tagName (.typed v)) =>
    if v.type = type then return id
    set { b with tree := b.tree.replace id (.tag tagName (.typed { v with type })) }
    markChanged id
    return id
  | _ => replaceTag name (b.rules.types.write type)

/-- Gives the first tag of this name another type, or adds one. -/
def changeFirstType (name : Text) (type : TypeExpr) : Edit NodeId := do
  let b ← get
  match b.tagsNamed name with
  | id :: _ => changeType id name type
  | [] => addTag name (b.rules.types.write type)

/-- Changes the type that is returned. -/
def changeReturnType (type : TypeExpr) : Edit NodeId := changeFirstType "return".toList type

/-- Changes the type of a variable. -/
def changeVarType (type : TypeExpr) : Edit NodeId := changeFirstType "var".toList type

/-- Changes the type of a parameter, or adds the parameter. -/
def changeParamType (param : Text) (type : TypeExpr) : Edit NodeId := do
  let bare := param.dropWhile (· = '$')
  if bare = [] then throw .emptyParameterName
  let b ← get
  match b.paramTag? bare with
  | some id => changeType id "param".toList type
  | none => addTag "param".toList (b.rules.types.write type ++ ' ' :: '$' :: bare)

end Block

/-! ### Changing single nodes -/

/-- A change of one node, which does nothing to nodes that have no such part. -/
inductive Node.Change where
  /-- The text of a paragraph or a fragment. -/
  | text (text : Text)
  /-- The name of a tag. -/
  | name (name : Text)
  /-- What a tag says. -/
  | value (value : TagValue)
  /-- The payload of a tag, which is then kept as it is. -/
  | raw (raw : Text)
  /-- The description of a typed tag or a container. -/
  | description (description : Text)
  /-- The variable of a typed tag. -/
  | var (var? : Option Text)
  /-- The type of a typed tag. -/
  | type (type : TypeExpr)
  /-- The method of a container. -/
  | method (method : Text)
  | static (isStatic : Bool)
  | returnType (type? : Option TypeExpr)
  /-- Keeps the fragments at these positions, in this order. -/
  | keep (positions : List Nat)
  deriving DecidableEq, Repr, Inhabited

/-- The node after a change. -/
def Node.change : Node.Change → Node → Node
  | .text text, .prose _ => .prose text
  | .text text, .fragment _ => .fragment text
  | .name name, .tag _ value => .tag name value
  | .name name, .container _ signature fragments description =>
    .container name signature fragments description
  | .value value, .tag name _ => .tag name value
  | .raw raw, .tag name _ => .tag name (.generic raw)
  | .description description, .tag name (.typed v) => .tag name (.typed { v with description })
  | .description description, .container name signature fragments _ =>
    .container name signature fragments description
  | .var var?, .tag name (.typed v) => .tag name (.typed { v with var? })
  | .type type, .tag name (.typed v) => .tag name (.typed { v with type })
  | .method method, .container name signature fragments description =>
    .container name { signature with method } fragments description
  | .static isStatic, .container name signature fragments description =>
    .container name { signature with isStatic } fragments description
  | .returnType returnType?, .container name signature fragments description =>
    .container name { signature with returnType? } fragments description
  | .keep positions, .container name signature fragments description =>
    .container name signature (positions.filterMap (fragments[·]?)) description
  | _, n => n

namespace Block

/-- Changes a node without noting it. -/
def changeNode (b : Block) (id : NodeId) (change : Node.Change) : Block :=
  match b.tree.node? id with
  | none => b
  | some n => { b with tree := b.tree.replace id (n.change change) }

end Block

end DocComment
