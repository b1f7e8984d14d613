import DocComment.Tree.Reader

/-!
# Blocks

A block is the documentation comment of one declaration: its text, the tokens and nodes that were
read from it, and whether its nodes have been edited since. Its tags are found by their names, which
may be given with or without the `@`.
-/

namespace DocComment

open Text

/-- A documentation comment. -/
structure Block where
  /-- The declaration that the comment belongs to. -/
  declaration? : Option Nat
  /-- The text that the block was read from. -/
  raw : Text
  tokens : List Token
  tree : Tree
  /-- Whether the nodes differ from those that were read. -/
  dirty : Bool
  /-- Whether a node that was read has been removed. -/
  removedRead : Bool
  rules : Rules

namespace Block

/-- The block of a comment. -/
def read (rules : Rules) (declaration? : Option Nat) (raw : Text) : Block :=
  let tokens := Token.scan raw
  { declaration?, raw, tokens, tree := Tree.ofTokens rules tokens, dirty := false,
    removedRead := false, rules }

/-- The block of a declaration without a comment. -/
def empty (rules : Rules) (declaration? : Option Nat) : Block :=
  { declaration?, raw := [], tokens := [], tree := {}, dirty := false, removedRead := false, rules }

/-- What stands after the name of a tag. -/
def writePayload (b : Block) (id : NodeId) : Text := b.tree.writePayload b.rules.types id

/-- The written form of a node. -/
def write (b : Block) (id : NodeId) : Text := b.tree.write b.rules.types id

/-! ### Finding tags -/

/-- A tag name without the `@` in front. -/
def bareName (name : Text) : Text := (dropPrefix? ['@'] name).getD name

/-- Whether a node is a tag of this name. -/
def isTagNamed (name : Text) (n : Node) : Bool := n.tagName? = some name

/-- The top tags of this name, in order. -/
def tagsNamed (b : Block) (name : Text) : List NodeId :=
  (b.tree.topNodes.filter fun (_, n) => isTagNamed (bareName name) n).map (·.1)

/-- Whether there is a tag of this name. -/
def hasTag (b : Block) (name : Text) : Bool := b.tagsNamed name ≠ []

/-- Whether there is a tag of one of these names. -/
def hasAnyTag (b : Block) (names : List Text) : Bool := names.any b.hasTag

/-- The type that the first tag of this name states. -/
def typeOf? (b : Block) (name : Text) : Option TypeExpr := do
  let id ← (b.tagsNamed name).head?
  let n ← b.tree.node? id
  n.type?

/-- The first paragraph. -/
def summary? (b : Block) : Option Text :=
  b.tree.topNodes.findSome? fun
    | (_, .prose text) => some text
    | _ => none

/-- The type that is returned. -/
def returnType? (b : Block) : Option TypeExpr := b.typeOf? "return".toList

/-- The type of a variable. -/
def varType? (b : Block) : Option TypeExpr := b.typeOf? "var".toList

/-- Whether the declaration should not be used any more. -/
def isDeprecated (b : Block) : Bool := b.hasTag "deprecated".toList

/-- The variable that a tag documents. -/
def variableOf? (b : Block) (id : NodeId) : Option Text := do
  let n ← b.tree.node? id
  let value ← n.value?
  value.var?

/-- The variables of the parameter tags, in order. -/
def paramNames (b : Block) : List Text := (b.tagsNamed "param".toList).filterMap b.variableOf?

/-- A variable without its `$` and the marks in front of it. -/
def bareVariable (param : Text) : Text :=
  param.dropWhile fun c => c = '&' || c = '.' || c = '$'

/-- The first tag of a parameter, which may be named with or without its `$`. -/
def paramTag? (b : Block) (param : Text) : Option NodeId :=
  (b.tagsNamed "param".toList).find? fun id =>
    (b.variableOf? id).any fun v => bareVariable v = param.dropWhile (· = '$')

/-- The type of a parameter. -/
def paramType? (b : Block) (param : Text) : Option TypeExpr := do
  let id ← b.paramTag? param
  let n ← b.tree.node? id
  n.type?

end Block

end DocComment
