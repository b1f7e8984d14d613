import DocComment.Block.Edit
import DocComment.Block.Print

/-!
# Declarations

A declaration of a program may have a documentation comment, and keeps the block that was read from
it. The block is read once; later requests answer with the same block until it is detached.
-/

namespace DocComment

/-- A declaration with its comments. -/
structure Declaration where
  id : Nat
  name : Text
  /-- The documentation comment, delimiters included. -/
  doc? : Option Text
  /-- The other comments at the declaration. -/
  comments : List Text
  /-- What stands in front of the first line of the declaration. -/
  indentation : Text
  /-- The block that was read from the comment. -/
  block? : Option Block := none

namespace Declaration

/-- The block of the comment. A declaration without any comment has an empty block, one with other
comments only has none. -/
def readBlock? (rules : Rules) (d : Declaration) : Option Block :=
  match d.doc? with
  | some raw => some (Block.read rules d.id raw)
  | none => if d.comments = [] then some (Block.empty rules d.id) else none

/-- The declaration with its block, if it has one. -/
def attach (rules : Rules) (d : Declaration) : Declaration :=
  { d with block? := d.block? <|> d.readBlock? rules }

/-- The declaration with an empty block unless it has one. -/
def attachEmpty (rules : Rules) (d : Declaration) : Declaration :=
  { d with block? := d.block? <|> some (Block.empty rules d.id) }

/-- The declaration with its block, or an empty one. -/
def attachOrEmpty (rules : Rules) (d : Declaration) : Declaration :=
  (d.attach rules).attachEmpty rules

/-- The declaration without its block; the next request reads it anew. -/
def detach (d : Declaration) : Declaration := { d with block? := none }

/-- The text of a block for a declaration, which must be its own. -/
def print (p : Printer) (b : Block) (d : Declaration) : Except Failure Text :=
  match b.declaration? with
  | some id =>
    if id = d.id then pure (b.print p d.indentation) else throw (.wrongDeclaration id d.id)
  | none => throw .detached

/-- The declaration with the text of its block as its comment, and whether there was something to
write back. -/
def apply (p : Printer) (d : Declaration) : Except Failure (Bool × Declaration) := do
  let some b := d.block? | throw .noBlock
  if !b.dirty then return (false, d)
  let text ← d.print p b
  return (true, { d with doc? := if text = [] then none else some text })

end Declaration

end DocComment
