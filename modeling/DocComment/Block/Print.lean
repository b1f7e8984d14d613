import DocComment.Block.Basic

/-!
# Printing blocks

A block that was not edited prints as the text that it was read from. Otherwise every node that was
not touched keeps its text, and so do the start of the comment, its end, and the lines between nodes
that were read. New and changed nodes are written anew, each on a line of its own that starts like
the other lines of the comment.
-/

namespace DocComment

open Text

/-- How new lines of a comment are written. -/
structure Printer where
  /-- What stands between the indentation and the text of a line. -/
  marker : Text := [' ', '*', ' ']
  deriving DecidableEq, Repr, Inhabited

/-- The text without spaces at its end. -/
def trimSpaces (s : Text) : Text := trimEndBy (· = ' ') s

/-- The text in which nothing closes the comment: a backslash goes between the star and the
slash. -/
def escapeClosing : Text → Text
  | '*' :: '/' :: rest => '*' :: '\\' :: '/' :: escapeClosing rest
  | c :: rest => c :: escapeClosing rest
  | [] => []

/-- The text with `lineStart` for every line feed, less the spaces at its end where a line is
empty. -/
def joinLines (lineStart : Text) (s : Text) : Text :=
  match splitOn '\n' (escapeClosing s) with
  | [] => []
  | first :: rest =>
    first ++ rest.flatMap fun line =>
      if line = [] then trimSpaces lineStart else lineStart ++ line

/-- The last line of a comment whose lines start like this. -/
def closingLine (lineStart : Text) : Text := trimSpaces lineStart ++ ['/']

namespace Token

/-- The start of lines with a star and a space after it, as the first such line has it. -/
def starredStart? (ts : List Token) : Option Text := do
  let t ← ts.find? fun t => t.kind = .lineBreak && (trimSpaces t.text).getLast? = some '*'
  if t.text.getLast? = some ' ' then return t.text else return t.text ++ [' ']

/-- The start of the first line with content, in comments without stars. -/
def bareStart? : List Token → Option Text
  | t :: next :: rest =>
    if t.kind = .lineBreak && next.kind ≠ .lineBreak && next.kind ≠ .closing then some t.text
    else bareStart? (next :: rest)
  | _ => none

/-- The number of separators at the end of these tokens. -/
def separatorsAtEnd (ts : List Token) : Nat := (ts.reverse.takeWhile isSeparator).length

end Token

/-- What the printer takes from the text that a block was read from. -/
structure Layout where
  /-- The number of tokens in front of the first content, delimiter excluded. -/
  openEnd : Nat
  /-- The index of the first token that is neither the delimiter nor a separator. -/
  firstContent : Nat
  /-- The byte at which the last node that was read ends. -/
  lastPosition : Nat
  /-- Whether a comment in one line gets more lines. -/
  rewrap : Bool
  /-- What stands at the start of new lines, the line break included. -/
  lineStart : Text
  deriving DecidableEq, Repr, Inhabited

namespace Block

/-- The start of lines in a comment of the printer's own making. -/
def ownLineStart (p : Printer) (indent : Text) : Text := '\n' :: indent ++ p.marker

/-- The layout of a block, if a node was read from its text. -/
def layout? (p : Printer) (indent : Text) (b : Block) : Option Layout := do
  let ts := b.tokens
  let lastPosition ← b.tree.attributes.lastTokenPosition?
  let openEnd := if ts.head?.any (·.kind = .opening) then 1 else 0
  let separators := ((ts.drop openEnd).takeWhile Token.isSeparator).length
  let firstContent := openEnd + separators
  if ts.length ≤ firstContent then none
  let isSingleLine := !ts.any (·.kind = .lineBreak)
  let lineStart := (Token.starredStart? ts <|> Token.bareStart? ts).getD (ownLineStart p indent)
  return {
    openEnd, firstContent, lastPosition, lineStart
    rewrap := isSingleLine && 1 < b.tree.top.length }

/-- What stands in front of a node that is not the first: what stood there when it was read, or else
the start of a new line. -/
def separatorText (b : Block) (l : Layout) (id : NodeId) : Text :=
  match b.tree.attributes.span? id with
  | none => l.lineStart
  | some span =>
    let gap := span.start - Token.separatorsAtEnd (b.tokens.take span.start)
    if gap ≤ l.openEnd || l.rewrap || gap = span.start then l.lineStart
    else Token.source (Span.tokens ⟨gap, span.start⟩ b.tokens)

/-- The text of a node: as it was read if it was not touched, or else written anew. -/
def nodeText (b : Block) (l : Layout) (id : NodeId) : Text :=
  match b.tree.attributes.span? id with
  | some span =>
    if b.tree.isModified id || span.isEmpty then joinLines l.lineStart (b.write id)
    else Token.source (span.tokens b.tokens)
  | none => joinLines l.lineStart (b.write id)

/-- What stands in front of the first node. -/
def headerText (b : Block) (l : Layout) : Text :=
  if l.rewrap then
    (match b.tokens with
      | t :: _ => if t.kind = .opening then t.text else ['/', '*', '*']
      | [] => ['/', '*', '*']) ++ l.lineStart
  else Token.source (b.tokens.take l.firstContent)

/-- What stands after the last node. -/
def trailerText (b : Block) (l : Layout) : Text :=
  if l.rewrap then closingLine l.lineStart else dropBytes l.lastPosition b.raw

/-- The text of a block that was edited, with as much as possible of what it was read from. -/
def printLaidOut (b : Block) (l : Layout) : Text :=
  b.headerText l ++
    (match b.tree.top with
      | [] => []
      | first :: rest =>
        b.nodeText l first ++ rest.flatMap fun id => b.separatorText l id ++ b.nodeText l id)
    ++ b.trailerText l

/-- The text of a block in the printer's own layout. -/
def printCanonical (b : Block) (lineStart : Text) : Text :=
  ['/', '*', '*'] ++ (b.tree.top.flatMap fun id => lineStart ++ joinLines lineStart (b.write id))
    ++ closingLine lineStart

/-- The text of a block whose declaration is indented like this. No nodes print as no comment. -/
def print (p : Printer) (indent : Text) (b : Block) : Text :=
  if !b.dirty then b.raw
  else if b.tree.top = [] then []
  else match b.layout? p indent with
    | some l => b.printLaidOut l
    | none => b.printCanonical (ownLineStart p indent)

end Block

end DocComment
