import DocComment.Tree.Basic
import DocComment.Tree.Segment

/-!
# Trees read from tokens

Each segment of a comment becomes a node that knows its tokens. A segment that starts with a marker
is a tag: its payload is folded and read by the rules. The fragments of a container know their
tokens too; if that cannot be said of one of them, the tag keeps its payload as it is.
-/

namespace DocComment.Tree

/-- The tree with the tag `name` that these tokens after its name form. -/
def readTag (rules : Rules) (t : Tree) (name : Text) (payload : List IndexedToken) :
    Tree × NodeId :=
  let pieces := foldLines false (payload.dropWhile (·.1.kind = .blank))
  let text := pieces.flatMap (·.1)
  let reading := rules.resolve name text
  let (made, id) := t.makeTag name reading
  match reading with
  | .value _ => (made, id)
  | .method m =>
    let places := Placed.ofPieces 0 pieces
    match m.params.mapM fun f => Placed.span? places f.start f.stop with
    | none => (made.replace id (.tag name (.generic text)), id)
    | some spans =>
      let attributes := ((made.fragments id).zip spans).foldl
        (fun a (fragment, span) => a.setSpan fragment span) made.attributes
      ({ made with attributes }, id)

/-- The tree with the node that these tokens form. -/
def readNode (rules : Rules) (t : Tree) : List IndexedToken → Tree × NodeId
  | (marker, i) :: (name, j) :: payload =>
    if marker.kind = .marker then readTag rules t name.text payload
    else t.make (.prose ((foldLines false ((marker, i) :: (name, j) :: payload)).flatMap (·.1)))
  | ts => t.make (.prose ((foldLines false ts).flatMap (·.1)))

/-- The tree with the node of a span at its end. -/
def readSpan (rules : Rules) (ts : List IndexedToken) (t : Tree) (span : Span) : Tree :=
  let (t, id) := readNode rules t (span.tokens ts)
  { t with attributes := t.attributes.setSpan id span }.push id

/-- The byte at which the last of the spans ends. -/
def lastPosition? (ts : List Token) (spans : List Span) : Option Nat := do
  let last ← spans.getLast?
  let token ← ts[last.stop - 1]?
  return token.stop

/-- The tree of a comment with these tokens. -/
def ofTokens (rules : Rules) (ts : List Token) : Tree :=
  let spans := Token.spans ts
  let t := spans.foldl (readSpan rules (Token.indexed ts)) {}
  match lastPosition? ts spans with
  | none => t
  | some n => { t with attributes := t.attributes.setLastTokenPosition n }

end DocComment.Tree
