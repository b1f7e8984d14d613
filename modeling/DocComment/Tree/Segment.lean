import DocComment.Node
import DocComment.Token

/-!
# Segments of a comment

The tokens of a comment that are no separators belong to nodes. A new node starts after a blank
line, which is two line breaks, and with a tag at the start of a line. Separators between two tokens
of one node belong to it; those at its ends do not.
-/

namespace DocComment

/-- A token with its index. -/
abbrev IndexedToken := Token × Nat

/-- The indexes of the tokens that belong to nodes, up to the closing delimiter. With each goes
whether a node starts there because of the separators in front of it, among them `breaks` line
breaks that have been passed. -/
def contentIndexes (breaks : Nat) : List IndexedToken → List (Nat × Bool)
  | [] => []
  | (t, i) :: rest =>
    match t.kind with
    | .closing => []
    | .lineBreak => contentIndexes (breaks + 1) rest
    | .blank => contentIndexes breaks rest
    | kind => (i, 2 ≤ breaks || (1 ≤ breaks && kind = .marker)) :: contentIndexes 0 rest

namespace Span

/-- The spans of the nodes that content tokens form. The first token starts a node in any case. -/
def group : List (Nat × Bool) → List Span
  | [] => []
  | (i, _) :: rest =>
    match rest, group rest with
    | (_, false) :: _, s :: spans => ⟨i, s.stop⟩ :: spans
    | _, spans => ⟨i, i + 1⟩ :: spans

end Span

namespace Token

/-- The tokens with their indexes. -/
def indexed (ts : List Token) : List IndexedToken := ts.zipIdx

/-- The tokens after the opening delimiter, if there is one. -/
def afterOpening (ts : List IndexedToken) : List IndexedToken :=
  match ts with
  | (t, i) :: rest => if t.kind = .opening then rest else (t, i) :: rest
  | [] => []

/-- The spans of the nodes of a comment. -/
def spans (ts : List Token) : List Span :=
  Span.group (contentIndexes 0 (afterOpening (indexed ts)))

end Token

/-- The tokens of a span. -/
def Span.tokens (s : Span) (ts : List α) : List α := (ts.drop s.start).take (s.stop - s.start)

/-! ### Folded text -/

/-- Tokens without the layout of their lines: a line break stands for a line feed, and the blanks
after it are dropped. Each piece but the line feeds keeps the index of its token. -/
def foldLines (afterBreak : Bool) : List IndexedToken → List (Text × Option Nat)
  | [] => []
  | (t, i) :: rest =>
    match t.kind with
    | .lineBreak => (['\n'], none) :: foldLines true rest
    | .blank =>
      if afterBreak then foldLines true rest else (t.text, some i) :: foldLines false rest
    | _ => (t.text, some i) :: foldLines false rest

/-- Where the text of a token stands in a folded text. -/
structure Placed where
  index : Nat
  start : Nat
  stop : Nat
  deriving DecidableEq, Repr, Inhabited

namespace Placed

/-- The places of pieces that follow each other from byte `start`. -/
def ofPieces (start : Nat) : List (Text × Option Nat) → List Placed
  | [] => []
  | (text, index?) :: rest =>
    let stop := start + Text.byteSize text
    match index? with
    | none => ofPieces stop rest
    | some index => ⟨index, start, stop⟩ :: ofPieces stop rest

/-- The tokens whose texts make up the bytes from `start` up to `stop`, if there are any and the
bytes begin and end with them. -/
def span? (places : List Placed) (start stop : Nat) : Option Span :=
  let inside := places.filter fun p => start ≤ p.start && p.stop ≤ stop
  match inside.head?, inside.getLast? with
  | some first, some last =>
    if first.start = start && last.stop = stop then some ⟨first.index, last.index + 1⟩ else none
  | _, _ => none

end Placed

end DocComment
