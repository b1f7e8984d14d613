import DocComment.Tag.Value

/-!
# Nodes

A comment is made of nodes: paragraphs of prose, and tags. A tag whose payload has parts of its own,
such as the parameters of a method, is a container, and its parts are fragments. Nodes are known by
the order in which they were made.
-/

namespace DocComment

/-- The number of a node among those of its comment, in the order in which they were made. -/
abbrev NodeId := Nat

/-- A run of tokens, from index `start` up to `stop`. -/
structure Span where
  start : Nat
  stop : Nat
  deriving DecidableEq, Repr, Inhabited

namespace Span

/-- Whether the other span lies within this one. -/
def contains (s t : Span) : Bool := s.start ≤ t.start && t.stop ≤ s.stop

/-- Whether the span has no token. -/
def isEmpty (s : Span) : Bool := s.stop ≤ s.start

end Span

/-- A part of a comment. -/
inductive Node where
  /-- A paragraph. -/
  | prose (text : Text)
  | tag (name : Text) (value : TagValue)
  /-- A part of a container. -/
  | fragment (text : Text)
  /-- A tag with fragments. -/
  | container (name : Text) (signature : Signature) (fragments : List NodeId) (description : Text)
  deriving DecidableEq, Repr, Inhabited

namespace Node

/-- The name of a tag. -/
def tagName? : Node → Option Text
  | .tag name _ | .container name .. => some name
  | .prose _ | .fragment _ => none

/-- The value of a tag without fragments. -/
def value? : Node → Option TagValue
  | .tag _ value => some value
  | _ => none

/-- The type that a tag states, which for a method is the one it returns. -/
def type? : Node → Option TypeExpr
  | .tag _ value => value.type?
  | .container _ signature .. => signature.returnType?
  | .prose _ | .fragment _ => none

/-- The fragments of a container. -/
def fragments : Node → List NodeId
  | .container _ _ fragments _ => fragments
  | _ => []

end Node

end DocComment
