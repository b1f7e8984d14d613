import DocComment.Block.Basic
import DocComment.Report.Basic

/-!
# Reports on nodes

The nodes of a comment, with their tokens, their attributes and their written forms. The parts of a
container are reported below it.
-/

namespace DocComment

open Text

/-- What is reported of a node without those below it. -/
structure NodeSummary where
  id : NodeId
  kind : Text
  tag? : Option Text
  span? : Option Span
  /-- The attributes but the span, by their names in ascending order. -/
  attributes : List (Text × Attribute.Value)
  written : Text
  deriving Repr, Inhabited

/-- A node with its fragments. -/
structure NodeReport where
  summary : NodeSummary
  fragments : List NodeSummary
  deriving Repr, Inhabited

/-- The nodes of a comment. -/
structure BlockReport where
  subject : Text
  line : Nat
  nodes : List NodeReport
  deriving Repr, Inhabited

namespace NodeSummary

/-- The word for the kind of a node. -/
def kindOf : Option Node → Text
  | some (.prose _) => "text".toList
  | some (.tag ..) => "tag".toList
  | some (.fragment _) => "leaf".toList
  | some (.container ..) => "container".toList
  | none => "missing".toList

/-- What is reported of a node of a block. -/
def ofNode (b : Block) (id : NodeId) : NodeSummary where
  id
  kind := kindOf (b.tree.node? id)
  tag? := (b.tree.node? id).bind Node.tagName?
  span? := b.tree.attributes.span? id
  attributes :=
    let others := (b.tree.attributes.all (.node id)).filter (·.1 ≠ .startAndEnd)
    (others.map fun (key, value) => (key.text, value)).mergeSort fun x y => !(decide (y.1 < x.1))
  written := b.write id

/-- The span in the JSON form. -/
def spanJson (s : Span) : Json :=
  .object (Json.member "start" (.number s.start) ++ Json.member "end" (.number s.stop))

/-- The value of an attribute in the JSON form. -/
def valueJson : Attribute.Value → Json
  | .span s => spanJson s
  | .flag b => .bool b
  | .offset n => .number n
  | .text s => .string s

/-- The JSON form, with the nodes below this one. -/
def json (n : NodeSummary) (fragments : List Json) : Json :=
  .object (Json.member "id" (.number n.id) ++ Json.member "kind" (.string n.kind)
    ++ Json.member? "tag" (n.tag?.map .string) ++ Json.member? "span" (n.span?.map spanJson)
    ++ (if n.attributes = [] then []
      else Json.member "attributes" (.object (n.attributes.map fun (k, v) => (k, valueJson v))))
    ++ Json.member "rendered" (.string n.written) ++ Json.listMember "children" fragments)

/-- The line of a node in the form for readers. -/
def line (styled : Bool) (depth : Nat) (n : NodeSummary) : Text :=
  let span := n.span?.elim "[new]".toList fun s =>
    '[' :: decimal s.start ++ ['.', '.'] ++ decimal s.stop ++ [']']
  let flags := n.attributes.flatMap fun (key, _) => [' ', '<'] ++ key ++ ['>']
  Report.line [
    List.replicate (2 * depth) ' ', Style.apply styled .bold n.kind, [' '],
    Style.apply styled .dimmed span, Style.apply styled .yellow flags, [' '],
    (lines n.written).headD []]

end NodeSummary

namespace BlockReport

/-- The report on a block. -/
def ofBlock (subject : Text) (line : Nat) (b : Block) : BlockReport where
  subject
  line
  nodes := b.tree.top.map fun id =>
    ⟨.ofNode b id, (b.tree.fragments id).map (NodeSummary.ofNode b)⟩

/-- The JSON form. -/
def json (r : BlockReport) : Json :=
  .object (Json.member "subject" (.string r.subject) ++ Json.member "line" (.number r.line)
    ++ Json.member "nodes" (.array (r.nodes.map fun n =>
      n.summary.json (n.fragments.map fun f => f.json []))))

/-- The form for readers. -/
def text (styled : Bool) (r : BlockReport) : Text :=
  Report.headLine styled r.subject r.line ++ r.nodes.flatMap fun n =>
    n.summary.line styled 1 ++ n.fragments.flatMap (NodeSummary.line styled 2)

/-- Several reports in one of their forms. -/
def write (format : Report.Format) (styled : Bool) (rs : List BlockReport) : Text :=
  Report.write format (rs.flatMap (text styled)) (.array (rs.map json))

end BlockReport

end DocComment
