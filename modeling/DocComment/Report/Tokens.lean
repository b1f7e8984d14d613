import DocComment.Report.Basic
import DocComment.Token

/-!
# Reports on tokens

The tokens of a comment, with the bytes that they take and their quoted texts.
-/

namespace DocComment

open Text

namespace Token

/-- The name of a kind in the form for readers. -/
def Kind.label : Kind → Text
  | .opening => "OpenTag".toList
  | .closing => "CloseTag".toList
  | .marker => "TagMarker".toList
  | .identifier => "Identifier".toList
  | .lineBreak => "Eol".toList
  | .blank => "Whitespace".toList
  | .text => "Text".toList
  | .sign => "Other".toList

/-- The name of a kind in the JSON form. -/
def Kind.key : Kind → Text
  | .opening => "open_tag".toList
  | .closing => "close_tag".toList
  | .marker => "tag_marker".toList
  | .identifier => "identifier".toList
  | .lineBreak => "eol".toList
  | .blank => "whitespace".toList
  | .text => "text".toList
  | .sign => "other".toList

/-- The style of a kind. -/
def Kind.style? : Kind → Option Style
  | .opening | .closing => some .magenta
  | .marker | .identifier => some .yellow
  | .lineBreak | .blank => some .dimmed
  | .text | .sign => none

/-- A token in the form for readers. -/
def reportLine (styled : Bool) (t : Token) : Text :=
  let label := padEnd 12 ' ' t.kind.label
  Report.line [
    [' ', ' '], padStart 5 ' ' (decimal t.start), ['.', '.'], padEnd 5 ' ' (decimal t.stop), [' '],
    t.kind.style?.elim label fun style => style.apply styled label, [' '], quoted t.text]

/-- A token in the JSON form. -/
def json (t : Token) : Json :=
  .object (Json.member "kind" (.string t.kind.key) ++ Json.member "text" (.string t.text)
    ++ Json.member "start" (.number t.start) ++ Json.member "end" (.number t.stop))

end Token

/-- The tokens of a comment. -/
structure TokenReport where
  subject : Text
  line : Nat
  tokens : List Token
  deriving Repr, Inhabited

namespace TokenReport

/-- The JSON form. -/
def json (r : TokenReport) : Json :=
  .object (Json.member "subject" (.string r.subject) ++ Json.member "line" (.number r.line)
    ++ Json.member "tokens" (.array (r.tokens.map Token.json)))

/-- The form for readers. -/
def text (styled : Bool) (r : TokenReport) : Text :=
  Report.headLine styled r.subject r.line ++ r.tokens.flatMap (Token.reportLine styled)

/-- Several reports in one of their forms. -/
def write (format : Report.Format) (styled : Bool) (rs : List TokenReport) : Text :=
  Report.write format (rs.flatMap (text styled)) (.array (rs.map json))

end TokenReport

end DocComment
