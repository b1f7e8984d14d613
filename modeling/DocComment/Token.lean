import DocComment.Text.WhiteSpace

/-!
# Tokens of a comment

The text of a documentation comment, with or without its delimiters, is cut into tokens. Nothing is
lost: a token keeps its text and the byte at which it starts, and the tokens' texts join to the
whole (`Token.source`).

A line break owns what decorates the line after it: the indentation, a star that does not close the
comment, and at most one space. So the tokens of a line are the same wherever the line stands.
-/

namespace DocComment

/-- What a token of a comment is. -/
inductive Token.Kind where
  /-- The opening delimiter, only at the start. -/
  | opening
  /-- The closing delimiter, a star and a slash. -/
  | closing
  /-- The `@` in front of a tag name. -/
  | marker
  /-- A tag name after its marker, or a word. -/
  | identifier
  /-- A line feed with the decoration of the line after it. -/
  | lineBreak
  /-- Spaces and tabs. -/
  | blank
  /-- Other text. -/
  | text
  /-- One sign of those that types are made of. -/
  | sign
  deriving DecidableEq, Repr, Inhabited

/-- A piece of a comment. -/
structure Token where
  kind : Token.Kind
  text : Text
  /-- The byte at which the token starts. -/
  start : Nat
  deriving DecidableEq, Repr, Inhabited

namespace Token

open Text

/-- The byte at which the token ends. -/
def stop (t : Token) : Nat := t.start + byteSize t.text

/-- Line breaks and blanks stand between nodes or inside them, and never start or end one. -/
def isSeparator (t : Token) : Bool := t.kind = .lineBreak || t.kind = .blank

/-- The text that the tokens were cut from. -/
def source (ts : List Token) : Text := ts.flatMap (·.text)

/-! ### Classes of characters -/

/-- The characters that may follow the `@` of a tag. -/
def isTagNameStart (c : Char) : Bool := c.isAlphanum || c = '_' || c = '\\'

/-- The characters of a tag name. -/
def isTagNameChar (c : Char) : Bool :=
  c.isAlphanum || c = '_' || c = '-' || c = '\\' || c = ':'

/-- The characters that start a word. -/
def isWordStart (c : Char) : Bool := c.isAlpha || c = '_' || c = '\\' || c = '$'

/-- The characters of a word. -/
def isWordChar (c : Char) : Bool := c.isAlphanum || c = '_' || c = '\\' || c = '$'

/-- The signs that are tokens of their own. -/
def isSign (c : Char) : Bool :=
  c ∈ ['|', '&', '?', '<', '>', '(', ')', '[', ']', '\x7b', '\x7d', ',', '=', ':', ';']

/-! ### Cutting -/

/-- The decoration at the start of a line: blanks, then a star that does not close the comment, then
one space. -/
def decoration (s : Text) : Text :=
  s.takeWhile isBlank ++
    match s.dropWhile isBlank with
    | '*' :: '/' :: _ => []
    | '*' :: ' ' :: _ => ['*', ' ']
    | '*' :: _ => ['*']
    | _ => []

/-- Whether a tag starts here. -/
def startsTag : Text → Bool
  | '@' :: c :: _ => isTagNameStart c
  | _ => false

/-- Whether plain text stops here because a token of another kind starts. -/
def startsSpecial : Text → Bool
  | [] => true
  | '\r' :: '\n' :: _ => true
  | '*' :: '/' :: _ => true
  | c :: cs => isBlank c || c = '\n' || startsTag (c :: cs) || isWordStart c || isSign c

/-- The start of a text up to the first place where a token of another kind starts. -/
def plain : Text → Text
  | [] => []
  | c :: cs => if startsSpecial (c :: cs) then [] else c :: plain cs

/-- The kind of the token that starts with `c`, and what it takes of the text `cs` after `c`. A tag
name may follow only directly after its marker. -/
def next (afterMarker : Bool) (c : Char) (cs : Text) : Kind × Text :=
  match c, cs with
  | '*', '/' :: _ => (.closing, ['/'])
  | '\r', '\n' :: rest => (.lineBreak, '\n' :: decoration rest)
  | '\n', _ => (.lineBreak, decoration cs)
  | _, _ =>
    if afterMarker && isTagNameChar c then (.identifier, cs.takeWhile isTagNameChar)
    else if startsTag (c :: cs) then (.marker, [])
    else if isBlank c then (.blank, cs.takeWhile isBlank)
    else if isWordStart c then (.identifier, cs.takeWhile isWordChar)
    else if isSign c then (.sign, [])
    else (.text, plain cs)

/-- The tokens of a text that starts at byte `start`. -/
def scanFrom (afterMarker : Bool) (start : Nat) : Text → List Token
  | [] => []
  | c :: cs =>
    let (kind, more) := next afterMarker c cs
    let text := c :: more
    ⟨kind, text, start⟩ ::
      scanFrom (kind = .marker) (start + byteSize text) (cs.drop more.length)
termination_by s => s.length
decreasing_by simp only [List.length_drop, List.length_cons]; omega

/-- The tokens of a comment. The opening delimiter has two stars if the comment starts so, else
one. -/
def scan (s : Text) : List Token :=
  match s with
  | '/' :: '*' :: '*' :: rest => ⟨.opening, ['/', '*', '*'], 0⟩ :: scanFrom false 3 rest
  | '/' :: '*' :: rest => ⟨.opening, ['/', '*'], 0⟩ :: scanFrom false 2 rest
  | _ => scanFrom false 0 s

end Token

end DocComment
