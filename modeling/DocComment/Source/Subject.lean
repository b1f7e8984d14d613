import DocComment.Text.Alphanumeric
import DocComment.Text.WhiteSpace

/-!
# Subjects of comments

A comment is about the declaration below it, which is named by the word after a keyword, else by its
first variable, else by the start of its line.
-/

namespace DocComment

open Text

/-- The characters that start a name. -/
def isNameStart (c : Char) : Bool := c.isAlpha || c = '_'

/-- The characters of a name. -/
def isNameChar (c : Char) : Bool := c.isAlphanum || c = '_'

/-- The name at the start of a text. -/
def leadingName? : Text → Option Text
  | [] => none
  | c :: cs => if isNameStart c then some (c :: cs.takeWhile isNameChar) else none

/-- The words after which a declaration is named. -/
def declarationKeywords : List Text :=
  ["function", "fn", "class", "interface", "trait", "enum", "struct", "const", "var", "let"].map
    String.toList

/-- What follows `c`, or the text itself if it does not start with it. -/
def dropOptional (c : Char) (s : Text) : Text := (dropPrefix? [c] s).getD s

/-- The name after one of the keywords at the start of a text. White space must stand between them,
and marks of references and variables may stand in front of the name. -/
def nameAfterKeyword? (s : Text) : Option Text :=
  declarationKeywords.findSome? fun keyword => do
    let rest ← dropPrefix? keyword s
    if rest.head?.all (!isWhiteSpace ·) then none
    leadingName? (dropOptional '$' (dropOptional '&' (trimStart rest)))

/-- The first declared name in a text. A keyword counts only as a whole word, so `inWord` says
whether a part of a word stands in front of the text. -/
def declaredName? (inWord : Bool) : Text → Option Text
  | [] => none
  | c :: cs =>
    (if inWord then none else nameAfterKeyword? (c :: cs)) <|> declaredName? (isWordPart c) cs

/-- The first variable in a text, with its `$`. -/
def firstVariable? : Text → Option Text
  | [] => none
  | c :: cs =>
    (if c = '$' then (leadingName? cs).map ('$' :: ·) else none) <|> firstVariable? cs

/-- The number of characters of a line that stand for its declaration if nothing is named. -/
def subjectLength : Nat := 60

/-- What a line declares. -/
def subjectOf (line : Text) : Text :=
  (declaredName? false line <|> firstVariable? line).getD (line.take subjectLength)

end DocComment
