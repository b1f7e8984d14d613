import DocComment.Declaration
import DocComment.Source.Language
import DocComment.Source.Subject

/-!
# Comments of source files

The documentation comments of a source text are found from left to right: each reaches from its
opening delimiter to the first closing one, and must have nothing but blanks in front of it on its
line. With each go its place, its indentation, what it is about, and the other comments around it.
-/

namespace DocComment

open Text

/-- A documentation comment in a source text, at the bytes from `start` up to `stop`. -/
structure SourceEntry where
  start : Nat
  stop : Nat
  /-- The number of its first line, counted from one. -/
  line : Nat
  indentation : Text
  /-- The declaration that the comment is about. -/
  subject : Text
  /-- The other comments directly above and below. -/
  comments : List Text
  deriving DecidableEq, Repr, Inhabited

/-- A source text with its documentation comments. -/
structure SourceFile where
  path : Text
  language : Language
  source : Text
  entries : List SourceEntry
  deriving DecidableEq, Repr, Inhabited

/-! ### Finding comments -/

/-- The bytes of the comments in a text that starts at byte `start`: from `docStart` to the first
`blockEnd`, whose star may be the second one of `docStart`. -/
def commentRanges (start : Nat) (s : Text) : List (Nat × Nat) :=
  match cutAt? docStart s with
  | none => []
  | some (before, afterStart) =>
    match cutAt? blockEnd ('*' :: afterStart) with
    | none => []
    | some (body, after) =>
      let first := start + byteSize before
      let stop := first + 2 + byteSize body + 2
      if after.length < s.length then (first, stop) :: commentRanges stop after
      else [(first, stop)]
termination_by s.length

/-- The start of the line that a text ends in. -/
def lastLine (s : Text) : Text := (s.reverse.takeWhile (· ≠ '\n')).reverse

/-- The lines in front of the one that a text ends in. -/
def linesBeforeLast (s : Text) : Text := (s.reverse.dropWhile (· ≠ '\n')).reverse

/-! ### What stands around them -/

/-- Whether a line is a comment that does not document anything. -/
def Language.isCommentLine (l : Language) (line : Text) : Bool :=
  let s := trimStart line
  l.lineMarks.any (fun mark => (dropPrefix? mark s).isSome)
    || ((dropPrefix? blockStart s).isSome && (dropPrefix? docStart s).isNone
      && (dropPrefix? blockEnd.reverse (trimEnd s).reverse).isSome)

/-- The comments directly above, from top to bottom. -/
def Language.commentsAbove (l : Language) (before : Text) : List Text :=
  (((lines before).reverse.takeWhile l.isCommentLine).map trim).reverse

/-- The comments below, and what the first line that is neither empty nor a comment declares. -/
def Language.below (l : Language) : List Text → List Text × Text
  | [] => ([], [])
  | line :: rest =>
    if trim line = [] then l.below rest
    else if l.isCommentLine line then
      let (comments, subject) := l.below rest
      (trim line :: comments, subject)
    else ([], subjectOf (trim line))

/-- The entry for a comment, if it documents anything: a comment of four bytes is an empty one, and
one behind code belongs to that code. -/
def SourceEntry.ofRange? (l : Language) (source : Text) (range : Nat × Nat) :
    Option SourceEntry :=
  let (start, stop) := range
  let before := takeBytes start source
  let indentation := lastLine before
  if stop - start < 5 || !indentation.all isBlank then none
  else
    let (commentsBelow, subject) := l.below (lines (dropBytes stop source))
    some {
      start, stop, indentation, subject
      line := before.count '\n' + 1
      comments := l.commentsAbove (linesBeforeLast before) ++ commentsBelow }

namespace SourceFile

/-- A source text with the comments found in it. -/
def extract (path : Text) (language : Language) (source : Text) : SourceFile where
  path
  language
  source
  entries := (commentRanges 0 source).filterMap (SourceEntry.ofRange? language source)

/-- The text of a comment. -/
def blockText (f : SourceFile) (e : SourceEntry) : Text := slice e.start e.stop f.source

/-- A declaration for every comment, numbered in order. -/
def declarations (f : SourceFile) : List Declaration :=
  f.entries.zipIdx.map fun (e, i) => {
    id := i, name := e.subject, doc? := some (f.blockText e), comments := e.comments,
    indentation := e.indentation }

end SourceFile

end DocComment
