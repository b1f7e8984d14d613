import DocComment.Source.Extract

/-!
# Putting comments back

A source text gets new comments by replacing regions of it. A comment that is kept changes nothing,
a new one takes the place of the old, and one that is removed takes its lines with it.
-/

namespace DocComment

open Text

/-- A text for the bytes from `start` up to `stop`. -/
structure Replacement where
  start : Nat
  stop : Nat
  text : Text
  deriving DecidableEq, Repr, Inhabited

/-- The rest of a source text from byte `cursor` on, with replacements made in ascending order. -/
def splice (source : Text) (cursor : Nat) : List Replacement → Text
  | [] => dropBytes cursor source
  | r :: rs => slice cursor r.start source ++ r.text ++ splice source r.stop rs

namespace SourceFile

/-- The byte at which the lines of a comment end: after the next line feed, unless there is more
than white space before it. -/
def linesEnd (f : SourceFile) (e : SourceEntry) : Nat :=
  match cutAt? ['\n'] (dropBytes e.stop f.source) with
  | some (between, _) => if trim between = [] then e.stop + byteSize between + 1 else e.stop
  | none => e.stop

/-- The replacement that puts `doc?` in the place of a comment, if anything changes. -/
def replacement? (f : SourceFile) (e : SourceEntry) (doc? : Option Text) : Option Replacement :=
  match doc? with
  | some text => if text = f.blockText e then none else some ⟨e.start, e.stop, text⟩
  | none => some ⟨e.start - byteSize e.indentation, f.linesEnd e, []⟩

/-- The source text with these comments, one for every entry. -/
def replaceDocs (f : SourceFile) (docs : List (Option Text)) : Except Failure Text :=
  if docs.length ≠ f.entries.length then
    throw (.declarationCount f.entries.length docs.length)
  else
    pure (splice f.source 0 ((f.entries.zip docs).filterMap fun (e, doc?) => f.replacement? e doc?))

end SourceFile

end DocComment
