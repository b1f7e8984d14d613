import DocComment.Report.Basic

/-!
# Reports on edits

What an edit changes, or would change, in the comments of files.
-/

namespace DocComment

open Text

/-- A comment before and after an edit. -/
structure EditedBlock where
  subject : Text
  line : Nat
  before : Text
  /-- The new text, or none if the comment was removed. -/
  after? : Option Text
  deriving DecidableEq, Repr, Inhabited

/-- The comments of a file that an edit changes. -/
structure EditedFile where
  path : Text
  blocks : List EditedBlock
  deriving DecidableEq, Repr, Inhabited

/-- What an edit changes. -/
structure EditReport where
  files : List EditedFile := []
  /-- Whether the files were written. -/
  written : Bool := false
  /-- The files that could not be read. -/
  skipped : List Text := []
  deriving DecidableEq, Repr, Inhabited

namespace EditReport

/-- The JSON form. -/
def json (r : EditReport) : Json :=
  .object (Json.member "files" (.array (r.files.map fun f =>
      .object (Json.member "path" (.string f.path) ++ Json.member "blocks" (.array
        (f.blocks.map fun b => .object (Json.member "subject" (.string b.subject)
          ++ Json.member "line" (.number b.line) ++ Json.member "before" (.string b.before)
          ++ Json.member? "after" (b.after?.map .string)))))))
    ++ Json.member "written" (.bool r.written)
    ++ Json.listMember "skipped" (r.skipped.map .string))

/-- A line of a comment, with a sign in front that says whether it is old or new. -/
def changeLine (styled : Bool) (style : Style) (s : Text) : Text :=
  Report.line ["    ".toList, style.apply styled s]

/-- A changed comment in the form for readers. -/
def blockText (styled : Bool) (b : EditedBlock) : Text :=
  Report.line [[' ', ' '], Style.apply styled .cyan b.subject, " (line ".toList, decimal b.line,
    "):".toList]
  ++ (lines b.before).flatMap (fun l => changeLine styled .red (['-', ' '] ++ l))
  ++ match b.after? with
    | some after => (lines after).flatMap fun l => changeLine styled .green (['+', ' '] ++ l)
    | none => changeLine styled .dimmed "(removed)".toList

/-- The form for readers. -/
def text (styled : Bool) (r : EditReport) : Text :=
  (r.files.flatMap fun f =>
    Report.line [Style.apply styled .bold f.path] ++ f.blocks.flatMap (blockText styled))
  ++ Report.skippedLines styled r.skipped
  ++ Report.line [(if r.written then "Rewrote ".toList else "Would rewrite ".toList),
    decimal (r.files.flatMap (·.blocks)).length, " doc blocks".toList]

/-- The report in one of its forms. -/
def write (format : Report.Format) (styled : Bool) (r : EditReport) : Text :=
  Report.write format (r.text styled) r.json

end EditReport

end DocComment
