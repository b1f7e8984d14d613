import DocComment.Report.Json
import DocComment.Report.Style

/-!
# Reports

What the program says about comments has a form for readers, with or without styles, and a JSON
form. This module holds what all reports share.
-/

namespace DocComment

open Text

/-- The form of a report. -/
inductive Report.Format where
  | text
  | json
  | prettyJson
  deriving DecidableEq, Repr, Inhabited

namespace Report

/-- A report in one of its forms. -/
def write (format : Format) (text : Text) (json : Json) : Text :=
  match format with
  | .text => text
  | .json => json.compact
  | .prettyJson => json.pretty

/-- A line of text. -/
def line (parts : List Text) : Text := parts.flatten ++ ['\n']

/-- The line above what is reported of one comment. -/
def headLine (styled : Bool) (subject : Text) (lineNumber : Nat) : Text :=
  line [Style.apply styled .cyan subject, " (line ".toList, decimal lineNumber, [')']]

/-- The lines for the files that could not be read. -/
def skippedLines (styled : Bool) (paths : List Text) : Text :=
  paths.flatMap fun path => line [Style.apply styled .boldYellow "SKIPPED".toList, [' '], path]

end Report

end DocComment
