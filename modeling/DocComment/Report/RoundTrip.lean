import DocComment.Report.Basic

/-!
# Reports on printing

Whether printing gives back the comments of files. A run passes if there is no comment that it does
not give back.
-/

namespace DocComment

open Text

/-- A comment that printing does not give back. -/
structure Mismatch where
  path : Text
  line : Nat
  detail : Text
  deriving DecidableEq, Repr, Inhabited

/-- What came of printing the comments of files without edits. -/
structure RoundTripReport where
  files : Nat := 0
  blocks : Nat := 0
  mismatches : List Mismatch := []
  /-- The files that could not be read. -/
  skipped : List Text := []
  deriving DecidableEq, Repr, Inhabited

namespace RoundTripReport

/-- Whether printing gave every comment back. -/
def passed (r : RoundTripReport) : Bool := r.mismatches.isEmpty

/-- The JSON form. -/
def json (r : RoundTripReport) : Json :=
  .object (Json.member "files" (.number r.files) ++ Json.member "blocks" (.number r.blocks)
    ++ Json.member "mismatches" (.array (r.mismatches.map fun m =>
      .object (Json.member "path" (.string m.path) ++ Json.member "line" (.number m.line)
        ++ Json.member "detail" (.string m.detail))))
    ++ Json.listMember "skipped" (r.skipped.map .string))

/-- The form for readers. -/
def text (styled : Bool) (r : RoundTripReport) : Text :=
  (r.mismatches.flatMap fun m => Report.line [
    Style.apply styled .boldRed "ERROR".toList, [' '], Style.apply styled .dimmed m.path, [':'],
    decimal m.line, " - ".toList, m.detail])
  ++ Report.skippedLines styled r.skipped
  ++ Report.line ["Checked ".toList, decimal r.files, " files, ".toList, decimal r.blocks,
    " doc blocks".toList]
  ++ if r.passed then
      Report.line [Style.apply styled .boldGreen "OK".toList,
        " Every block printed back unchanged".toList]
    else
      Report.line [Style.apply styled .boldRed (decimal r.mismatches.length),
        " mismatches".toList]

/-- The report in one of its forms. -/
def write (format : Report.Format) (styled : Bool) (r : RoundTripReport) : Text :=
  Report.write format (r.text styled) r.json

end RoundTripReport

end DocComment
