import DocComment.Command.Arguments
import DocComment.Command.Edit
import DocComment.Report.Nodes
import DocComment.Report.RoundTrip
import DocComment.Report.Tokens

/-!
# Running commands

A command is run on a tree of files and ends with an outcome. All but the one that writes settings
read the settings first.
-/

namespace DocComment

open Text

namespace SourceFile

/-- The tokens of the comments of a file. -/
def tokenReports (f : SourceFile) : List TokenReport :=
  f.entries.map fun e => ⟨e.subject, e.line, Token.scan (f.blockText e)⟩

/-- The nodes of the comments of a file. -/
def blockReports (rules : Rules) (f : SourceFile) : List BlockReport :=
  (f.entries.zip f.declarations).map fun (e, d) =>
    .ofBlock e.subject e.line (((d.attachOrEmpty rules).block?).getD (.empty rules d.id))

/-- What is wrong with a comment that printing does not give back. -/
def mismatch? (rules : Rules) (p : Printer) (f : SourceFile) (e : SourceEntry) (d : Declaration) :
    Option Mismatch :=
  let found (detail : Text) : Option Mismatch := some ⟨f.path, e.line, detail⟩
  match (d.attachOrEmpty rules).block? with
  | none => found "no doc block attached".toList
  | some b =>
    if Token.source b.tokens ≠ f.blockText e then
      found "token stream does not reconstruct the block".toList
    else match d.print p b with
      | .ok text =>
        if text = f.blockText e then none else found "printed block differs from source".toList
      | .error failure => found failure.message

end SourceFile

namespace RoundTripReport

/-- Adds one file, or why it could not be read, to the check of the files before it. -/
def checkFile (s : Settings) (report : RoundTripReport) (path : Text) :
    Except Failure SourceFile → RoundTripReport
  | .error _ => { report with skipped := report.skipped ++ [path] }
  | .ok f => {
    report with
    files := report.files + 1
    blocks := report.blocks + f.entries.length
    mismatches := report.mismatches
      ++ (f.entries.zip f.declarations).filterMap fun (e, d) => f.mismatch? s.rules s.printer e d }

/-- Checks files in this order. -/
def ofFiles (s : Settings) (results : List (Text × Except Failure SourceFile)) :
    RoundTripReport :=
  results.foldl (fun report (path, result) => report.checkFile s path result) {}

end RoundTripReport

/-- The code and the output of a run that is not broken off. -/
structure Printed where
  code : Nat := 0
  output : Text := []
  deriving DecidableEq, Repr, Inhabited

namespace Command

/-- Reads the source file that a command is about. -/
def readSource (path : Text) : Run SourceFile := do
  let f ← Run.orFault .failure ((← Run.files).extract path)
  Run.tell [.scanned path f.language f.entries.length]
  return f

/-- Runs a command with settings. -/
def runWith (s : Settings) : Command → Run Printed
  | .tokens path format => do
    let f ← readSource path
    return { output := TokenReport.write format false f.tokenReports ++ ['\n'] }
  | .parse path format => do
    let f ← readSource path
    return { output := BlockReport.write format false (f.blockReports s.rules) ++ ['\n'] }
  | .roundTrip path format => do
    let fs ← Run.files
    let results := (fs.collect s.scan path).map fun path => (path, fs.extract path)
    Run.tell (results.map fun (path, result) => .ofExtract path result)
    let report := RoundTripReport.ofFiles s results
    return { code := if report.passed then 0 else 1
             output := report.write format false ++ ['\n'] }
  | .edit path plan write format => do
    let report ← Files.editAll s plan write ((← Run.files).collect s.scan path)
    return { output := report.write format false ++ ['\n'] }
  | .init _ => return {}

/-- Writes the default settings to a file that is not there yet. -/
def writeSettings (output : Text) : Run Printed := do
  let fs ← Run.files
  if fs.hasPath output then throw (.exists output)
  Run.setFiles (← Run.orFault .failure (fs.saveSettings output {}))
  Run.tell [.settingsWritten output]
  return {}

end Command

namespace Invocation

/-- Reads the settings. -/
def load (i : Invocation) : Run Settings := do
  let fs ← Run.files
  unless fs.hasPath i.settings do
    Run.tell [.settingsMissing i.settings]
  Run.orFault (.loading i.settings) (fs.loadSettingsOrDefault i.settings)

/-- Runs a command. -/
def run (i : Invocation) : Run Printed := do
  match i.command with
  | .init output => Command.writeSettings output
  | command => command.runWith (← i.load)

end Invocation

/-- The version of the program, as it says it. -/
def versionLine : Text := "docblock 0.1.0\n".toList

/-- The help of the program. -/
def helpText : Text := String.toList <|
  "Format-preserving doc block parser and printer\n\n" ++
  "Usage: docblock [OPTIONS] <COMMAND>\n\n" ++
  "Commands: tokens PATH, parse PATH, roundtrip [PATH], edit PATH, init\n" ++
  "Options:  -c/--config FILE, -v/--verbose, -f/--format text|json|json-pretty\n" ++
  "edit:     --remove NAME, --replace NAME=PAYLOAD, --add NAME=PAYLOAD, --write\n" ++
  "init:     -o/--output FILE\n"

/-- How a request ends. -/
def Request.outcome (fs : Files) : Request → Outcome
  | .help => { code := 0, output := helpText, files := fs }
  | .version => { code := 0, output := versionLine, files := fs }
  | .misuse cause => { code := 2, error? := some cause.message, files := fs }
  | .run invocation =>
    let (result, s) := invocation.run.run.run { files := fs }
    let notices := s.notices.filter fun n => invocation.verbose || !n.isDetail
    match result with
    | .ok printed => { printed with notices, files := s.files }
    | .error fault =>
      { code := 2, notices, error? := some ("Error: ".toList ++ fault.message), files := s.files }

/-- How a run with these arguments ends. -/
def run (fs : Files) (args : List Text) : Outcome := (Arguments.request args).outcome fs

end DocComment
