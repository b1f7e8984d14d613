import DocComment.Files
import DocComment.Report.Basic

/-!
# Commands

What the program can be asked to do, what a run of it tells on its way, and how it ends.
-/

namespace DocComment

open Text

/-- The edits of a run, which every comment gets in this order. -/
structure EditPlan where
  /-- The names of tags to remove. -/
  remove : List Text := []
  /-- Names and payloads of tags to replace where they exist. -/
  replace : List (Text × Text) := []
  /-- Names and payloads of tags to add. -/
  add : List (Text × Text) := []
  deriving DecidableEq, Repr, Inhabited

/-- A request to the program. -/
inductive Command where
  /-- Shows the tokens of the comments of a file. -/
  | tokens (path : Text) (format : Report.Format)
  /-- Shows the nodes of the comments of a file. -/
  | parse (path : Text) (format : Report.Format)
  /-- Checks that printing gives back every comment. -/
  | roundTrip (path : Text) (format : Report.Format)
  /-- Edits every comment, and writes the files back if asked to. -/
  | edit (path : Text) (plan : EditPlan) (write : Bool) (format : Report.Format)
  /-- Writes the default settings. -/
  | init (output : Text)
  deriving DecidableEq, Repr, Inhabited

/-- The path that a command is about. -/
def Command.path : Command → Text
  | .tokens path _ | .parse path _ | .roundTrip path _ | .edit path .. | .init path => path

/-- The file that settings are read from and written to by default. -/
def settingsFile : Text := "docblock.toml".toList

/-- A command with the file of its settings. -/
structure Invocation where
  settings : Text := settingsFile
  /-- Whether details are told besides what matters. -/
  verbose : Bool := false
  command : Command
  deriving DecidableEq, Repr, Inhabited

/-- Why a run breaks off. -/
inductive Fault where
  | failure (cause : Failure)
  /-- The settings cannot be read. -/
  | loading (path : Text) (cause : Failure)
  /-- A source file cannot be written. -/
  | writing (path : Text) (cause : ReadFault)
  /-- There is already a file of settings. -/
  | exists (path : Text)
  deriving DecidableEq, Repr, Inhabited

/-- The text of a failure and of the one that it comes from. -/
def Failure.chain (f : Failure) : Text :=
  match f with
  | .file _ fault | .storage fault => f.message ++ [':', ' '] ++ fault.message
  | f => f.message

/-- The text of a fault for readers. -/
def Fault.message : Fault → Text
  | .failure cause => cause.chain
  | .loading path cause => "Failed to load ".toList ++ path ++ [':', ' '] ++ cause.chain
  | .writing path cause => "Failed to write ".toList ++ path ++ [':', ' '] ++ cause.message
  | .exists path => path ++ " already exists".toList

/-! ### Notices -/

/-- What is told about a file besides the output. -/
inductive Notice where
  /-- A file was left out because it could not be read. -/
  | skipped (path : Text) (cause : Failure)
  /-- Comments of a file were written back. -/
  | rewritten (path : Text) (count : Nat)
  | settingsWritten (path : Text)
  /-- There is no file of settings, so they are the default ones. -/
  | settingsMissing (path : Text)
  /-- Comments were found in a file. -/
  | scanned (path : Text) (language : Language) (count : Nat)
  deriving DecidableEq, Inhabited

namespace Notice

/-- Whether a notice is a detail. -/
def isDetail : Notice → Bool
  | .settingsMissing _ | .scanned .. => true
  | .skipped .. | .rewritten .. | .settingsWritten _ => false

/-- The notice on the reading of a source file. -/
def ofExtract (path : Text) : Except Failure SourceFile → Notice
  | .ok f => .scanned path f.language f.entries.length
  | .error cause => .skipped path cause

/-- The text for readers. -/
def message : Notice → Text
  | .skipped path cause => "Skipping ".toList ++ path ++ [':', ' '] ++ cause.message
  | .rewritten path count =>
    "Rewrote ".toList ++ decimal count ++ " doc blocks in ".toList ++ path
  | .settingsWritten path => "Wrote default configuration to ".toList ++ path
  | .settingsMissing path => "No config at ".toList ++ path ++ ", using defaults".toList
  | .scanned path language count =>
    "Found ".toList ++ decimal count ++ [' '] ++ language.name ++ " doc blocks in ".toList ++ path

/-- How much a notice matters. -/
def level : Notice → Text
  | .skipped .. => "WARN".toList
  | .rewritten .. | .settingsWritten _ => "INFO".toList
  | .settingsMissing _ | .scanned .. => "DEBUG".toList

/-- The text for readers, after its level and the name of the program. -/
def line (n : Notice) : Text := n.level ++ " docblock: ".toList ++ n.message

end Notice

/-! ### Runs -/

/-- The state of a run: its files, and what has been told. -/
structure RunState where
  files : Files
  notices : List Notice := []
  deriving Inhabited

/-- A run that may break off, and leaves files and notices as they are then. -/
abbrev Run (α : Type) := ExceptT Fault (StateM RunState) α

namespace Run

/-- The files as they are now. -/
def files : Run Files := return (← get).files

/-- Goes on with other files. -/
def setFiles (fs : Files) : Run Unit := modify fun s => { s with files := fs }

/-- Tells something. -/
def tell (notices : List Notice) : Run Unit :=
  modify fun s => { s with notices := s.notices ++ notices }

/-- Makes a failure the fault of a run. -/
def orFault (wrap : ε → Fault) : Except ε α → Run α
  | .ok a => pure a
  | .error e => throw (wrap e)

end Run

/-- How a run ends. -/
structure Outcome where
  /-- Zero if all is well, one if the check found a difference, two if the run broke off. -/
  code : Nat
  /-- What is printed. -/
  output : Text := []
  /-- What is told besides the output. -/
  notices : List Notice := []
  /-- What is said to the user of a run that broke off or was not understood. -/
  error? : Option Text := none
  /-- The files after the run. -/
  files : Files
  deriving Inhabited

end DocComment
