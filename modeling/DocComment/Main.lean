import DocComment.Command.Run

/-!
# The program

The files that a request is about are read from disk, the request is run on them, and those that it
changed are written back.
-/

namespace DocComment.Program

open Text

/-- Where a list of names leads on disk. -/
def location (names : List Text) : String := String.ofList ('/' :: ['/'].intercalate names)

/-- The paths that a request is about. -/
def paths : Request → List Text
  | .run invocation => [invocation.settings, invocation.command.path]
  | _ => []

/-- Adds a file to those that have been read. -/
def readFile (fs : Files) (names : List Text) : IO Files := do
  let bytes ← IO.FS.readBinFile (location names)
  return fs.write names (.ofBytes bytes)

/-- Adds the source files of a directory to those that have been read. Links are not followed. -/
partial def readDirectory (fs : Files) (names : List Text) : IO Files := do
  let mut fs := { fs with directories := names :: fs.directories }
  for entry in ← ((← IO.currentDir) / location names).readDir do
    let below := names ++ [entry.fileName.toList]
    match (← entry.path.symlinkMetadata).type with
    | .dir => fs ← readDirectory fs below
    | .file => if (Language.ofPath? entry.fileName.toList).isSome then fs ← readFile fs below
    | _ => pure ()
  return fs

/-- Adds what a path leads to, part by part. A path that leads nowhere adds the directories on its
way. -/
def readPath (fs : Files) (path : Text) : IO Files := do
  let parts := splitOn '/' path
  let mut fs := fs
  let mut names := if parts.head? = some [] then [] else fs.start
  for part in Path.names path do
    names := if part = ['.', '.'] then names.dropLast else names ++ [part]
    if ← ((← IO.currentDir) / location names).isDir then
      fs := { fs with directories := names :: fs.directories }
    else if ← ((← IO.currentDir) / location names).pathExists then
      return ← readFile fs names
    else
      return fs
  readDirectory fs names

/-- Writes a file back if its content is a new one. -/
def writeFile (before : Files) (names : List Text) (content : Content) : IO Unit :=
  unless before.content? names = some content do
    IO.FS.writeBinFile (location names) content.bytes

end DocComment.Program

open DocComment

/-- Runs the program with the arguments of its command line. -/
def main (args : List String) : IO UInt32 := do
  let request := Arguments.request (args.map String.toList)
  let start := Path.names (← IO.currentDir).toString.toList
  let before ← (Program.paths request).foldlM Program.readPath { start }
  let outcome := request.outcome before
  for (names, content) in outcome.files.entries do
    Program.writeFile before names content
  IO.print (String.ofList outcome.output)
  for notice in outcome.notices do
    IO.eprintln (String.ofList notice.line)
  if let some message := outcome.error? then
    IO.eprintln (String.ofList message)
  return outcome.code.toUInt32
