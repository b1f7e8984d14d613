import DocComment.Failure
import DocComment.Path
import DocComment.Settings.Document
import DocComment.Source.Splice

/-!
# Trees of files

A tree of files is a list of paths with contents. Its directories are those that the paths of its
files go through, and others that may be empty. Paths are followed name by name, from the top if a
slash stands in front of them and from a working directory if not.
-/

namespace DocComment

open Text

/-- What a file holds. -/
inductive Content where
  | text (s : Text)
  /-- Bytes that are not the UTF-8 form of any text. -/
  | binary (bytes : List UInt8)
  deriving DecidableEq, Inhabited

namespace Content

/-- The content that these bytes are. -/
def ofBytes (bytes : ByteArray) : Content :=
  match String.fromUTF8? bytes with
  | some s => .text s.toList
  | none => .binary bytes.data.toList

/-- The bytes of a content. -/
def bytes : Content → ByteArray
  | .text s => (String.ofList s).toUTF8
  | .binary bytes => ⟨bytes.toArray⟩

/-- No byte is lost, whether the bytes are a text or not. -/
theorem bytes_ofBytes (bytes : ByteArray) : (ofBytes bytes).bytes = bytes := by
  unfold ofBytes
  split
  · next s hs =>
    have h : s.toUTF8 = bytes := by
      unfold String.fromUTF8? at hs
      split at hs
      · rw [Option.some.injEq] at hs
        subst hs
        rfl
      · contradiction
    simpa [Content.bytes] using h
  · rfl

end Content

/-- Files by their paths from the top directory, as lists of names. -/
structure Files where
  entries : List (List Text × Content) := []
  /-- Directories that are there even if no file is. -/
  directories : List (List Text) := []
  /-- The working directory, which is always there. -/
  start : List Text := []
  deriving Inhabited

/-- What a path leads to, by the names on its way. -/
inductive Place where
  | file (names : List Text)
  | directory (names : List Text)
  deriving DecidableEq, Repr, Inhabited

namespace Files

/-- The content of a file. -/
def content? (fs : Files) (names : List Text) : Option Content := fs.entries.lookup names

/-- Whether these names lead to a directory. -/
def isDirectory (fs : Files) (names : List Text) : Bool :=
  (fs.start :: fs.directories).any names.isPrefixOf
    || fs.entries.any fun (file, _) => names.isPrefixOf file && names ≠ file

/-- The files with another content for one of them. -/
def write (fs : Files) (names : List Text) (c : Content) : Files :=
  if (fs.content? names).isSome then
    { fs with
      entries := fs.entries.map fun (file, old) => if file = names then (file, c) else (file, old) }
  else { fs with entries := fs.entries ++ [(names, c)] }

/-! ### Following paths -/

/-- Checks the form of a path. One that breaks its rules leads nowhere, whatever files there are. -/
def checkPath (path : Text) : Except ReadFault Unit :=
  if path.any (· = '\x00') then throw .nulInPath
  else if path = [] then throw .notFound
  else if Path.longestPath < byteSize path then throw .tooLong
  else pure ()

/-- Follows one part of a path. Empty parts and single dots stay in a directory, and two dots lead
out of it. -/
def enter (fs : Files) : Place → Text → Except ReadFault Place
  | .file _, _ => throw .notDirectory
  | .directory names, part =>
    if part = [] || part = ['.'] then pure (.directory names)
    else if part = ['.', '.'] then pure (.directory names.dropLast)
    else if Path.longestName < byteSize part then throw .tooLong
    else
      let next := names ++ [part]
      if (fs.content? next).isSome then pure (.file next)
      else if fs.isDirectory next then pure (.directory next)
      else throw .notFound

/-- Follows the parts of a path. -/
def follow (fs : Files) (parts : List Text) : Except ReadFault Place :=
  parts.foldlM fs.enter (.directory (if parts.head? = some [] then [] else fs.start))

/-- What a path leads to. -/
def find (fs : Files) (path : Text) : Except ReadFault Place := do
  checkPath path
  fs.follow (splitOn '/' path)

/-- Whether a path leads anywhere. -/
def hasPath (fs : Files) (path : Text) : Bool := (fs.find path).toOption.isSome

/-- The text of the file that a path leads to. -/
def readText (fs : Files) (path : Text) : Except ReadFault Text :=
  match fs.find path with
  | .error fault => throw fault
  | .ok (.directory _) => throw .isDirectory
  | .ok (.file names) =>
    match fs.content? names with
    | some (.text s) => pure s
    | some (.binary _) => throw .invalidText
    | none => throw .notFound

/-- The names of a new file at the end of a path. The directory that it is to stand in must be
there, and a slash behind its name would make it a directory. -/
def newFile (fs : Files) (path : Text) : Except ReadFault (List Text) := do
  checkPath path
  let parts := splitOn '/' path
  let named := (parts.reverse.dropWhile (· = [])).reverse
  match named.getLast?, ← fs.follow named.dropLast with
  | none, _ => throw .notFound
  | some _, .file _ => throw .notDirectory
  | some name, .directory names =>
    if named.length < parts.length then throw .isDirectory
    else if Path.longestName < byteSize name then throw .tooLong
    else pure (names ++ [name])

/-- The files with a text in the place that a path leads to, which need not be there yet. -/
def writeText (fs : Files) (path : Text) (s : Text) : Except ReadFault Files :=
  match fs.find path with
  | .ok (.file names) => pure (fs.write names (.text s))
  | .ok (.directory _) => throw .isDirectory
  | .error _ => (fs.newFile path).map fun names => fs.write names (.text s)

/-! ### Looking through directories -/

/-- The paths of the files below a directory, as seen from the path that leads to it, in ascending
order. No directory is looked into whose own path is too long. -/
def walk (fs : Files) (path : Text) (names : List Text) : List Text :=
  let pathTo (below : List Text) : Text := Path.join path (['/'].intercalate below)
  let found := fs.entries.filterMap fun (file, _) =>
    let below := file.drop names.length
    if names.isPrefixOf file && below ≠ []
        && (below.length = 1 || byteSize (pathTo below.dropLast) ≤ Path.longestPath) then
      some (pathTo below)
    else none
  found.mergeSort fun a b => !(decide (b < a))

/-- The source files that a path leads to: the file itself, or those of a directory that the
settings include. -/
def collect (fs : Files) (scan : Scan) (path : Text) : List Text :=
  match fs.find path with
  | .error _ => []
  | .ok (.file _) => [path]
  | .ok (.directory names) => (fs.walk path names).filter scan.includes

/-- Reads a source file and finds its comments. -/
def extract (fs : Files) (path : Text) : Except Failure SourceFile :=
  match Language.ofPath? path with
  | none => throw (.unsupportedFile path)
  | some language =>
    match fs.readText path with
    | .error fault => throw (.file path fault)
    | .ok source => pure (SourceFile.extract path language source)

/-! ### Settings -/

/-- The settings in a file. -/
def loadSettings (fs : Files) (path : Text) : Except Failure Settings :=
  match fs.readText path with
  | .error fault => throw (.storage fault)
  | .ok s =>
    match Settings.read? s with
    | some settings => pure settings
    | none => throw .settings

/-- The settings in a file, or the default ones if there is no file. -/
def loadSettingsOrDefault (fs : Files) (path : Text) : Except Failure Settings :=
  if fs.hasPath path then fs.loadSettings path else pure {}

/-- The files with settings written to one of them. -/
def saveSettings (fs : Files) (path : Text) (s : Settings) : Except Failure Files :=
  match fs.writeText path s.write with
  | .error fault => throw (.storage fault)
  | .ok fs => pure fs

end Files

end DocComment
