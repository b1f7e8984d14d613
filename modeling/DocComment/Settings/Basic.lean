import DocComment.Block.Print
import DocComment.Source.Language
import DocComment.Tag.Rules

/-!
# Settings

What users choose: how new lines of comments start, which tags have types, and which files are
looked through.
-/

namespace DocComment

open Text

/-- Which files are looked through in a directory. -/
structure Scan where
  /-- The extensions of these files, with or without a dot; all that are known if there is none. -/
  extensions : List Text := []
  /-- Names of files and directories that are left out. -/
  exclude : List Text := []
  deriving DecidableEq, Repr, Inhabited

namespace Scan

/-- Whether files with this extension are wanted. -/
def accepts (s : Scan) (extension : Text) : Bool :=
  s.extensions.isEmpty || s.extensions.any fun e => e.dropWhile (· = '.') = extension

/-- Whether a part of this path is left out. -/
def excludes (s : Scan) (path : Text) : Bool :=
  (Path.components path).any fun part => s.exclude.any (· = part)

/-- Whether a file in a directory is looked through. -/
def includes (s : Scan) (path : Text) : Bool :=
  !s.excludes path && (Language.ofPath? path).isSome
    && s.accepts ((Path.extension? path).getD [])

end Scan

/-- The settings of the program. -/
structure Settings where
  printer : Printer := {}
  vocabulary : Vocabulary := .standard
  scan : Scan := {}
  deriving DecidableEq, Repr, Inhabited

/-- The rules for the tags of the settings. -/
def Settings.rules (s : Settings) : Rules := s.vocabulary.rules .standard

end DocComment
