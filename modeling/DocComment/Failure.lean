import DocComment.Text.Quoted

/-!
# Failures

What can go wrong when comments are edited and files are read. A failure is its cause; the text for
readers is made from the cause in one place. Malformed comments are no failures: whatever is not
understood is kept as text.
-/

namespace DocComment

open Text

/-- Why a file could not be read. -/
inductive ReadFault where
  | notFound
  | isDirectory
  | notDirectory
  /-- A path or a part of it that no file can have because of its length. -/
  | tooLong
  /-- A path with the character that ends paths. -/
  | nulInPath
  | invalidText
  deriving DecidableEq, Repr, Inhabited

/-- The text for a fault. -/
def ReadFault.message : ReadFault → Text
  | .notFound => "No such file or directory (os error 2)".toList
  | .isDirectory => "Is a directory (os error 21)".toList
  | .notDirectory => "Not a directory (os error 20)".toList
  | .tooLong => "File name too long (os error 36)".toList
  | .nulInPath => "file name contained an unexpected NUL byte".toList
  | .invalidText => "stream did not contain valid UTF-8".toList

/-- The cause of a failure. -/
inductive Failure where
  /-- A tag without a name. -/
  | emptyTagName
  /-- A tag name in two or more words. -/
  | blankInTagName (name : Text)
  /-- A text that would close the comment. -/
  | terminator (text : Text)
  /-- A paragraph without words. -/
  | emptyProse
  /-- A node that does not stand in the comment. -/
  | foreignNode (id : Nat)
  | emptyParameterName
  /-- Rules were installed for the whole program a second time. -/
  | rulesInstalled
  /-- There were too many or too few comments for the declarations of a file. -/
  | declarationCount (expected actual : Nat)
  /-- A block was printed for a declaration that is not its own. -/
  | wrongDeclaration (own other : Nat)
  /-- A block that belongs to no declaration was printed for one. -/
  | detached
  /-- A declaration without a block was asked to write it back. -/
  | noBlock
  | file (path : Text) (fault : ReadFault)
  | storage (fault : ReadFault)
  | unsupportedFile (path : Text)
  /-- A file of settings that is not well formed. -/
  | settings
  deriving DecidableEq, Repr, Inhabited

namespace Failure

/-- The kinds of failures. -/
inductive Kind where
  /-- The caller asked for something that is not allowed. -/
  | contract
  /-- Two parts that belong together do not fit. -/
  | invariant
  | storage
  | file
  | unsupportedFile
  | settings
  deriving DecidableEq, Repr, Inhabited

/-- The kind of a failure. -/
def kind : Failure → Kind
  | .emptyTagName | .blankInTagName _ | .terminator _ | .emptyProse | .foreignNode _
  | .emptyParameterName | .rulesInstalled | .declarationCount .. => .contract
  | .wrongDeclaration .. | .detached | .noBlock => .invariant
  | .file .. => .file
  | .storage _ => .storage
  | .unsupportedFile _ => .unsupportedFile
  | .settings => .settings

/-- What went wrong, without its kind. -/
def detail : Failure → Text
  | .emptyTagName => "tag name must not be empty".toList
  | .blankInTagName name => "tag name ".toList ++ quoted name ++ " contains whitespace".toList
  | .terminator text => quoted text ++ " contains the comment terminator */".toList
  | .emptyProse => "text node must not be empty".toList
  | .foreignNode id => "node ".toList ++ decimal id ++ " is not part of this doc block".toList
  | .emptyParameterName => "parameter name must not be empty".toList
  | .rulesInstalled => "global registry is already installed".toList
  | .declarationCount expected actual =>
    "expected ".toList ++ decimal expected ++ " declarations, got ".toList ++ decimal actual
  | .wrongDeclaration own other =>
    "doc block of declaration ".toList ++ decimal own ++ " printed for declaration ".toList
      ++ decimal other
  | .detached => "doc block is detached from its declaration".toList
  | .noBlock => "no doc block attached to declaration".toList
  | .file path fault => path ++ ": ".toList ++ fault.message
  | .storage fault => fault.message
  | .unsupportedFile path => path
  | .settings => []

/-- What stands in front of the detail. -/
def Kind.label : Kind → Text
  | .contract => "Contract violation: ".toList
  | .invariant => "Invariant violation: ".toList
  | .storage => "IO error: ".toList
  | .file => "Failed to read file ".toList
  | .unsupportedFile => "Unsupported file type: ".toList
  | .settings => "Invalid configuration".toList

/-- The text for readers. -/
def message (f : Failure) : Text := f.kind.label ++ f.detail

end Failure

end DocComment
