import DocComment.Text.Basic

/-!
# Paths of files

A path is a text with slashes. Empty parts of it count for nothing, and so do parts that are a
single dot, except for one in front.
-/

namespace DocComment.Path

open Text

/-- The most bytes that a name has. -/
def longestName : Nat := 255

/-- The most bytes that a path has. -/
def longestPath : Nat := 4095

/-- The parts between the slashes that name something. -/
def names (path : Text) : List Text :=
  (splitOn '/' path).filter fun part => part ≠ [] && part ≠ ['.']

/-- The components of a path. A slash in front is a component of its own, and so is a dot. -/
def components (path : Text) : List Text :=
  match splitOn '/' path with
  | [] :: _ :: _ => ['/'] :: names path
  | ['.'] :: _ => ['.'] :: names path
  | _ => names path

/-- The last component, if it names a file. -/
def fileName? (path : Text) : Option Text :=
  match (names path).getLast? with
  | some ['.', '.'] => none
  | name? => name?

/-- What stands behind the last dot of the file's name, unless the name has no other part. -/
def extension? (path : Text) : Option Text := do
  let name ← fileName? path
  let after := (name.reverse.takeWhile (· ≠ '.')).reverse
  if after.length + 1 < name.length then return after else none

/-- A path below a directory. -/
def join (directory path : Text) : Text :=
  match directory.getLast? with
  | none => path
  | some '/' => directory ++ path
  | some _ => directory ++ '/' :: path

end DocComment.Path
