import DocComment.Text.WhiteSpace
import DocComment.TypeExpr.Basic

/-!
# Reading type expressions

A type is read from the start of a text:

* a union is intersections joined by `|`, and an intersection is rows joined by `&`;
* a row is an atom followed by any number of `[]`;
* an atom is `?` before a row, a union between parentheses, a name, or a name followed by types
  between `<` and `>`.

A reader takes the longest type that it can and leaves the rest. White space counts for nothing
between parentheses or angle brackets and ends the type elsewhere. At most `maxNesting` of `?`, `(`
and `<` are open at once, and no more `[]` follow one atom; the levels that may still be opened are
what the recursion decreases.
-/

namespace DocComment.TypeExpr

open Text

/-- How deep types may nest. -/
def maxNesting : Nat := 64

/-! ### Names and signs -/

/-- The characters that start a type name. -/
def isNameStart (c : Char) : Bool := c.isAlpha || c = '_' || c = '\\' || c = '$'

/-- The characters of a type name. -/
def isNameChar (c : Char) : Bool :=
  c.isAlphanum || c = '_' || c = '\\' || c = '$' || c = '-' || c = ':'

/-- Reads a name. Of the names that start with `$` only `$this` is a type, the others are
variables. -/
def readName? : Text → Option (Text × Text)
  | [] => none
  | c :: cs =>
    let run := (c :: cs).takeWhile isNameChar
    if isNameStart c && (c ≠ '$' || run = ['$', 't', 'h', 'i', 's']) then
      some (run, (c :: cs).dropWhile isNameChar)
    else none

/-- What follows the white space that does not count. -/
def skip (inside : Bool) (s : Text) : Text := if inside then trimStart s else s

/-- What follows the sign `c`. -/
def readSign? (inside : Bool) (c : Char) (s : Text) : Option Text :=
  dropPrefix? [c] (skip inside s)

/-- What follows a `|` or a `,` and the white space after it. -/
def readSeparator? (inside : Bool) (c : Char) (s : Text) : Option Text :=
  (readSign? inside c s).map (skip inside)

/-- What follows a `&` that joins types: one in front of a variable marks it as a reference. -/
def readAmpersand? (inside : Bool) (s : Text) : Option Text :=
  match readSeparator? inside '&' s with
  | some ('$' :: _) | some ('.' :: _) => none
  | rest => rest

/-- The number of `[]` that a text starts with, and what follows them. -/
def readBrackets : Text → Nat × Text
  | '[' :: ']' :: rest =>
    let (n, rest) := readBrackets rest
    (n + 1, rest)
  | rest => (0, rest)

/-! ### Parts and wholes -/

/-- Reads further parts, each after a separator. A separator that no part follows is left. -/
def readMore (separator? : Text → Option Text) (part? : Text → Option (TypeExpr × Text))
    (s : Text) : List TypeExpr × Text :=
  match (separator? s).bind part? with
  | none => ([], s)
  | some (t, rest) =>
    if rest.length < s.length then
      let (ts, rest) := readMore separator? part? rest
      (t :: ts, rest)
    else ([], s)
termination_by s.length

/-- Reads one part or more, with separators between them. -/
def readList? (separator? : Text → Option Text) (part? : Text → Option (TypeExpr × Text))
    (s : Text) : Option (List TypeExpr × Text) := do
  let (t, rest) ← part? s
  let (ts, rest) := readMore separator? part? rest
  return (t :: ts, rest)

/-- A single part stands for itself. -/
def collapse (wrap : List TypeExpr → TypeExpr) : List TypeExpr → TypeExpr
  | [t] => t
  | ts => wrap ts

/-- Rows of rows, `n` deep. -/
def arrays : Nat → TypeExpr → TypeExpr
  | 0, t => t
  | n + 1, t => arrays n (.array t)

/-- Reads an atom and the `[]` after it. -/
def readRow? (atom? : Text → Option (TypeExpr × Text)) (s : Text) : Option (TypeExpr × Text) := do
  let (t, rest) ← atom? s
  let (n, rest) := readBrackets rest
  if n ≤ maxNesting then return (arrays n t, rest) else none

/-- Reads an intersection. -/
def readIntersection? (inside : Bool) (atom? : Text → Option (TypeExpr × Text)) (s : Text) :
    Option (TypeExpr × Text) :=
  (readList? (readAmpersand? inside) (readRow? atom?) s).map fun (ts, rest) =>
    (collapse .intersection ts, rest)

/-- Reads a union. -/
def readUnion? (inside : Bool) (atom? : Text → Option (TypeExpr × Text)) (s : Text) :
    Option (TypeExpr × Text) :=
  (readList? (readSeparator? inside '|') (readIntersection? inside atom?) s).map fun (ts, rest) =>
    (collapse .union ts, rest)

/-- Reads the types between angle brackets, of which the first is already open. -/
def readParams? (atom? : Text → Option (TypeExpr × Text)) (s : Text) :
    Option (List TypeExpr × Text) := do
  let (ts, rest) ← readList? (readSeparator? true ',') (readUnion? true atom?) (trimStart s)
  let rest ← readSign? true '>' rest
  return (ts, rest)

/-- Reads an atom, with `levels` more levels to open. A name whose parameters cannot be read is
taken alone. -/
def readAtom? : (levels : Nat) → (inside : Bool) → Text → Option (TypeExpr × Text)
  | levels + 1, inside, '?' :: rest =>
    (readRow? (readAtom? levels inside) rest).map fun (t, rest) => (.nullable t, rest)
  | levels + 1, _, '(' :: rest => do
    let (t, rest) ← readUnion? true (readAtom? levels true) (trimStart rest)
    let rest ← readSign? true ')' rest
    return (t, rest)
  | levels + 1, _, s => do
    let (n, rest) ← readName? s
    match (dropPrefix? ['<'] rest).bind (readParams? (readAtom? levels true)) with
    | some (params, rest) => return (.generic n params, rest)
    | none => return (.name n, rest)
  | 0, _, s => (readName? s).map fun (n, rest) => (.name n, rest)

/-- The type at the start of a text, and the number of bytes that it takes. -/
def read? (s : Text) : Option (TypeExpr × Nat) :=
  (readUnion? false (readAtom? maxNesting false) s).map fun (t, rest) =>
    (t, byteSize s - byteSize rest)

end DocComment.TypeExpr

namespace DocComment

/-- How types are read and written in tags. -/
structure TypeSyntax where
  /-- The type at the start of a text, and the number of bytes that it takes. -/
  read? : Text → Option (TypeExpr × Nat)
  write : TypeExpr → Text

/-- The syntax of this library. -/
def TypeSyntax.standard : TypeSyntax where
  read? := TypeExpr.read?
  write := TypeExpr.text

end DocComment
