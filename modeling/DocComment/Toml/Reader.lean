import DocComment.Toml.Scalar

/-!
# Reading TOML documents

A document is read line by line: a pair of a key and a value goes to the table whose header was read
last. Values and keys nest at most `maxDepth` deep. A document with a fault anywhere is not read.
-/

namespace DocComment.Toml

open Text

/-- How deep values nest, and the number of names that a key has. -/
def maxDepth : Nat := 79

/-! ### Blanks and comments -/

/-- The text without the blanks in front. -/
def dropBlanks (s : Text) : Text := s.dropWhile isBlank

/-- The text without a comment in front. -/
def dropComment : Text → Text
  | '#' :: rest => rest.dropWhile (!isForbidden ·)
  | s => s

/-- What follows the end of a line, after blanks and a comment. -/
def afterLine? (s : Text) : Option Text :=
  match dropComment (dropBlanks s) with
  | [] => some []
  | s => afterLineBreak? s

/-- The text without blanks, comments and line breaks in front. -/
def dropLayout (s : Text) : Text :=
  let rest := dropComment (dropBlanks s)
  let next := (afterLineBreak? rest).getD rest
  if next.length < s.length then dropLayout next else s
termination_by s.length

/-! ### Keys -/

/-- The characters of a name without quotes. -/
def isBareChar (c : Char) : Bool := c.isAlphanum || c = '_' || c = '-'

/-- Reads one name of a key. -/
def readName? (s : Text) : Option (Text × Text) :=
  match s with
  | '"' :: rest => readBasic? rest
  | '\'' :: rest => readLiteral? rest
  | s =>
    match s.takeWhile isBareChar with
    | [] => none
    | name => some (name, s.dropWhile isBareChar)

/-- Reads at most `count` names with dots between them and blanks around them. -/
def readNames? : (count : Nat) → Text → Option (List Text × Text)
  | 0, _ => none
  | count + 1, s => do
    let (name, rest) ← readName? (dropBlanks s)
    match dropBlanks rest with
    | '.' :: rest =>
      let (names, rest) ← readNames? count rest
      return (name :: names, rest)
    | rest => return ([name], rest)

/-- Reads a key. -/
def readKey? (s : Text) : Option (Key × Text) := do
  let (names, rest) ← readNames? maxDepth s
  let name ← names.getLast?
  return (⟨names.dropLast, name⟩, rest)

/-! ### Values -/

/-- Reads a key, the sign between, and a value. -/
def readPair? (value? : Text → Option (Toml × Text)) (s : Text) :
    Option ((Key × Toml) × Text) := do
  let (key, rest) ← readKey? s
  let rest ← dropPrefix? ['='] rest
  let (value, rest) ← value? (dropBlanks rest)
  return ((key, value), rest)

/-- Reads the items of an array, of which the bracket is already open. A comma may follow the last
one. -/
def readItems? (value? : Text → Option (Toml × Text)) (s : Text) : Option (List Toml × Text) :=
  match dropLayout s with
  | ']' :: rest => some ([], rest)
  | item =>
    match value? item with
    | none => none
    | some (v, rest) =>
      match dropLayout rest with
      | ']' :: rest => some ([v], rest)
      | ',' :: rest =>
        if rest.length < s.length then
          (readItems? value? rest).map fun (vs, rest) => (v :: vs, rest)
        else none
      | _ => none
termination_by s.length

/-- Reads the pairs of an inline table, at least one. -/
def readPairs? (value? : Text → Option (Toml × Text)) (s : Text) :
    Option (List (Key × Toml) × Text) :=
  match readPair? value? s with
  | none => none
  | some (pair, rest) =>
    match dropBlanks rest with
    | '\x7d' :: rest => some ([pair], rest)
    | ',' :: rest =>
      if rest.length < s.length then
        (readPairs? value? rest).map fun (pairs, rest) => (pair :: pairs, rest)
      else none
    | _ => none
termination_by s.length

/-- The fields with these keys and values. -/
def Fields.ofPairs? (pairs : List (Key × Toml)) : Option Fields :=
  pairs.foldlM (fun fields (key, value) => fields.insert? key value) []

/-- Reads the fields of an inline table, of which the brace is already open. -/
def readInline? (value? : Text → Option (Toml × Text)) (s : Text) : Option (Toml × Text) :=
  match dropBlanks s with
  | '\x7d' :: rest => some (.table .inline [], rest)
  | s => do
    let (pairs, rest) ← readPairs? value? s
    let fields ← Fields.ofPairs? pairs
    return (.table .inline fields, rest)

/-- Reads a value with at most `depth` values around its parts. -/
def readValue? : (depth : Nat) → Text → Option (Toml × Text)
  | depth + 1, '[' :: rest =>
    (readItems? (readValue? depth) rest).map fun (items, rest) => (.array items, rest)
  | depth + 1, '\x7b' :: rest => readInline? (readValue? depth) rest
  | _, s => readScalar? s

/-! ### Documents -/

/-- What is read of a document: its fields, and the path of the table that pairs go to. -/
structure Draft where
  fields : Fields := []
  path : List Text := []
  deriving Repr, Inhabited

/-- Reads one line, or more if a value takes more. -/
def Draft.readLine? (d : Draft) (s : Text) : Option (Draft × Text) :=
  match s with
  | '[' :: '[' :: rest => do
    let (key, rest) ← readKey? rest
    let rest ← dropPrefix? [']', ']'] rest
    let rest ← afterLine? rest
    let fields ← d.fields.appendTable? key
    return (⟨fields, key.path ++ [key.name]⟩, rest)
  | '[' :: rest => do
    let (key, rest) ← readKey? rest
    let rest ← dropPrefix? [']'] rest
    let rest ← afterLine? rest
    let fields ← d.fields.openTable? key
    return (⟨fields, key.path ++ [key.name]⟩, rest)
  | s => do
    let ((key, value), rest) ← readPair? (readValue? maxDepth) s
    let rest ← afterLine? rest
    let fields ← d.fields.insertBelow? d.path key value
    return ({ d with fields }, rest)

/-- Reads the rest of a document. -/
def Draft.readAll? (d : Draft) (s : Text) : Option Fields :=
  match dropBlanks s with
  | [] => some d.fields
  | c :: cs =>
    let read? :=
      if c = '#' || c = '\n' || c = '\r' then (afterLine? (c :: cs)).map (d, ·)
      else d.readLine? (c :: cs)
    match read? with
    | none => none
    | some (d, rest) => if rest.length < s.length then d.readAll? rest else none
termination_by s.length

/-- The fields of a document. A mark of the byte order in front counts for nothing. -/
def read? (s : Text) : Option Fields :=
  Draft.readAll? {} ((dropPrefix? ['\ufeff'] s).getD s)

end DocComment.Toml
