import DocComment.Path

/-!
# Programming languages

The languages whose declarations take documentation comments. They agree on the delimiters of
comments and differ in what starts a comment that ends with its line. The language of a file is
known by the extension of its name.
-/

namespace DocComment

/-- A language with documentation comments. -/
inductive Language where
  | php
  | java
  | typescript
  | javascript
  | c
  | cpp
  | rust
  deriving DecidableEq, Repr, Inhabited

namespace Language

/-- All languages, in the order in which they are looked through. -/
def all : List Language := [.php, .java, .typescript, .javascript, .c, .cpp, .rust]

/-- The name of a language. -/
def name : Language → Text
  | .php => "php".toList
  | .java => "java".toList
  | .typescript => "typescript".toList
  | .javascript => "javascript".toList
  | .c => "c".toList
  | .cpp => "cpp".toList
  | .rust => "rust".toList

/-- The extensions of files in a language. -/
def extensions : Language → List Text
  | .php => ["php", "phpt", "inc"].map String.toList
  | .java => ["java"].map String.toList
  | .typescript => ["ts", "tsx"].map String.toList
  | .javascript => ["js", "jsx", "mjs"].map String.toList
  | .c => ["c", "h"].map String.toList
  | .cpp => ["cpp", "cc", "cxx", "hpp", "hh", "hxx"].map String.toList
  | .rust => ["rs"].map String.toList

/-- What starts a comment that ends with its line. -/
def lineMarks : Language → List Text
  | .php => [['/', '/'], ['#']]
  | _ => [['/', '/']]

/-- The language of a name. -/
def ofName? (s : Text) : Option Language := all.find? (·.name = s)

/-- The language of a file. -/
def ofPath? (path : Text) : Option Language := do
  let extension ← Path.extension? path
  all.find? (extension ∈ ·.extensions)

end Language

/-- The opening delimiter of documentation comments. -/
def docStart : Text := ['/', '*', '*']

/-- The opening delimiter of comments. -/
def blockStart : Text := ['/', '*']

/-- The closing delimiter of comments. -/
def blockEnd : Text := ['*', '/']

end DocComment
