import DocComment.Tag.Payload
import DocComment.Text.Quoted

/-!
# Rules for reading tags

A rule applies to the tags whose names fit a pattern, and reads their payloads or declines them.
Rules are tried in order, and the first that applies and does not decline decides. A payload that no
rule reads is kept as it is, so reading never fails.
-/

namespace DocComment

open Text

/-- What a payload was read as. -/
inductive Reading where
  | value (value : TagValue)
  /-- A signature, with fragments of the payload as parameters. -/
  | method (payload : MethodPayload)
  deriving DecidableEq, Repr, Inhabited

/-- The tags that a rule applies to, by their names. -/
inductive NamePattern where
  | exact (name : Text)
  | anyOf (names : List Text)
  | startingWith (start : Text)
  /-- The tag `method`, alone or with one of two vendors in front. -/
  | method
  | custom (test : Text → Bool)

/-- The names of the tag `method`. -/
def methodNames : List Text :=
  ["method".toList, "phpstan-method".toList, "psalm-method".toList]

/-- Whether a name fits the pattern. -/
def NamePattern.matches : NamePattern → Text → Bool
  | .exact expected, name => name = expected
  | .anyOf names, name => names.any (· = name)
  | .startingWith start, name => (dropPrefix? start name).isSome
  | .method, name => methodNames.any (· = name)
  | .custom test, name => test name

/-- A short description of the pattern. -/
def NamePattern.describe : NamePattern → Text
  | .exact name => "Exact(".toList ++ quoted name ++ [')']
  | .anyOf names => "AnyOf(".toList ++ decimal names.eraseDups.length ++ " names)".toList
  | .startingWith start => "Prefix(".toList ++ quoted start ++ [')']
  | .method => "Pattern(\"^(?:(?:phpstan|psalm)-)?method$\")".toList
  | .custom _ => "Custom(..)".toList

/-- How the payloads of some tags are read. -/
structure Rule where
  pattern : NamePattern
  /-- Reads the payload of a tag of this name, or declines it. -/
  read? : (name payload : Text) → Option Reading

/-- The rules in the order in which they are tried, and the syntax of the types in payloads. -/
structure Rules where
  rules : List Rule
  types : TypeSyntax

namespace Rules

/-- No rule at all: every payload is kept as it is. -/
def empty (types : TypeSyntax) : Rules := ⟨[], types⟩

/-- The rules with one more, tried last. -/
def register (rs : Rules) (r : Rule) : Rules := { rs with rules := rs.rules ++ [r] }

/-- Reads the payload of a tag. -/
def resolve (rs : Rules) (name payload : Text) : Reading :=
  let reading? := rs.rules.findSome? fun r =>
    if r.pattern.matches name then r.read? name payload else none
  reading?.getD (.value (.generic payload))

/-- A short description of the rules. -/
def describe (rs : Rules) : Text :=
  '[' :: [',', ' '].intercalate (rs.rules.map (·.pattern.describe)) ++ [']']

end Rules

/-! ### The rules for a vocabulary -/

/-- The tags with types, by their names. Each is also known with each vendor's prefix. -/
structure Vocabulary where
  /-- Tags with `type [variable] [description]`. -/
  variableTags : List Text
  /-- Tags with `type [description]`. -/
  typedTags : List Text
  vendorPrefixes : List Text
  deriving DecidableEq, Repr, Inhabited

namespace Vocabulary

/-- The usual tags of documentation comments. -/
def standard : Vocabulary where
  variableTags :=
    ["param", "var", "property", "property-read", "property-write"].map String.toList
  typedTags := ["return", "throws", "mixin", "extends", "implements"].map String.toList
  vendorPrefixes := ["phpstan-", "psalm-"].map String.toList

/-- The names, alone and with each prefix. -/
def expand (prefixes names : List Text) : List Text :=
  names.flatMap fun name => name :: prefixes.map (· ++ name)

/-- The rules for typed tags with and without variables, and for methods. -/
def rules (v : Vocabulary) (types : TypeSyntax) : Rules where
  rules := [
    ⟨.anyOf (expand v.vendorPrefixes v.variableTags), fun _ payload =>
      (TypedValue.read? types true payload).map (.value ∘ .typed)⟩,
    ⟨.anyOf (expand v.vendorPrefixes v.typedTags), fun _ payload =>
      (TypedValue.read? types false payload).map (.value ∘ .typed)⟩,
    ⟨.method, fun _ payload => (MethodPayload.read? types payload).map .method⟩]
  types

end Vocabulary

/-- The rules for the usual tags, with the syntax of this library. -/
def Rules.standard : Rules := Vocabulary.standard.rules .standard

end DocComment
