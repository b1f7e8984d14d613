import DocComment.Text.Quoted

/-!
# JSON values

The values that reports are made of, and their two written forms: without any white space, and with
a line for every member, indented by two spaces a level.
-/

namespace DocComment

open Text

/-- A JSON value. The members of an object keep their order. -/
inductive Json where
  | bool (b : Bool)
  | number (n : Nat)
  | string (s : Text)
  | array (items : List Json)
  | object (members : List (Text × Json))
  deriving Repr, Inhabited

namespace Json

/-- A control character in the form with four hexadecimal digits. -/
def escapeCode (c : Char) : Text := ['\\', 'u'] ++ padStart 4 '0' (hexadecimal c.toNat)

/-- The written form of one character in a string. -/
def stringChar (c : Char) : Text :=
  if c = '"' then ['\\', '"']
  else if c = '\\' then ['\\', '\\']
  else if c = '\n' then ['\\', 'n']
  else if c = '\r' then ['\\', 'r']
  else if c = '\t' then ['\\', 't']
  else if c = '\x08' then ['\\', 'b']
  else if c = '\x0c' then ['\\', 'f']
  else if c.toNat < 0x20 then escapeCode c
  else [c]

/-- The written form of a string. -/
def stringText (s : Text) : Text := '"' :: s.flatMap stringChar ++ ['"']

/-! ### Without white space -/

mutual

/-- The written form without white space. -/
def compact : Json → Text
  | .bool b => if b then "true".toList else "false".toList
  | .number n => decimal n
  | .string s => stringText s
  | .array items => '[' :: [','].intercalate (compactItems items) ++ [']']
  | .object members => '\x7b' :: [','].intercalate (compactMembers members) ++ ['\x7d']

/-- The written forms of items. -/
def compactItems : List Json → List Text
  | [] => []
  | item :: items => item.compact :: compactItems items

/-- The written forms of members. -/
def compactMembers : List (Text × Json) → List Text
  | [] => []
  | (name, value) :: members => (stringText name ++ ':' :: value.compact) :: compactMembers members

end

/-! ### With a line for every member -/

/-- The start of a line at some level. -/
def lineStart (level : Nat) : Text := '\n' :: List.replicate (2 * level) ' '

/-- Parts between two delimiters, a line for each. -/
def onLines (level : Nat) (first last : Char) (parts : List Text) : Text :=
  match parts with
  | [] => [first, last]
  | parts =>
    first :: [','].intercalate (parts.map (lineStart (level + 1) ++ ·)) ++ lineStart level
      ++ [last]

mutual

/-- The written form with a line for every member, at some level. -/
def prettyAt (level : Nat) : Json → Text
  | .array items => onLines level '[' ']' (prettyItems (level + 1) items)
  | .object members => onLines level '\x7b' '\x7d' (prettyMembers (level + 1) members)
  | .bool b => compact (.bool b)
  | .number n => compact (.number n)
  | .string s => compact (.string s)

/-- The written forms of items at some level. -/
def prettyItems (level : Nat) : List Json → List Text
  | [] => []
  | item :: items => item.prettyAt level :: prettyItems level items

/-- The written forms of members at some level. -/
def prettyMembers (level : Nat) : List (Text × Json) → List Text
  | [] => []
  | (name, value) :: members =>
    (stringText name ++ ':' :: ' ' :: value.prettyAt level) :: prettyMembers level members

end

/-- The written form with a line for every member. -/
def pretty (j : Json) : Text := j.prettyAt 0

/-! ### Making values -/

/-- A member that is left out if there is no value. -/
def member? (name : String) (value? : Option Json) : List (Text × Json) :=
  value?.toList.map (name.toList, ·)

/-- A member. -/
def member (name : String) (value : Json) : List (Text × Json) := [(name.toList, value)]

/-- A list as a member that is left out if the list is empty. -/
def listMember (name : String) (items : List Json) : List (Text × Json) :=
  if items.isEmpty then [] else member name (.array items)

end Json

end DocComment
