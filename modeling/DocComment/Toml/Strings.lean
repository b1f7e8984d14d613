import DocComment.Text.WhiteSpace

/-!
# Reading TOML strings

Strings stand between double quotes, with escapes, or between single quotes, where every character
is itself; three quotes on each side hold strings over several lines. A string that is broken off is
not read.
-/

namespace DocComment.Toml

open Text

/-- The characters that may not stand in comments and strings. -/
def isForbidden (c : Char) : Bool := (c.toNat < 0x20 && c ≠ '\t') || c = '\x7f'

/-- What follows a line break. -/
def afterLineBreak? : Text → Option Text
  | '\n' :: rest => some rest
  | '\r' :: '\n' :: rest => some rest
  | _ => none

/-! ### Strings -/

/-- The value of a hexadecimal digit. -/
def hexValue? (c : Char) : Option Nat :=
  if c.isDigit then some (c.toNat - '0'.toNat)
  else if 'a' ≤ c && c ≤ 'f' then some (c.toNat - 'a'.toNat + 10)
  else if 'A' ≤ c && c ≤ 'F' then some (c.toNat - 'A'.toNat + 10)
  else none

/-- The character whose code point has these hexadecimal digits. -/
def charOfHex? (digits : Text) : Option Char := do
  let values ← digits.mapM hexValue?
  let n := values.foldl (fun n d => 16 * n + d) 0
  if n.isValidChar then return Char.ofNat n else none

/-- Reads what follows the backslash of an escape. -/
def readEscape? : Text → Option (Char × Text)
  | 'b' :: rest => some ('\x08', rest)
  | 't' :: rest => some ('\t', rest)
  | 'n' :: rest => some ('\n', rest)
  | 'f' :: rest => some ('\x0c', rest)
  | 'r' :: rest => some ('\r', rest)
  | '"' :: rest => some ('"', rest)
  | '\\' :: rest => some ('\\', rest)
  | 'u' :: rest =>
    if rest.length < 4 then none else (charOfHex? (rest.take 4)).map fun c => (c, rest.drop 4)
  | 'U' :: rest =>
    if rest.length < 8 then none else (charOfHex? (rest.take 8)).map fun c => (c, rest.drop 8)
  | _ => none

/-- Reads the rest of a string in double quotes, in one line. -/
def readBasic? (s : Text) : Option (Text × Text) :=
  match s with
  | [] => none
  | '"' :: rest => some ([], rest)
  | '\\' :: escape =>
    match readEscape? escape with
    | none => none
    | some (c, rest) =>
      if rest.length ≤ escape.length then (readBasic? rest).map fun (t, rest) => (c :: t, rest)
      else none
  | c :: rest =>
    if isForbidden c then none else (readBasic? rest).map fun (t, rest) => (c :: t, rest)
termination_by s.length

/-- Reads the rest of a string in single quotes, in one line. -/
def readLiteral? : Text → Option (Text × Text)
  | [] => none
  | '\'' :: rest => some ([], rest)
  | c :: rest =>
    if isForbidden c then none else (readLiteral? rest).map fun (t, rest) => (c :: t, rest)

/-- The text without the line breaks and blanks in front. -/
def dropEmptyLines : Text → Text
  | '\n' :: rest => dropEmptyLines rest
  | '\r' :: '\n' :: rest => dropEmptyLines rest
  | c :: rest => if isBlank c then dropEmptyLines rest else c :: rest
  | [] => []

/-- What follows the line breaks and blanks after a backslash at the end of a line. -/
def afterJoinedLines? (s : Text) : Option Text :=
  (afterLineBreak? (s.dropWhile isBlank)).map dropEmptyLines

/-- Reads the rest of a string over several lines, which ends with three quotes. Up to two more in
front of them belong to the string. -/
def readLong? (quote : Char) (escapes : Bool) (s : Text) : Option (Text × Text) :=
  match s with
  | [] => none
  | c :: rest =>
    if c = quote then
      let quotes := (s.takeWhile (· = quote)).length
      if 3 ≤ quotes then
        some (List.replicate (min (quotes - 3) 2) quote, s.drop (min quotes 5))
      else (readLong? quote escapes rest).map fun (t, rest) => (c :: t, rest)
    else if c = '\\' && escapes then
      match readEscape? rest with
      | some (e, next) =>
        if next.length ≤ rest.length then
          (readLong? quote escapes next).map fun (t, rest) => (e :: t, rest)
        else none
      | none =>
        match afterJoinedLines? rest with
        | some next => if next.length ≤ rest.length then readLong? quote escapes next else none
        | none => none
    else
      match afterLineBreak? (c :: rest) with
      | some next =>
        if next.length ≤ rest.length then
          (readLong? quote escapes next).map fun (t, rest) => ('\n' :: t, rest)
        else none
      | none =>
        if isForbidden c then none
        else (readLong? quote escapes rest).map fun (t, rest) => (c :: t, rest)
termination_by s.length

/-- The text without a line break in front. -/
def dropLineBreak (s : Text) : Text := (afterLineBreak? s).getD s

/-- Reads a string. -/
def readString? : Text → Option (Text × Text)
  | '"' :: '"' :: '"' :: rest => readLong? '"' true (dropLineBreak rest)
  | '"' :: rest => readBasic? rest
  | '\'' :: '\'' :: '\'' :: rest => readLong? '\'' false (dropLineBreak rest)
  | '\'' :: rest => readLiteral? rest
  | _ => none

end DocComment.Toml
