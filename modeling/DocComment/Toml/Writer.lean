import DocComment.Text.Quoted
import DocComment.Toml.Strings

/-!
# Writing TOML

Strings are written in the plainest form that can hold them: between double quotes, between single
ones if there is something to escape, over several lines, and with escapes only if nothing else is
left. Lists of two or more have a line for every item.
-/

namespace DocComment.Toml

open Text

/-- The length of the longest row of `c` in a text, after a row of `current` and with `longest` so
far. -/
def longestRow (c : Char) (current longest : Nat) : Text → Nat
  | [] => max current longest
  | d :: ds =>
    if d = c then longestRow c (current + 1) longest ds
    else longestRow c 0 (max current longest) ds

/-- Whether a character can be written in an escaped form only. -/
def needsEscape (c : Char) : Bool := isForbidden c && c ≠ '\n'

/-- The form of a character between double quotes. -/
def escapedChar (c : Char) : Text :=
  if c = '\x08' then ['\\', 'b']
  else if c = '\t' then ['\\', 't']
  else if c = '\n' then ['\\', 'n']
  else if c = '\x0c' then ['\\', 'f']
  else if c = '\r' then ['\\', 'r']
  else if c = '"' then ['\\', '"']
  else if c = '\\' then ['\\', '\\']
  else if needsEscape c then
    ['\\', 'u'] ++ padStart 4 '0' ((hexadecimal c.toNat).map Char.toUpper)
  else [c]

/-- The inside of a string over several lines. Line feeds stand for themselves, and so do two quotes
in a row; `quotes` of them have been written directly before. -/
def escapeLong (quotes : Nat) : Text → Text
  | [] => []
  | '\n' :: cs => '\n' :: escapeLong 0 cs
  | '"' :: cs =>
    if quotes < 2 then '"' :: escapeLong (quotes + 1) cs else '\\' :: '"' :: escapeLong 0 cs
  | c :: cs => escapedChar c ++ escapeLong 0 cs

/-- A string. -/
def writeString (s : Text) : Text :=
  let forbidden := s.any needsEscape
  let newline : Bool := '\n' ∈ s
  let backslash : Bool := '\\' ∈ s
  let doubles := longestRow '"' 0 0 s
  let singles := longestRow '\'' 0 0 s
  let long (quote : Char) (inside : Text) : Text :=
    List.replicate 3 quote ++ (if newline then ['\n'] else []) ++ inside ++ List.replicate 3 quote
  let basic := '"' :: s.flatMap escapedChar ++ ['"']
  if !forbidden && !backslash && doubles = 0 && !newline then basic
  else if !forbidden && singles = 0 && !newline then '\'' :: s ++ ['\'']
  else if !forbidden && !backslash && doubles ≤ 2 then long '"' (escapeLong 0 s)
  else if !forbidden && singles ≤ 2 then long '\'' s
  else if newline then long '"' (escapeLong 0 s)
  else basic

/-- A list of strings. -/
def writeList : List Text → Text
  | [] => ['[', ']']
  | [s] => '[' :: writeString s ++ [']']
  | ss => '[' :: ss.flatMap (fun s => "\n    ".toList ++ writeString s ++ [',']) ++ ['\n', ']']

/-- A pair of a name without quotes and a value, on lines of its own. -/
def writePair (name : String) (value : Text) : Text :=
  name.toList ++ " = ".toList ++ value ++ ['\n']

/-- A table with its header. -/
def writeTable (name : String) (pairs : List Text) : Text :=
  '[' :: name.toList ++ [']', '\n'] ++ pairs.flatten

end DocComment.Toml
