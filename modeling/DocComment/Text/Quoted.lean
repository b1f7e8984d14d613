import DocComment.Text.Basic
import DocComment.Text.Invisible

/-!
# Quoted texts

Messages and reports show a text between double quotes, in a form in which every character can be
seen: quotes, backslashes and the common control characters by a letter, and other characters that
do not show by their code point in hexadecimal.
-/

namespace DocComment.Text

/-- The hexadecimal digits of a number, in lower case. -/
def hexadecimal (n : Nat) : Text := Nat.toDigits 16 n

/-- The visible form of one character inside quotes. -/
def quotedChar (c : Char) : Text :=
  if c = '"' then ['\\', '"']
  else if c = '\\' then ['\\', '\\']
  else if c = '\n' then ['\\', 'n']
  else if c = '\t' then ['\\', 't']
  else if c = '\r' then ['\\', 'r']
  else if c = '\x00' then ['\\', '0']
  else if isInvisible c then ['\\', 'u', '\x7b'] ++ hexadecimal c.toNat ++ ['\x7d']
  else [c]

/-- The text between double quotes. -/
def quoted (s : Text) : Text := '"' :: s.flatMap quotedChar ++ ['"']

end DocComment.Text
