import DocComment.Toml.Basic
import DocComment.Toml.Moment
import DocComment.Toml.Number

/-!
# Reading TOML scalars

Values without parts: strings, booleans, dates and times, and numbers. The reader takes what it
knows from the start of a text and leaves the rest.
-/

namespace DocComment.Toml

open Text

/-- What a text has in front of its end `rest`. -/
def readUpTo (rest s : Text) : Text := s.take (s.length - rest.length)

/-- Reads a string, a boolean, a date or time, or a number. -/
def readScalar? (s : Text) : Option (Toml × Text) :=
  match s with
  | [] => none
  | c :: _ =>
    if c = '"' || c = '\'' then (readString? s).map fun (t, rest) => (.string t, rest)
    else if c = 't' then (dropPrefix? "true".toList s).map (.boolean true, ·)
    else if c = 'f' then (dropPrefix? "false".toList s).map (.boolean false, ·)
    else match afterMoment? s with
      | some rest => some (.moment (readUpTo rest s), rest)
      | none => (afterNumber? s).map fun rest => (.number (readUpTo rest s), rest)

end DocComment.Toml
