import DocComment.Command.Options
import DocComment.Text.Quoted

/-!
# Misuse of the command line

Why arguments cannot be read. A misuse is its cause; the text for readers is made from the cause in
one place, and shows the user's own words between single quotes.
-/

namespace DocComment

open Text

/-- Why arguments cannot be read. -/
inductive Misuse where
  /-- There is no command among them. -/
  | noCommand
  | unknownCommand (name : Text)
  /-- No option is called so. Where a path may stand the argument could have been meant for one. -/
  | unknownOption (argument : Text) (pathAllowed : Bool)
  /-- There is one argument too many. -/
  | extraArgument (argument : Text)
  /-- The path of a command is missing or empty. -/
  | noPath
  | noValue (switch : Arguments.Switch)
  /-- A value was given to an option that takes none. -/
  | needlessValue (switch : Arguments.Switch) (value : Text)
  | repeated (switch : Arguments.Switch)
  | unknownFormat (value : Text)
  /-- A tag without a name. -/
  | namelessTag (switch : Arguments.Switch) (value : Text)
  deriving DecidableEq, Repr, Inhabited

/-- The form in which an option is to be given. -/
def Arguments.Switch.usage (switch : Switch) : Text :=
  "--".toList ++ switch.longName
    ++ if switch.takesValue then " <".toList ++ switch.longName.map Char.toUpper ++ ['>'] else []

namespace Misuse

/-- A text between single quotes. -/
def shown (s : Text) : Text := '\'' :: s ++ ['\'']

/-- What is wrong with the arguments. -/
def detail : Misuse → Text
  | .noCommand => "a command is required".toList
  | .unknownCommand name => "unrecognized subcommand ".toList ++ shown name
  | .unknownOption argument pathAllowed =>
    "unexpected argument ".toList ++ shown argument ++ " found".toList
      ++ if pathAllowed then
          "\n\n  tip: to pass ".toList ++ shown argument ++ " as a value, use ".toList
            ++ shown ("-- ".toList ++ argument)
        else []
  | .extraArgument argument => "unexpected argument ".toList ++ shown argument ++ " found".toList
  | .noPath => "a path is required".toList
  | .noValue switch =>
    "a value is required for ".toList ++ shown switch.usage ++ " but none was supplied".toList
  | .needlessValue switch value =>
    "unexpected value ".toList ++ shown value ++ " for ".toList ++ shown switch.usage
      ++ " found; no more were expected".toList
  | .repeated switch =>
    "the argument ".toList ++ shown switch.usage ++ " cannot be used multiple times".toList
  | .unknownFormat value =>
    "invalid value ".toList ++ shown value ++ " for ".toList ++ shown Arguments.Switch.format.usage
      ++ "\n  [possible values: text, json, json-pretty]".toList
  | .namelessTag switch value =>
    "invalid value ".toList ++ shown value ++ " for ".toList ++ shown switch.usage
      ++ ": expected name=payload, got ".toList ++ quoted value

/-- The text for readers. -/
def message (m : Misuse) : Text :=
  "error: ".toList ++ m.detail ++ "\n\nFor more information, try '--help'.".toList

end Misuse

end DocComment
