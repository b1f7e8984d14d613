import DocComment.Text.Basic

/-!
# Names and options of commands

The words by which the command line knows commands, and the options of each with their long and
short names.
-/

namespace DocComment.Arguments

/-- The names of commands. -/
inductive Verb where
  | tokens
  | parse
  | roundTrip
  | edit
  | init
  deriving DecidableEq, Repr, Inhabited

/-- The command of a name. -/
def Verb.ofName? (s : Text) : Option Verb :=
  [("tokens", Verb.tokens), ("parse", .parse), ("roundtrip", .roundTrip), ("edit", .edit),
    ("init", .init)].findSome? fun (name, verb) => if name.toList = s then some verb else none

/-- The options of the program and its commands. -/
inductive Switch where
  | config
  | verbose
  | help
  | version
  | format
  | remove
  | replace
  | add
  | write
  | output
  deriving DecidableEq, Repr, Inhabited

namespace Switch

/-- Whether a value belongs to the option. -/
def takesValue : Switch → Bool
  | .config | .format | .remove | .replace | .add | .output => true
  | .verbose | .help | .version | .write => false

/-- The long names of options. -/
def longName : Switch → Text
  | .config => "config".toList
  | .verbose => "verbose".toList
  | .help => "help".toList
  | .version => "version".toList
  | .format => "format".toList
  | .remove => "remove".toList
  | .replace => "replace".toList
  | .add => "add".toList
  | .write => "write".toList
  | .output => "output".toList

/-- The short names of those options that have one. -/
def shortName? : Switch → Option Char
  | .config => some 'c'
  | .verbose => some 'v'
  | .help => some 'h'
  | .version => some 'V'
  | .format => some 'f'
  | .output => some 'o'
  | .remove | .replace | .add | .write => none

/-- The options that may stand in front of the command, or behind it. -/
def known : Option Verb → List Switch
  | none => [.config, .verbose, .help, .version]
  | some .tokens | some .parse | some .roundTrip => [.config, .verbose, .help, .format]
  | some .edit => [.config, .verbose, .help, .remove, .replace, .add, .write, .format]
  | some .init => [.config, .verbose, .help, .output]

end Switch

end DocComment.Arguments
