import DocComment.Command.Basic
import DocComment.Command.Misuse

/-!
# Arguments of the command line

The arguments are read from left to right: options of the program, the name of a command, and the
command's options and path. Options have long names after two hyphens, with the value behind a `=`
or in the next argument, and short ones of one letter after one hyphen, several of which may share
an argument. After two hyphens alone nothing is an option.

The first argument that cannot be read ends the reading. A value in an argument of its own is held
until the next option or path is read, and those in front of the command until all else has been
read; only then it is looked at.
-/

namespace DocComment

open Text

/-- What the arguments ask for. -/
inductive Request where
  | run (invocation : Invocation)
  | help
  | version
  /-- The arguments cannot be read. -/
  | misuse (cause : Misuse)
  deriving DecidableEq, Repr, Inhabited

namespace Arguments

/-- What has been read but not looked at. -/
inductive Held where
  /-- An option whose value is to follow. -/
  | waiting (switch : Switch)
  | option (switch : Switch) (value : Text)
  | path (path : Text)
  deriving DecidableEq, Repr, Inhabited

/-- What has been read. -/
structure Given where
  config? : Option Text := none
  verbose : Bool := false
  format? : Option Report.Format := none
  plan : EditPlan := {}
  write : Bool := false
  output? : Option Text := none
  path? : Option Text := none
  held? : Option Held := none
  deriving Repr, Inhabited

/-- What has been read, unless an argument settles the request. -/
abbrev Parsed := Except Request

/-- Reads the name of a form of reports. -/
def formatOf? (s : Text) : Option Report.Format :=
  if s = "text".toList then some .text
  else if s = "json".toList then some .json
  else if s = "json-pretty".toList then some .prettyJson
  else none

/-- Reads a tag as `name=payload`. A tag without `=` has no payload. -/
def tagOf? (s : Text) : Option (Text × Text) :=
  let (name, payload) := (cutAt? ['='] s).getD (s, [])
  if trim name = [] then none else some (trim name, payload)

/-! ### Values -/

/-- Ends the reading. -/
def refuse (cause : Misuse) : Parsed α := throw (.misuse cause)

/-- Lets an option pass that may be given once. -/
def checkNew (switch : Switch) (given : Bool) : Parsed Unit :=
  if given then refuse (.repeated switch) else pure ()

/-- Reads the path that an option takes. -/
def pathFor (switch : Switch) (value : Text) : Parsed Text :=
  if value = [] then refuse (.noValue switch) else pure value

/-- Reads the form of reports that an option takes. -/
def formatFor (value : Text) : Parsed Report.Format :=
  match formatOf? value with
  | some format => pure format
  | none => refuse (.unknownFormat value)

/-- Reads the tag that an option takes. -/
def tagFor (switch : Switch) (value : Text) : Parsed (Text × Text) :=
  match tagOf? value with
  | some tag => pure tag
  | none => refuse (.namelessTag switch value)

/-- Notes an option with its value. -/
def Given.take (g : Given) (switch : Switch) (value : Text) : Parsed Given := do
  match switch with
  | .config =>
    checkNew switch g.config?.isSome
    return { g with config? := some (← pathFor switch value) }
  | .verbose =>
    checkNew switch g.verbose
    return { g with verbose := true }
  | .help => throw .help
  | .version => throw .version
  | .format =>
    checkNew switch g.format?.isSome
    return { g with format? := some (← formatFor value) }
  | .remove => return { g with plan := { g.plan with remove := g.plan.remove ++ [value] } }
  | .replace =>
    let tag ← tagFor switch value
    return { g with plan := { g.plan with replace := g.plan.replace ++ [tag] } }
  | .add =>
    let tag ← tagFor switch value
    return { g with plan := { g.plan with add := g.plan.add ++ [tag] } }
  | .write =>
    checkNew switch g.write
    return { g with write := true }
  | .output =>
    checkNew switch g.output?.isSome
    return { g with output? := some (← pathFor switch value) }

/-- Looks at what is held. -/
def Given.settle (g : Given) : Parsed Given :=
  let settled := { g with held? := none }
  match g.held? with
  | none => return settled
  | some (.waiting switch) => refuse (.noValue switch)
  | some (.option switch value) => settled.take switch value
  | some (.path path) =>
    if path = [] then refuse .noPath else return { settled with path? := some path }

/-- The option that waits for its value. -/
def Given.waiting? (g : Given) : Option Switch :=
  match g.held? with
  | some (.waiting switch) => some switch
  | _ => none

/-! ### Options -/

/-- Whether an argument looks like an option. -/
def isOption : Text → Bool
  | '-' :: _ :: _ => true
  | _ => false

/-- Whether a path may stand among the arguments. -/
def allowsPath (verb? : Option Verb) : Bool := verb?.any (· ≠ .init)

/-- Reads short options that share an argument. An option that takes a value takes the rest of the
argument, or the next one if nothing is left. -/
def Given.takeShort (verb? : Option Verb) (g : Given) : Text → Parsed Given
  | [] => return g
  | c :: cs =>
    match (Switch.known verb?).find? (·.shortName? = some c) with
    | none => refuse (.unknownOption ['-', c] (allowsPath verb?))
    | some switch => do
      let g ← g.settle
      if switch.takesValue then
        match cs with
        | [] => return { g with held? := some (.waiting switch) }
        | '=' :: value => g.take switch value
        | value => g.take switch value
      else Given.takeShort verb? (← g.take switch []) cs

/-- Reads a long option. -/
def Given.takeLong (verb? : Option Verb) (g : Given) (s : Text) : Parsed Given := do
  let (name, value?) := match cutAt? ['='] s with
    | some (name, value) => (name, some value)
    | none => (s, none)
  match (Switch.known verb?).find? (·.longName = name), value? with
  | none, _ => refuse (.unknownOption ("--".toList ++ name) (allowsPath verb?))
  | some switch, some value =>
    if switch.takesValue then (← g.settle).take switch value
    else refuse (.needlessValue switch value)
  | some switch, none =>
    let g ← g.settle
    if switch.takesValue then return { g with held? := some (.waiting switch) }
    else g.take switch []

/-- Reads an argument that looks like an option. -/
def Given.takeOption (verb? : Option Verb) (g : Given) : Text → Parsed Given
  | '-' :: '-' :: s => g.takeLong verb? s
  | '-' :: s => g.takeShort verb? s
  | s => refuse (.extraArgument s)

/-! ### Commands -/

/-- Whether a path has been read. -/
def Given.hasPath (g : Given) : Bool :=
  match g.held? with
  | some (.path _) => true
  | _ => g.path?.isSome

/-- Holds a path. A command has one at most, and the one that writes settings has none. -/
def Given.holdPath (g : Given) (verb : Verb) (path : Text) : Parsed Given := do
  if !allowsPath (some verb) || g.hasPath then refuse (.extraArgument path)
  else return { ← g.settle with held? := some (.path path) }

/-- Reads the arguments behind a command. With `optionsEnded` all of them are paths. -/
def readOwn (verb : Verb) (optionsEnded : Bool) (g : Given) : List Text → Parsed Given
  | [] => g.settle
  | arg :: args => do
    if optionsEnded then readOwn verb true (← g.holdPath verb arg) args
    else if arg = ['-', '-'] then readOwn verb true g args
    else if isOption arg then readOwn verb false (← g.takeOption (some verb) arg) args
    else match g.waiting? with
      | some switch => readOwn verb false { g with held? := some (.option switch arg) } args
      | none => readOwn verb false (← g.holdPath verb arg) args

/-- Whether there is help on a word. -/
def isTopic (name : Text) : Bool := (Verb.ofName? name).isSome || name = "help".toList

/-- What is asked for by these words behind the one for help. -/
def helpOn : List Text → Request
  | [] => .help
  | name :: rest =>
    if !isTopic name then .misuse (.unknownCommand name)
    else match rest with
      | [] => .help
      | name :: _ => .misuse (.unknownCommand name)

/-- Reads the arguments up to a command, and gives back those behind it. With `optionsEnded` no
command can follow. -/
def readGlobal (optionsEnded : Bool) (g : Given) :
    List Text → Parsed (Given × Verb × List Text)
  | [] => do
    let _ ← g.settle
    refuse .noCommand
  | arg :: args => do
    if optionsEnded then refuse (.unknownCommand arg)
    else if arg = ['-', '-'] then readGlobal true g args
    else if isOption arg then readGlobal false (← g.takeOption none arg) args
    else match g.waiting? with
      | some switch => readGlobal false { g with held? := some (.option switch arg) } args
      | none =>
        if arg = "help".toList then throw (helpOn args)
        else match Verb.ofName? arg with
          | some verb => return (g, verb, args)
          | none => refuse (.unknownCommand arg)

/-- The command that the arguments behind its name describe. -/
def Given.command (g : Given) (verb : Verb) : Parsed Command :=
  let format := g.format?.getD .text
  match verb, g.path? with
  | .init, _ => return .init (g.output?.getD settingsFile)
  | .roundTrip, path? => return .roundTrip (path?.getD ['.']) format
  | .tokens, some path => return .tokens path format
  | .parse, some path => return .parse path format
  | .edit, some path => return .edit path g.plan g.write format
  | _, none => refuse .noPath

/-- What the arguments ask for, if they are read to the end. -/
def readAll (args : List Text) : Parsed Invocation := do
  let (g, verb, args) ← readGlobal false {} args
  let own ← readOwn verb false {} args
  let command ← own.command verb
  let g ← g.settle
  return {
    settings := (own.config? <|> g.config?).getD settingsFile
    verbose := own.verbose || g.verbose
    command }

/-- What the arguments ask for. -/
def request (args : List Text) : Request :=
  match readAll args with
  | .ok invocation => .run invocation
  | .error request => request

end Arguments

end DocComment
