import DocComment.Tag.Value
import DocComment.Text.Alphanumeric

/-!
# Reading payloads

Two forms are read: `type [variable] [description]` (`TypedValue.read?`), and a method signature
`[static] [type] name(params) [description]` (`MethodPayload.read?`), whose parameters are separated
by the commas that stand in no further bracket. What fits neither form is not read at all.
-/

namespace DocComment

open Text

/-! ### A type, a variable and a description -/

/-- Whether a word is a variable: a `$` and more, after marks for references and variable
arguments. -/
def isVariable (word : Text) : Bool :=
  match dropCopies ['.', '.', '.'] (word.dropWhile (· = '&')) with
  | '$' :: _ :: _ => true
  | _ => false

/-- Reads a type that is followed by white space or nothing, then a variable if one may stand there,
and takes the rest as the description. -/
def TypedValue.read? (types : TypeSyntax) (withVariable : Bool) (payload : Text) :
    Option TypedValue := do
  let (type, size) ← types.read? payload
  let rest := dropBytes size payload
  if rest.head?.any (!isWhiteSpace ·) then none
  let rest := trimStart rest
  let word := rest.takeWhile (!isWhiteSpace ·)
  if withVariable && isVariable word then
    return ⟨type, some word, trimStart (rest.dropWhile (!isWhiteSpace ·))⟩
  else
    return ⟨type, none, rest⟩

/-! ### Fragments -/

/-- A part of a payload, with the bytes that it takes. -/
structure Fragment where
  text : Text
  start : Nat
  stop : Nat
  deriving DecidableEq, Repr, Inhabited

/-- The fragment at byte `start` without the white space around it, unless nothing is left. -/
def Fragment.ofPiece? (start : Nat) (piece : Text) : Option Fragment :=
  match trim piece with
  | [] => none
  | text =>
    let start := start + byteSize (piece.takeWhile isWhiteSpace)
    some ⟨text, start, start + byteSize text⟩

/-- The fragments of pieces that follow each other from byte `start`, with a comma between any
two. -/
def Fragment.ofPieces (start : Nat) : List Text → List Fragment
  | [] => []
  | piece :: pieces =>
    let rest := ofPieces (start + byteSize piece + 1) pieces
    match Fragment.ofPiece? start piece with
    | none => rest
    | some fragment => fragment :: rest

/-! ### Method signatures -/

/-- The text up to the parenthesis that closes the one open in front of it and `depth` more, and
what follows. -/
def cutAtClosing? : (depth : Nat) → Text → Option (Text × Text)
  | _, [] => none
  | 0, ')' :: cs => some ([], cs)
  | depth + 1, ')' :: cs => (cutAtClosing? depth cs).map fun (l, r) => (')' :: l, r)
  | depth, c :: cs =>
    (cutAtClosing? (if c = '(' then depth + 1 else depth) cs).map fun (l, r) => (c :: l, r)

/-- How a character changes the number of open brackets. -/
def bracketStep (c : Char) : Int :=
  if c ∈ ['(', '<', '[', '\x7b'] then 1 else if c ∈ [')', '>', ']', '\x7d'] then -1 else 0

/-- The pieces between the commas at which as many brackets have been opened as closed, starting
with `depth` more opened than closed. The depth has no bound. A signed counter of 32 bits gives the
same pieces in every text of fewer than `2 ^ 31` brackets. -/
def splitParams (depth : Int) : Text → List Text
  | [] => [[]]
  | c :: cs =>
    if c = ',' ∧ depth = 0 then [] :: splitParams depth cs
    else match splitParams (depth + bracketStep c) cs with
      | [] => [[c]]
      | piece :: pieces => (c :: piece) :: pieces

/-- A method name has letters and digits of any script, and underscores. -/
def isMethodName (s : Text) : Bool := s ≠ [] && s.all fun c => isAlphanumeric c || c = '_'

/-- What follows the word `static`, if another word follows it. -/
def afterStatic? (head : Text) : Option Text :=
  match dropPrefix? "static".toList head with
  | some (c :: rest) =>
    if isWhiteSpace c && trimStart rest ≠ [] then some (trimStart rest) else none
  | _ => none

/-- Reads `[static] [type] name`. The name is the last word, and the type is all that stands in
front of it. -/
def Signature.read? (types : TypeSyntax) (head : Text) : Option Signature := do
  let static? := afterStatic? head
  let words := trimEnd (static?.getD head)
  let method := (words.reverse.takeWhile (!isWhiteSpace ·)).reverse
  let before := (words.reverse.dropWhile (!isWhiteSpace ·)).reverse
  if !isMethodName method then none
  if before = [] then return ⟨static?.isSome, none, method⟩
  let typeText := trimEnd before
  let (type, size) ← types.read? typeText
  if size = byteSize typeText then return ⟨static?.isSome, some type, method⟩ else none

/-- A method with its parameters and a description. -/
structure MethodPayload where
  signature : Signature
  params : List Fragment
  description : Text
  deriving DecidableEq, Repr, Inhabited

/-- Reads `[static] [type] name(params) [description]`. The parameters reach from the first opening
parenthesis to the one that closes it. -/
def MethodPayload.read? (types : TypeSyntax) (payload : Text) : Option MethodPayload := do
  let (head, rest) ← cutAt? ['('] payload
  let (params, rest) ← cutAtClosing? 0 rest
  let signature ← Signature.read? types head
  return {
    signature
    params := Fragment.ofPieces (byteSize head + 1) (splitParams 0 params)
    description := trim rest }

end DocComment
