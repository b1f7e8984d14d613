import DocComment.TypeExpr.Reader

/-!
# What tags say

The text after a tag's name, its *payload*, is kept as it is, or as a type with a variable and a
description, or as a method signature. Each form is written back with a given syntax of types.
-/

namespace DocComment

/-- A payload `type [variable] [description]`. -/
structure TypedValue where
  type : TypeExpr
  /-- The variable with its marks for references and variable arguments, such as `&...$rest`. -/
  var? : Option Text
  description : Text
  deriving DecidableEq, Repr, Inhabited

/-- The payload of a tag without fragments. -/
inductive TagValue where
  /-- A payload that is not looked into. -/
  | generic (raw : Text)
  | typed (value : TypedValue)
  deriving DecidableEq, Repr, Inhabited

/-- What stands before the parameters of a method. -/
structure Signature where
  isStatic : Bool
  returnType? : Option TypeExpr
  method : Text
  deriving DecidableEq, Repr, Inhabited

/-- A blank and the text, or nothing if there is no text. -/
def afterBlank : Text → Text
  | [] => []
  | s => ' ' :: s

/-- The payload `type [variable] [description]`. -/
def TypedValue.write (types : TypeSyntax) (v : TypedValue) : Text :=
  types.write v.type ++ (v.var?.elim [] (' ' :: ·)) ++ afterBlank v.description

namespace TagValue

/-- The payload that says this. -/
def write (types : TypeSyntax) : TagValue → Text
  | .generic raw => raw
  | .typed v => v.write types

/-- The type, if the payload was read as one. -/
def type? : TagValue → Option TypeExpr
  | .generic _ => none
  | .typed v => some v.type

/-- The variable, if the payload names one. -/
def var? : TagValue → Option Text
  | .generic _ => none
  | .typed v => v.var?

end TagValue

/-- The signature `[static] [type] name`. -/
def Signature.write (types : TypeSyntax) (s : Signature) : Text :=
  (if s.isStatic then "static ".toList else [])
    ++ s.returnType?.elim [] (fun t => types.write t ++ [' ']) ++ s.method

end DocComment
