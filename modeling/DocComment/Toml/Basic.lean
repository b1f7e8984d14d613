import DocComment.Text.Basic

/-!
# TOML values

A document is a table of named values. Tables come about in four ways, and which of them may still
get fields depends on that: a table with a header of its own may not be opened again by dotted keys,
and an inline table is complete where it stands.
-/

namespace DocComment

/-- How a table came about. -/
inductive Toml.TableKind where
  /-- It has a header. -/
  | header
  /-- It stands on the path of another table's header. -/
  | implied
  /-- It stands on the path of a dotted key. -/
  | dotted
  /-- It is written between braces. -/
  | inline
  deriving DecidableEq, Repr, Inhabited

/-- A TOML value. -/
inductive Toml where
  | string (s : Text)
  | number (written : Text)
  | boolean (b : Bool)
  /-- A date, a time, or both. -/
  | moment (written : Text)
  | array (items : List Toml)
  | table (kind : Toml.TableKind) (fields : List (Text × Toml))
  /-- Tables that share a header between double brackets. -/
  | tables (elements : List (List (Text × Toml)))
  deriving Repr, Inhabited

namespace Toml

/-- The named values of a table. -/
abbrev Fields := List (Text × Toml)

/-- The fields with another value for a name, which comes last if it is new. -/
def Fields.set (fields : Fields) (name : Text) (value : Toml) : Fields :=
  if (fields.lookup name).isSome then
    fields.map fun (n, v) => if n = name then (n, value) else (n, v)
  else fields ++ [(name, value)]

/-- Whether a table may get fields through a path that makes tables of kind `made`. -/
def TableKind.opens (made : TableKind) : TableKind → Bool
  | .inline => false
  | .header => made ≠ .dotted
  | .implied | .dotted => true

/-- Changes the fields of the table at the end of a path. Tables that are missing on the way are
made of kind `made`, and of tables with a common header the last is taken. The change is told the
kind of its table. -/
def Fields.changeAt? (made : TableKind) (change? : TableKind → Fields → Option Fields) :
    (path : List Text) → TableKind → Fields → Option Fields
  | [], kind, fields => change? kind fields
  | name :: path, _, fields =>
    match fields.lookup name with
    | none =>
      (changeAt? made change? path made []).map fun inner => fields.set name (.table made inner)
    | some (.table kind inner) =>
      if made.opens kind then
        (changeAt? made change? path kind inner).map fun inner =>
          fields.set name (.table kind inner)
      else none
    | some (.tables elements) =>
      match elements.getLast? with
      | none => none
      | some last =>
        (changeAt? made change? path .header last).map fun last =>
          fields.set name (.tables (elements.dropLast ++ [last]))
    | some _ => none

/-- A dotted key: the path to a table, and a name in it. -/
structure Key where
  path : List Text
  name : Text
  deriving DecidableEq, Repr, Inhabited

/-- Adds a value under a key that must be new. The tables on the key's path must have come about by
dotted keys. -/
def Fields.insert? (fields : Fields) (key : Key) (value : Toml) : Option Fields :=
  fields.changeAt? .dotted
    (fun kind inner =>
      if (key.path ≠ [] && kind ≠ .dotted) || (inner.lookup key.name).isSome then none
      else some (inner ++ [(key.name, value)]))
    key.path .header

/-- Adds a table with a header, which must have neither header nor dotted keys yet. -/
def Fields.openTable? (fields : Fields) (key : Key) : Option Fields :=
  fields.changeAt? .implied
    (fun _ inner =>
      match inner.lookup key.name with
      | none => some (inner.set key.name (.table .header []))
      | some (.table .implied own) => some (inner.set key.name (.table .header own))
      | some _ => none)
    key.path .header

/-- Adds another table to those that share this header. -/
def Fields.appendTable? (fields : Fields) (key : Key) : Option Fields :=
  fields.changeAt? .implied
    (fun _ inner =>
      match inner.lookup key.name with
      | none => some (inner.set key.name (.tables [[]]))
      | some (.tables elements) => some (inner.set key.name (.tables (elements ++ [[]])))
      | some _ => none)
    key.path .header

/-- Adds a value under a key to the table at a path. -/
def Fields.insertBelow? (fields : Fields) (path : List Text) (key : Key) (value : Toml) :
    Option Fields :=
  fields.changeAt? .implied (fun _ inner => inner.insert? key value) path .header

end Toml

end DocComment
