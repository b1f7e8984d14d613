import DocComment.Settings.Basic
import DocComment.Toml.Reader
import DocComment.Toml.Writer

/-!
# Settings as documents

Settings are kept in a TOML document with three sections. What the document leaves out has its
default, and names that mean nothing are passed over. A section may also be written as an array,
with its values in order.
-/

namespace DocComment

open Text

/-- A string. -/
def Toml.asText? : Toml → Option Text
  | .string s => some s
  | _ => none

/-- A list of strings. -/
def Toml.asTexts? : Toml → Option (List Text)
  | .array items => items.mapM Toml.asText?
  | .tables [] => some []
  | _ => none

/-- The value of one name in a section, the name's place among those of the section being `index`. A
date or time has no names. -/
def Toml.member? (section? : Option Toml) (name : String) (index : Nat) : Option Toml :=
  match section? with
  | some (.table _ fields) => fields.lookup name.toList
  | some (.array items) => items[index]?
  | some (.tables elements) => (elements[index]?).map (.table .header)
  | _ => none

/-- Whether a value can be a section. -/
def Toml.isSection : Toml → Bool
  | .table .. | .array _ | .tables _ | .moment _ => true
  | _ => false

namespace Settings

/-- The value that an entry has, or the default if there is no entry. -/
def entryOr (default' : α) (as? : Toml → Option α) (value? : Option Toml) : Option α :=
  match value? with
  | none => some default'
  | some value => as? value

/-- The settings of a document. -/
def ofFields? (fields : Toml.Fields) : Option Settings := do
  let printer? := fields.lookup "printer".toList
  let registry? := fields.lookup "registry".toList
  let scan? := fields.lookup "scan".toList
  if !([printer?, registry?, scan?].all fun s => s.all Toml.isSection) then none
  let d : Settings := {}
  let text (default' : Text) (s : Option Toml) (name : String) (index : Nat) : Option Text :=
    entryOr default' Toml.asText? (Toml.member? s name index)
  let texts (default' : List Text) (s : Option Toml) (name : String) (index : Nat) :
      Option (List Text) :=
    entryOr default' Toml.asTexts? (Toml.member? s name index)
  return {
    printer := ⟨← text d.printer.marker printer? "line_marker" 0⟩
    vocabulary := {
      variableTags := ← texts d.vocabulary.variableTags registry? "variable_tags" 0
      typedTags := ← texts d.vocabulary.typedTags registry? "typed_tags" 1
      vendorPrefixes := ← texts d.vocabulary.vendorPrefixes registry? "vendor_prefixes" 2 }
    scan := {
      extensions := ← texts d.scan.extensions scan? "extensions" 0
      exclude := ← texts d.scan.exclude scan? "exclude" 1 } }

/-- The settings that a text says. -/
def read? (s : Text) : Option Settings := (Toml.read? s).bind ofFields?

/-- The document of settings. -/
def write (s : Settings) : Text :=
  Toml.writeTable "printer" [Toml.writePair "line_marker" (Toml.writeString s.printer.marker)]
  ++ '\n' :: Toml.writeTable "registry" [
    Toml.writePair "variable_tags" (Toml.writeList s.vocabulary.variableTags),
    Toml.writePair "typed_tags" (Toml.writeList s.vocabulary.typedTags),
    Toml.writePair "vendor_prefixes" (Toml.writeList s.vocabulary.vendorPrefixes)]
  ++ '\n' :: Toml.writeTable "scan" [
    Toml.writePair "extensions" (Toml.writeList s.scan.extensions),
    Toml.writePair "exclude" (Toml.writeList s.scan.exclude)]

end Settings

end DocComment
