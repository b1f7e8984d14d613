import DocComment.Node

/-!
# Attributes of nodes

Beside its nodes a comment has a table of attributes: where a node was read, and whether it was made
or changed since. Readers of the library may keep attributes of their own there.

A table answers what was set last (`get?_set`), and setting one attribute leaves the others
(`get?_set_of_ne`).
-/

namespace DocComment.Attribute

/-- What an attribute is attached to. -/
inductive Target where
  /-- The comment itself. -/
  | root
  | node (id : NodeId)
  deriving DecidableEq, Repr, Inhabited

/-- What an attribute says, in the order in which attributes are listed. -/
inductive Key where
  /-- The tokens that the node was read from. -/
  | startAndEnd
  /-- The node was made after the comment was read. -/
  | synthesized
  /-- The content of the node was changed after it was read. -/
  | changed
  /-- The byte at which the last node that was read ends. -/
  | lastTokenPosition
  | custom (name : Text)
  deriving DecidableEq, Repr, Inhabited

/-- The name of a key. -/
def Key.text : Key → Text
  | .startAndEnd => "start_and_end".toList
  | .synthesized => "synthesized".toList
  | .changed => "changed".toList
  | .lastTokenPosition => "last_token_position".toList
  | .custom name => "custom:".toList ++ name

/-- The place of the kinds of keys in their order. -/
def Key.rank : Key → Nat
  | .startAndEnd => 0
  | .synthesized => 1
  | .changed => 2
  | .lastTokenPosition => 3
  | .custom _ => 4

/-- The order of keys. Custom keys come last and are ordered by their names. -/
def Key.le (a b : Key) : Bool :=
  match a, b with
  | .custom m, .custom n => !(decide (n < m))
  | _, _ => a.rank ≤ b.rank

/-- The value of an attribute. -/
inductive Value where
  | span (span : Span)
  | flag (flag : Bool)
  | offset (offset : Nat)
  | text (text : Text)
  deriving DecidableEq, Repr, Inhabited

/-- The attributes of a comment and its nodes. No target has two entries of one key. -/
structure Table where
  entries : List ((Target × Key) × Value) := []
  deriving DecidableEq, Repr, Inhabited

namespace Table

/-- The value of an attribute. -/
def get? (a : Table) (t : Target) (k : Key) : Option Value := a.entries.lookup (t, k)

/-- The table without an attribute. -/
def remove (a : Table) (t : Target) (k : Key) : Table :=
  ⟨a.entries.filter fun e => e.1 ≠ (t, k)⟩

/-- The table with an attribute of this value. -/
def set (a : Table) (t : Target) (k : Key) (v : Value) : Table :=
  ⟨((t, k), v) :: (a.remove t k).entries⟩

/-- All attributes of a target, in the order of their keys. -/
def all (a : Table) (t : Target) : List (Key × Value) :=
  let own := a.entries.filterMap fun ((t', k), v) => if t' = t then some (k, v) else none
  own.mergeSort fun x y => x.1.le y.1

@[simp] theorem get?_set (a : Table) (t : Target) (k : Key) (v : Value) :
    (a.set t k v).get? t k = some v := by
  simp [get?, set]

theorem get?_set_of_ne (a : Table) {t t' : Target} {k k' : Key} (v : Value)
    (h : (t', k') ≠ (t, k)) : (a.set t k v).get? t' k' = a.get? t' k' := by
  obtain ⟨es⟩ := a
  have hne : ((t', k') == (t, k)) = false := by simpa using h
  simp only [get?, set, remove, List.lookup_cons, hne]
  induction es with
  | nil => rfl
  | cons e es ih =>
    obtain ⟨k₀, v₀⟩ := e
    by_cases h₀ : k₀ = (t, k)
    · subst h₀
      simpa [List.lookup_cons, hne] using ih
    · by_cases h₁ : (t', k') = k₀
      · simp [← h₁, h]
      · have h₂ : ((t', k') == k₀) = false := by simpa using h₁
        simpa [List.filter_cons, List.lookup_cons, h₀, h₂] using ih

/-! ### Attributes of the library -/

/-- The tokens that a node was read from. -/
def span? (a : Table) (id : NodeId) : Option Span :=
  match a.get? (.node id) .startAndEnd with
  | some (.span s) => some s
  | _ => none

/-- Notes the tokens that a node was read from. -/
def setSpan (a : Table) (id : NodeId) (s : Span) : Table := a.set (.node id) .startAndEnd (.span s)

/-- Whether a node was made after the comment was read. -/
def isSynthesized (a : Table) (id : NodeId) : Bool :=
  a.get? (.node id) .synthesized = some (.flag true)

/-- Notes that a node was made after the comment was read. -/
def markSynthesized (a : Table) (id : NodeId) : Table :=
  a.set (.node id) .synthesized (.flag true)

/-- Whether a node was changed after it was read. -/
def isChanged (a : Table) (id : NodeId) : Bool :=
  a.get? (.node id) .changed = some (.flag true)

/-- Notes that a node was changed after it was read. -/
def markChanged (a : Table) (id : NodeId) : Table := a.set (.node id) .changed (.flag true)

/-- The byte at which the last node that was read ends. -/
def lastTokenPosition? (a : Table) : Option Nat :=
  match a.get? .root .lastTokenPosition with
  | some (.offset n) => some n
  | _ => none

/-- Notes the byte at which the last node that was read ends. -/
def setLastTokenPosition (a : Table) (n : Nat) : Table :=
  a.set .root .lastTokenPosition (.offset n)

end Table

end DocComment.Attribute
