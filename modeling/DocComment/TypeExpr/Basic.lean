import DocComment.Text.Basic

/-!
# Type expressions

The types that stand in tags: names, nullable types, rows of a type, unions, intersections, and
names with parameters. `TypeExpr.text` writes a type; a union or an intersection that another form
holds is put between parentheses where it would be read differently without them.
-/

namespace DocComment

/-- A type as a tag states it. -/
inductive TypeExpr where
  | name (name : Text)
  /-- The type or null, written `?T`. -/
  | nullable (inner : TypeExpr)
  | union (types : List TypeExpr)
  | intersection (types : List TypeExpr)
  /-- Rows of a type, written `T[]`. -/
  | array (item : TypeExpr)
  /-- A name with parameters, written `base<T, U>`. -/
  | generic (base : Text) (params : List TypeExpr)
  deriving Repr, Inhabited

namespace TypeExpr

/-! ### Equality -/

mutual

/-- Types are compared form by form. -/
def decEq : (a b : TypeExpr) → Decidable (a = b)
  | .name a, .name b => decidable_of_iff (a = b) (by simp)
  | .nullable a, .nullable b =>
    match decEq a b with
    | isTrue h => isTrue (by rw [h])
    | isFalse h => isFalse (by simpa using h)
  | .union as, .union bs =>
    match decEqs as bs with
    | isTrue h => isTrue (by rw [h])
    | isFalse h => isFalse (by simpa using h)
  | .intersection as, .intersection bs =>
    match decEqs as bs with
    | isTrue h => isTrue (by rw [h])
    | isFalse h => isFalse (by simpa using h)
  | .array a, .array b =>
    match decEq a b with
    | isTrue h => isTrue (by rw [h])
    | isFalse h => isFalse (by simpa using h)
  | .generic a as, .generic b bs =>
    if ha : a = b then
      match decEqs as bs with
      | isTrue h => isTrue (by rw [ha, h])
      | isFalse h => isFalse (by simp [h])
    else isFalse (by simp [ha])
  | .name _, .nullable _ | .name _, .union _ | .name _, .intersection _ | .name _, .array _
  | .name _, .generic _ _ | .nullable _, .name _ | .nullable _, .union _
  | .nullable _, .intersection _ | .nullable _, .array _ | .nullable _, .generic _ _
  | .union _, .name _ | .union _, .nullable _ | .union _, .intersection _ | .union _, .array _
  | .union _, .generic _ _ | .intersection _, .name _ | .intersection _, .nullable _
  | .intersection _, .union _ | .intersection _, .array _ | .intersection _, .generic _ _
  | .array _, .name _ | .array _, .nullable _ | .array _, .union _ | .array _, .intersection _
  | .array _, .generic _ _ | .generic _ _, .name _ | .generic _ _, .nullable _
  | .generic _ _, .union _ | .generic _ _, .intersection _ | .generic _ _, .array _ =>
    isFalse nofun

/-- Lists of types are compared member by member. -/
def decEqs : (as bs : List TypeExpr) → Decidable (as = bs)
  | [], [] => isTrue rfl
  | a :: as, b :: bs =>
    match decEq a b, decEqs as bs with
    | isTrue h, isTrue hs => isTrue (by rw [h, hs])
    | isFalse h, _ => isFalse (by simp [h])
    | _, isFalse h => isFalse (by simp [h])
  | [], _ :: _ | _ :: _, [] => isFalse nofun

end

instance : DecidableEq TypeExpr := decEq

/-! ### Writing -/

/-- Unions and intersections, whose members are joined by signs. -/
def isCompound : TypeExpr → Bool
  | .union _ | .intersection _ => true
  | _ => false

/-- The text between parentheses if `b` holds. -/
def parenthesizedIf (b : Bool) (s : Text) : Text := if b then '(' :: s ++ [')'] else s

mutual

/-- The written form of a type. -/
def text : TypeExpr → Text
  | .name n => n
  | .nullable t => '?' :: parenthesizedIf t.isCompound t.text
  | .array t => parenthesizedIf t.isCompound t.text ++ ['[', ']']
  | .union ts => ['|'].intercalate (texts ts)
  | .intersection ts => ['&'].intercalate (memberTexts ts)
  | .generic base ts => base ++ '<' :: [',', ' '].intercalate (texts ts) ++ ['>']

/-- The written forms of types. -/
def texts : List TypeExpr → List Text
  | [] => []
  | t :: ts => t.text :: texts ts

/-- The written forms of the members of an intersection. -/
def memberTexts : List TypeExpr → List Text
  | [] => []
  | t :: ts => parenthesizedIf (t matches .union _) t.text :: memberTexts ts

end

theorem texts_eq_map (ts : List TypeExpr) : texts ts = ts.map text := by
  induction ts with
  | nil => rfl
  | cons t ts ih => simp [texts, ih]

theorem memberTexts_eq_map (ts : List TypeExpr) :
    memberTexts ts = ts.map fun t => parenthesizedIf (t matches .union _) t.text := by
  induction ts with
  | nil => rfl
  | cons t ts ih => simp [memberTexts, ih]

/-! ### What a type says -/

mutual

/-- The names that a type refers to, from left to right. -/
def names : TypeExpr → List Text
  | .name n => [n]
  | .nullable t | .array t => t.names
  | .union ts | .intersection ts => namesOf ts
  | .generic base ts => base :: namesOf ts

/-- The names that types refer to, from left to right. -/
def namesOf : List TypeExpr → List Text
  | [] => []
  | t :: ts => t.names ++ namesOf ts

end

/-- Whether a name is `null`, in letters of either case. -/
def isNull (name : Text) : Bool := name.map Char.toLower = ['n', 'u', 'l', 'l']

mutual

/-- Whether null is among the values: by `?`, or as a member of a union. -/
def isNullable : TypeExpr → Bool
  | .nullable _ => true
  | .name n => isNull n
  | .union ts => anyNullable ts
  | _ => false

/-- Whether null is among the values of one of the types. -/
def anyNullable : List TypeExpr → Bool
  | [] => false
  | t :: ts => t.isNullable || anyNullable ts

end

end TypeExpr

end DocComment
