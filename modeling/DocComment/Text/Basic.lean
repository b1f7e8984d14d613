/-!
# Texts and their byte positions

A text is a list of characters. Positions in it are counted in bytes of its UTF-8 form, as editors
and compilers report them, so every cut is made at a number of bytes.

Cutting at the byte size of a first part gives back the two parts (`takeBytes_byteSize_append`,
`dropBytes_byteSize_append`), and the two sides of any cut at a boundary join to the whole text
(`takeBytes_append_dropBytes`).
-/

namespace DocComment

/-- A text, read from left to right. -/
abbrev Text := List Char

namespace Text

/-! ### Bytes -/

/-- The number of bytes of a text. -/
def byteSize : Text → Nat
  | [] => 0
  | c :: cs => c.utf8Size + byteSize cs

/-- The characters that fit into the first `n` bytes. -/
def takeBytes : Nat → Text → Text
  | _, [] => []
  | n, c :: cs => if c.utf8Size ≤ n then c :: takeBytes (n - c.utf8Size) cs else []

/-- The characters that do not fit into the first `n` bytes. -/
def dropBytes : Nat → Text → Text
  | _, [] => []
  | n, c :: cs => if c.utf8Size ≤ n then dropBytes (n - c.utf8Size) cs else c :: cs

/-- Whether a character starts at byte `n`, or the text ends there. -/
def isBoundary : Nat → Text → Bool
  | 0, _ => true
  | _ + 1, [] => false
  | n + 1, c :: cs => c.utf8Size ≤ n + 1 && isBoundary (n + 1 - c.utf8Size) cs

/-- The bytes from `start` up to `stop`. -/
def slice (start stop : Nat) (s : Text) : Text :=
  takeBytes (stop - start) (dropBytes start s)

/-- The bytes from `start` up to `stop`, if both are boundaries in this order. -/
def slice? (start stop : Nat) (s : Text) : Option Text :=
  if start ≤ stop && isBoundary start s && isBoundary stop s then some (slice start stop s)
  else none

@[simp] theorem byteSize_nil : byteSize [] = 0 := rfl

@[simp] theorem byteSize_cons (c : Char) (s : Text) :
    byteSize (c :: s) = c.utf8Size + byteSize s := rfl

@[simp] theorem byteSize_append (s t : Text) : byteSize (s ++ t) = byteSize s + byteSize t := by
  induction s with
  | nil => simp
  | cons c s ih => simp [ih, Nat.add_assoc]

@[simp] theorem takeBytes_byteSize_append (s t : Text) : takeBytes (byteSize s) (s ++ t) = s := by
  induction s with
  | nil => cases t with
    | nil => rfl
    | cons c t => simp [takeBytes, Nat.not_le.2 c.utf8Size_pos]
  | cons c s ih => simp [takeBytes, ih]

@[simp] theorem dropBytes_byteSize_append (s t : Text) : dropBytes (byteSize s) (s ++ t) = t := by
  induction s with
  | nil => cases t with
    | nil => rfl
    | cons c t => simp [dropBytes, Nat.not_le.2 c.utf8Size_pos]
  | cons c s ih => simp [dropBytes, ih]

/-- A cut loses nothing. -/
theorem takeBytes_append_dropBytes (n : Nat) (s : Text) : takeBytes n s ++ dropBytes n s = s := by
  induction s generalizing n with
  | nil => rfl
  | cons c s ih =>
    by_cases h : c.utf8Size ≤ n
    · simp [takeBytes, dropBytes, h, ih]
    · simp [takeBytes, dropBytes, h]

/-! ### Ends -/

/-- The text without the characters of the class `p` at its end. -/
def trimEndBy (p : Char → Bool) (s : Text) : Text :=
  (s.reverse.dropWhile p).reverse

/-- The text without the characters of the class `p` at both ends. -/
def trimBy (p : Char → Bool) (s : Text) : Text :=
  trimEndBy p (s.dropWhile p)

/-- What follows `start` in a text that starts with it. -/
def dropPrefix? : Text → Text → Option Text
  | [], s => some s
  | _ :: _, [] => none
  | p :: ps, c :: cs => if p = c then dropPrefix? ps cs else none

/-- The text without all the copies of `start` that it starts with. -/
def dropCopies (start : Text) (s : Text) : Text :=
  match dropPrefix? start s with
  | none => s
  | some r => if r.length < s.length then dropCopies start r else s
termination_by s.length

/-! ### Parts -/

/-- The text cut at every `c`: one part more than there are copies of `c`. -/
def splitOn (c : Char) : Text → List Text
  | [] => [[]]
  | d :: ds =>
    if d = c then [] :: splitOn c ds
    else match splitOn c ds with
      | [] => [[d]]
      | part :: parts => (d :: part) :: parts

/-- The lines of a text. Each ends before a line feed, and before the one carriage return that may
stand in front of it; after the last line feed there is a line only if there is text. -/
def lines (s : Text) : List Text :=
  let parts := splitOn '\n' s
  let ended := parts.dropLast.map fun part =>
    if part.getLast? = some '\r' then part.dropLast else part
  match parts.getLast? with
  | none | some [] => ended
  | some last => ended ++ [last]

/-- The two sides of the first copy of `part`, the copy belonging to neither. -/
def cutAt? (part : Text) : Text → Option (Text × Text)
  | [] => if part = [] then some ([], []) else none
  | c :: cs =>
    match dropPrefix? part (c :: cs) with
    | some r => some ([], r)
    | none => (cutAt? part cs).map fun (l, r) => (c :: l, r)

/-- Whether `part` stands somewhere in the text. -/
def contains (part : Text) (s : Text) : Bool := (cutAt? part s).isSome

/-- The decimal digits of a number. -/
def decimal (n : Nat) : Text := Nat.toDigits 10 n

/-- The text with `c` in front until it has `width` characters. -/
def padStart (width : Nat) (c : Char) (s : Text) : Text :=
  List.replicate (width - s.length) c ++ s

/-- The text with `c` behind it until it has `width` characters. -/
def padEnd (width : Nat) (c : Char) (s : Text) : Text :=
  s ++ List.replicate (width - s.length) c

end Text

end DocComment
