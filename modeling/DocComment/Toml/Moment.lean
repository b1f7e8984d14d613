import DocComment.Text.WhiteSpace

/-!
# Reading TOML dates and times

A date, a time of the day, or both with an offset. Their values play no part, so only what follows
them is given; one that is out of range is not read.
-/

namespace DocComment.Toml

open Text

/-- Reads a number of exactly `count` digits in a range. -/
def readFixed? (count least most : Nat) (s : Text) : Option (Nat × Text) :=
  let digits := s.take count
  let n := digits.foldl (fun n c => 10 * n + (c.toNat - '0'.toNat)) 0
  if digits.length = count && digits.all Char.isDigit && least ≤ n && n ≤ most then
    some (n, s.drop count)
  else none

/-- The number of days of a month. -/
def daysOfMonth (year month : Nat) : Nat :=
  if month = 2 then
    if year % 4 = 0 && (year % 100 ≠ 0 || year % 400 = 0) then 29 else 28
  else if month ∈ [4, 6, 9, 11] then 30 else 31

/-- What follows a date. -/
def afterDate? (s : Text) : Option Text := do
  let (year, s) ← readFixed? 4 0 9999 s
  let s ← dropPrefix? ['-'] s
  let (month, s) ← readFixed? 2 1 12 s
  let s ← dropPrefix? ['-'] s
  let (_, s) ← readFixed? 2 1 (daysOfMonth year month) s
  return s

/-- What follows a time of the day. -/
def afterTime? (s : Text) : Option Text := do
  let (_, s) ← readFixed? 2 0 23 s
  let s ← dropPrefix? [':'] s
  let (_, s) ← readFixed? 2 0 59 s
  let s ← dropPrefix? [':'] s
  let (_, s) ← readFixed? 2 0 60 s
  match s with
  | '.' :: c :: rest => if c.isDigit then return rest.dropWhile Char.isDigit else none
  | ['.'] => none
  | s => return s

/-- What follows the distance of a time from the universal one, if there is one. -/
def afterOffset (s : Text) : Text :=
  match s with
  | 'Z' :: rest | 'z' :: rest => rest
  | sign :: rest =>
    let after? : Option Text := do
      let (_, s) ← readFixed? 2 0 23 rest
      let s ← dropPrefix? [':'] s
      let (_, s) ← readFixed? 2 0 59 s
      return s
    if sign = '+' || sign = '-' then after?.getD s else s
  | [] => []

/-- What follows a date, a time, or both. -/
def afterMoment? (s : Text) : Option Text :=
  match afterDate? s with
  | none => afterTime? s
  | some rest =>
    match rest with
    | c :: time =>
      if c = 'T' || c = 't' || c = ' ' then some (((afterTime? time).map afterOffset).getD rest)
      else some rest
    | [] => some []

end DocComment.Toml
