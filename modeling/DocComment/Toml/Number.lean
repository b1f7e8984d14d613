import DocComment.Toml.Strings

/-!
# Reading TOML numbers

Integers in four bases and decimal numbers. Their values play no part, so only what follows them is
given; an integer that does not fit into 64 bits is not read.
-/

namespace DocComment.Toml

open Text

/-- Reads further digits, which single underscores may separate. -/
def readMoreDigits? (isDigit : Char → Bool) : Text → Option (Text × Text)
  | '_' :: c :: rest =>
    if isDigit c then (readMoreDigits? isDigit rest).map fun (t, rest) => (c :: t, rest) else none
  | ['_'] => none
  | c :: rest =>
    if isDigit c then (readMoreDigits? isDigit rest).map fun (t, rest) => (c :: t, rest)
    else some ([], c :: rest)
  | [] => some ([], [])

/-- Reads digits, at least one. -/
def readDigits? (isDigit : Char → Bool) : Text → Option (Text × Text)
  | c :: rest =>
    if isDigit c then (readMoreDigits? isDigit rest).map fun (t, rest) => (c :: t, rest) else none
  | [] => none

/-- Reads the part of a number before the point. It has no zeros in front. -/
def readWhole? : Text → Option (Text × Text)
  | '0' :: rest => some (['0'], rest)
  | s => readDigits? Char.isDigit s

/-- The number that digits stand for. -/
def valueOf (base : Nat) (digits : Text) : Nat :=
  digits.foldl (fun n c => base * n + (hexValue? c).getD 0) 0

/-- Whether an integer fits into 64 bits with a sign. -/
def fits (negative : Bool) (n : Nat) : Bool :=
  if negative then n ≤ Nat.pow 2 63 else n < Nat.pow 2 63

/-- Whether `m · 10^e` rounds to a finite number in double precision. -/
def isFinite (m : Nat) (e : Int) : Bool :=
  let size := (Text.decimal m).length + e
  if m = 0 || size < 300 then true
  else if 310 < size then false
  else
    let bound := Nat.pow 2 1024 - Nat.pow 2 970
    if 0 ≤ e then m * Nat.pow 10 e.toNat < bound else m < bound * Nat.pow 10 (-e).toNat

/-- Reads the digits after a point. -/
def readFraction? : Text → Option (Text × Text)
  | '.' :: rest => readDigits? Char.isDigit rest
  | s => some ([], s)

/-- Reads a power of ten. -/
def readExponent? : Text → Option (Int × Text)
  | c :: rest =>
    if c = 'e' || c = 'E' then
      let (negative, rest) := match rest with
        | '-' :: rest => (true, rest)
        | '+' :: rest => (false, rest)
        | rest => (false, rest)
      (readDigits? Char.isDigit rest).map fun (digits, rest) =>
        (if negative then -(valueOf 10 digits : Int) else valueOf 10 digits, rest)
    else some (0, c :: rest)
  | [] => some (0, [])

/-- What follows a decimal number. An integer must fit into 64 bits, and any other number must be
finite unless it is negative. -/
def afterDecimal? (negative : Bool) (s : Text) : Option Text := do
  let (whole, s) ← readWhole? s
  match s with
  | c :: _ =>
    if c = '.' || c = 'e' || c = 'E' then
      let (fraction, s) ← readFraction? s
      let (exponent, s) ← readExponent? s
      if negative || isFinite (valueOf 10 (whole ++ fraction)) (exponent - fraction.length) then
        return s
      else none
    else if fits negative (valueOf 10 whole) then return s else none
  | [] => if fits negative (valueOf 10 whole) then return s else none

/-- What follows an integer in another base than ten, without the letter for the base. -/
def afterBased? (base : Nat) (s : Text) : Option Text := do
  let (digits, s) ← readDigits? (fun c => (hexValue? c).any (· < base)) s
  if fits false (valueOf base digits) then return s else none

/-- What follows a number without its sign. -/
def afterUnsigned? (negative : Bool) (s : Text) : Option Text :=
  dropPrefix? "inf".toList s <|> dropPrefix? "nan".toList s <|> afterDecimal? negative s

/-- What follows a number. -/
def afterNumber? : Text → Option Text
  | '0' :: 'x' :: rest => afterBased? 16 rest
  | '0' :: 'o' :: rest => afterBased? 8 rest
  | '0' :: 'b' :: rest => afterBased? 2 rest
  | '-' :: rest => afterUnsigned? true rest
  | '+' :: rest => afterUnsigned? false rest
  | s => afterUnsigned? false s

end DocComment.Toml
