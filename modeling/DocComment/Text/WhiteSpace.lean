import DocComment.Text.Basic

/-!
# White space

Two classes of characters separate words. *Blanks* are the space and the tab, which indent lines
and separate tokens. *White space* is the Unicode property of that name, which surrounds payloads
and their parts.
-/

namespace DocComment

/-- The space and the tab. -/
def isBlank (c : Char) : Bool := c = ' ' || c = '\t'

/-- The Unicode property `White_Space`. -/
def isWhiteSpace (c : Char) : Bool :=
  let n := c.toNat
  (9 ≤ n && n ≤ 13) || n = 0x20 || n = 0x85 || n = 0xa0 || n = 0x1680
    || (0x2000 ≤ n && n ≤ 0x200a) || n = 0x2028 || n = 0x2029 || n = 0x202f || n = 0x205f
    || n = 0x3000

theorem isWhiteSpace_of_isBlank {c : Char} (h : isBlank c) : isWhiteSpace c := by
  simp only [isBlank, Bool.or_eq_true, decide_eq_true_eq] at h
  rcases h with rfl | rfl <;> decide

namespace Text

/-- The text without the white space around it. -/
def trim (s : Text) : Text := trimBy isWhiteSpace s

/-- The text without the white space in front of it. -/
def trimStart (s : Text) : Text := s.dropWhile isWhiteSpace

/-- The text without the white space behind it. -/
def trimEnd (s : Text) : Text := trimEndBy isWhiteSpace s

end Text

end DocComment
