import Mathlib.Data.List.DropRight
import DocComment.Proofs.Text.Closing
import DocComment.Proofs.Text.Join
import DocComment.Proofs.Token.Seam

/-!
# Texts that keep their lines

A text can be put on lines of a comment and be read back as it was if no line but the first looks
like a part of the comment itself: a blank line, one that is decorated, or one that starts a tag
(`keepsLines`). Where the lines of the comment start with a star, another star behind it is text.
Parts of such a text are such texts (`keepsLines_of_isInfix`), and so are several in a row with
signs or blanks between them (`keepsLines_append`).

How a text is put on lines is said character by character (`canonicalText`), and the printer puts it
so (`joinLines_eq_canonicalText`).
-/

namespace DocComment.Text

open Token

/-- Whether a line of a comment that starts like this is a line of the text in front of it, and not
decorated. If there are `stars` at the start of the lines, another one is text. -/
def continues (stars : Bool) (s : Text) : Bool :=
  s.head?.any (fun c => !isBlank c && c ≠ '\n' && (stars || c ≠ '*')) && !startsTag s

/-- Whether a text is the same after it has been put on lines of a comment, with `stars` at their
start or without. -/
def keepsLines (stars : Bool) : Text → Bool
  | [] => true
  | c :: s => c ≠ '\r' && !decide (c = '*' ∧ s.head? = some '/') &&
    (c ≠ '\n' || continues stars s) && keepsLines stars s

variable {stars : Bool} {s t u : Text}

lemma keepsLines_cons {c : Char} : keepsLines stars (c :: s) ↔ c ≠ '\r' ∧
    ¬ (c = '*' ∧ s.head? = some '/') ∧ (c = '\n' → continues stars s) ∧ keepsLines stars s := by
  simp only [keepsLines, Bool.and_eq_true, decide_eq_true_eq, Bool.not_eq_true',
    decide_eq_false_iff_not, Bool.or_eq_true, and_assoc, ← imp_iff_not_or, ne_eq]

lemma continues_iff : continues stars s ↔ (∃ c ∈ s.head?, isBlank c = false ∧ c ≠ '\n' ∧
    (stars = false → c ≠ '*')) ∧ startsTag s = false := by
  have hstars : ∀ c : Char, (stars = true ∨ c ≠ '*') ↔ (stars = false → c ≠ '*') := by
    cases stars <;> simp
  simp only [continues, Bool.and_eq_true, Option.any_eq_true, Bool.not_eq_true', decide_eq_true_eq,
    Bool.or_eq_true, and_assoc, Option.mem_def, hstars]

/-- Whether a tag starts is seen in the first two characters. -/
lemma startsTag_congr (h : ∀ c ∈ t.head?, isTagNameStart c = false) (hs : s ≠ []) :
    startsTag (s ++ t) = startsTag s := by
  obtain ⟨c, s, rfl⟩ := List.exists_cons_of_ne_nil hs
  rw [List.cons_append, startsTag_cons, startsTag_cons]
  cases s with
  | cons d s => rfl
  | nil =>
    cases t with
    | nil => rfl
    | cons d t => simp [h d rfl]

lemma continues_append (hs : continues stars s) (ht : ∀ c ∈ t.head?, isTagNameStart c = false) :
    continues stars (s ++ t) := by
  rw [continues_iff] at hs ⊢
  obtain ⟨⟨c, hc, hchar⟩, htag⟩ := hs
  have hne : s ≠ [] := by
    rintro rfl
    cases hc
  rw [List.head?_append_of_ne_nil _ hne, startsTag_congr ht hne]
  exact ⟨⟨c, hc, hchar⟩, htag⟩

/-- Texts that keep their lines do so together where no star, tag or slash comes about. -/
lemma keepsLines_append (hs : keepsLines stars s) (ht : keepsLines stars t)
    (hseam : ∀ c ∈ t.head?, endsContent c) : keepsLines stars (s ++ t) := by
  induction s with
  | nil => exact ht
  | cons c s ih =>
    rw [keepsLines_cons] at hs
    rw [List.cons_append, keepsLines_cons]
    refine ⟨hs.1, ?_, fun hc => continues_append (hs.2.2.1 hc) fun d hd =>
      isTagNameStart_of_endsContent (hseam d hd), ih hs.2.2.2⟩
    rintro ⟨rfl, hslash⟩
    cases s with
    | nil =>
      have := hseam '/' hslash
      simp [endsContent] at this
    | cons d s => exact hs.2.1 ⟨rfl, hslash⟩

lemma keepsLines_of_suffix (h : s <:+ t) (ht : keepsLines stars t) : keepsLines stars s := by
  obtain ⟨p, rfl⟩ := h
  induction p with
  | nil => exact ht
  | cons c p ih => exact ih (keepsLines_cons.1 ht).2.2.2

lemma keepsLines_of_isPrefix (h : s <+: t) (ht : keepsLines stars t)
    (hlast : s.getLast? ≠ some '\n') : keepsLines stars s := by
  obtain ⟨r, rfl⟩ := h
  induction s with
  | nil => rfl
  | cons c s ih =>
    rw [List.cons_append, keepsLines_cons] at ht
    obtain ⟨hr, hclosing, hline, hrest⟩ := ht
    have hlast' : s.getLast? ≠ some '\n' := by
      intro h
      rw [List.getLast?_cons, h] at hlast
      exact hlast rfl
    refine keepsLines_cons.2 ⟨hr, ?_, fun hc => ?_, ih hlast' hrest⟩
    · rintro ⟨rfl, hslash⟩
      obtain ⟨s, rfl⟩ := List.head?_eq_some_iff.1 hslash
      exact hclosing ⟨rfl, rfl⟩
    · have hne : s ≠ [] := by
        rintro rfl
        exact hlast (by simp [hc])
      obtain ⟨d, s, rfl⟩ := List.exists_cons_of_ne_nil hne
      have hcont := hline hc
      rw [continues_iff] at hcont ⊢
      refine ⟨hcont.1, ?_⟩
      rw [List.cons_append, startsTag_cons] at hcont
      rw [startsTag_cons]
      cases s with
      | nil => simp
      | cons e s => exact hcont.2

/-- A part that does not end with a line keeps its lines. -/
lemma keepsLines_of_isInfix (h : s <:+: t) (ht : keepsLines stars t)
    (hlast : s.getLast? ≠ some '\n') : keepsLines stars s := by
  obtain ⟨p, r, rfl⟩ := h
  rw [List.append_assoc] at ht
  exact keepsLines_of_isPrefix ⟨r, rfl⟩ (keepsLines_of_suffix ⟨p, rfl⟩ ht) hlast

lemma closes_of_keepsLines (h : keepsLines stars s) : closes s = false := by
  induction s with
  | nil => rfl
  | cons c s ih =>
    obtain ⟨-, hclosing, -, hrest⟩ := keepsLines_cons.1 h
    rw [closes, ih hrest, Bool.or_false, decide_eq_false_iff_not]
    exact hclosing

lemma not_mem_of_keepsLines (h : keepsLines stars s) : '\r' ∉ s := by
  induction s with
  | nil => simp
  | cons c s ih =>
    obtain ⟨hr, -, -, hrest⟩ := keepsLines_cons.1 h
    simp only [List.mem_cons, not_or]
    exact ⟨hr.symm, ih hrest⟩

/-- Text on one line keeps it. -/
lemma keepsLines_of_not_mem (hr : '\r' ∉ s) (hn : '\n' ∉ s) (hclosed : closes s = false) :
    keepsLines stars s := by
  induction s with
  | nil => rfl
  | cons c s ih =>
    simp only [List.mem_cons, not_or] at hr hn
    rw [closes, Bool.or_eq_false_iff, decide_eq_false_iff_not] at hclosed
    exact keepsLines_cons.2 ⟨Ne.symm hr.1, hclosed.1, fun hc => absurd hc.symm hn.1,
      ih hr.2 hn.2 hclosed.2⟩

/-! ### Lines -/

lemma line_eq_takeWhile {line : Text} {rest : List Text} (h : splitOn '\n' s = line :: rest) :
    line = s.takeWhile (· ≠ '\n') := by
  induction s generalizing line rest with
  | nil =>
    rw [splitOn] at h
    exact (List.cons.inj h).1.symm
  | cons c s ih =>
    obtain ⟨part, parts, hparts, hcons⟩ := splitOn_cons '\n' c s
    rw [hcons] at h
    split_ifs at h with hc
    · simp [← (List.cons.inj h).1, hc]
    · rw [← (List.cons.inj h).1, ih hparts, List.takeWhile_cons_of_pos (by simpa using hc)]

lemma not_mem_of_mem_splitOn {c : Char} : ∀ part ∈ splitOn c s, c ∉ part := by
  induction s with
  | nil => simp [splitOn]
  | cons d s ih =>
    obtain ⟨part, parts, hparts, hcons⟩ := splitOn_cons c d s
    rw [hparts] at ih
    rw [hcons]
    split_ifs with hd
    · simpa using ih
    · intro p hp
      rcases List.mem_cons.1 hp with rfl | hp
      · intro hc
        rcases List.mem_cons.1 hc with rfl | hc
        · exact hd rfl
        · exact ih part List.mem_cons_self hc
      · exact ih p (List.mem_cons_of_mem _ hp)

lemma splitOn_ne_nil (c : Char) (s : Text) : splitOn c s ≠ [] := by
  cases s with
  | nil => simp [splitOn]
  | cons d s =>
    obtain ⟨part, parts, -, hcons⟩ := splitOn_cons c d s
    rw [hcons]
    split_ifs <;> simp

lemma intercalate_splitOn (c : Char) (s : Text) : [c].intercalate (splitOn c s) = s := by
  induction s with
  | nil => rfl
  | cons d s ih =>
    obtain ⟨part, parts, hparts, hcons⟩ := splitOn_cons c d s
    rw [hparts, intercalate_cons] at ih
    rw [hcons]
    split_ifs with hd
    · rw [intercalate_cons, List.flatMap_cons, List.nil_append, List.append_assoc, ih, hd]
      rfl
    · rw [intercalate_cons, List.cons_append, ih]

/-- A text ends with its last line. -/
lemma suffix_of_mem_getLast?_splitOn {c : Char} {line : Text}
    (h : line ∈ (splitOn c s).getLast?) : line <:+ s := by
  obtain ⟨before, hbefore⟩ := List.getLast?_eq_some_iff.1 h
  have hs := intercalate_splitOn c s
  rw [hbefore, intercalate_append_cons, List.flatMap_nil, List.append_nil] at hs
  exact ⟨_, hs⟩

/-- Whether a text goes on with text is seen in its first line. -/
lemma continues_takeWhile (s : Text) :
    continues stars (s.takeWhile (· ≠ '\n')) = continues stars s := by
  cases s with
  | nil => rfl
  | cons c s =>
    by_cases hc : c = '\n'
    · simp [hc, continues]
    · have htag : startsTag (c :: s.takeWhile (· ≠ '\n')) = startsTag (c :: s) := by
        rw [startsTag_cons, startsTag_cons]
        cases s with
        | nil => rfl
        | cons d s =>
          by_cases hd : d = '\n'
          · simp [hd, isTagNameStart]
          · simp [hd]
      simp only [continues, List.takeWhile_cons, hc, ne_eq, not_false_eq_true, decide_true, if_true]
      rw [← htag]
      rfl

/-- Text without carriage returns keeps its lines if none but the first looks like a part of the
comment. -/
lemma keepsLines_of_splitOn (hr : '\r' ∉ s) (hclosed : closes s = false)
    (hlines : ∀ line ∈ (splitOn '\n' s).tail, continues stars line) : keepsLines stars s := by
  induction s with
  | nil => rfl
  | cons c s ih =>
    simp only [List.mem_cons, not_or] at hr
    rw [closes, Bool.or_eq_false_iff, decide_eq_false_iff_not] at hclosed
    obtain ⟨part, parts, hparts, hcons⟩ := splitOn_cons '\n' c s
    rw [hcons] at hlines
    refine keepsLines_cons.2 ⟨Ne.symm hr.1, hclosed.1, fun hc => ?_, ?_⟩
    · rw [if_pos hc] at hlines
      have hpart := hlines part (by simp)
      rwa [line_eq_takeWhile hparts, continues_takeWhile] at hpart
    · refine ih hr.2 hclosed.2 fun line hline => hlines line ?_
      rw [hparts] at hline
      split_ifs
      · exact List.mem_cons_of_mem _ hline
      · exact hline

/-- The text with `ls` for every line feed. -/
def reline (ls : Text) (s : Text) : Text := s.flatMap fun c => if c = '\n' then ls else [c]

@[simp] lemma reline_nil (ls : Text) : reline ls [] = [] := rfl

@[simp] lemma reline_append (ls s t : Text) : reline ls (s ++ t) = reline ls s ++ reline ls t :=
  List.flatMap_append

lemma reline_cons (ls : Text) (c : Char) (s : Text) :
    reline ls (c :: s) = (if c = '\n' then ls else [c]) ++ reline ls s := List.flatMap_cons

lemma reline_of_not_mem (ls : Text) (h : '\n' ∉ s) : reline ls s = s := by
  induction s with
  | nil => rfl
  | cons c s ih =>
    simp only [List.mem_cons, not_or] at h
    rw [reline_cons, if_neg (Ne.symm h.1), ih h.2]
    rfl

lemma escapeClosing_eq (h : closes s = false) : escapeClosing s = s := by
  induction s using escapeClosing.induct with
  | case1 rest ih => simp [closes] at h
  | case2 c rest hne ih =>
    rw [closes, Bool.or_eq_false_iff] at h
    rw [escapeClosing, ih h.2]
    exact hne
  | case3 => rfl

/-! ### Canonical text -/

/-- What is written for a character in front of `next?`: for a line feed the start of a line, which
has no spaces at its end if the line is empty, and for a star in front of a slash a backslash
too. -/
def canonicalChar (ls : Text) (c : Char) (next? : Option Char) : Text :=
  if c = '\n' then if next?.all (· = '\n') then ls.rdropWhile (· = ' ') else ls
  else if c = '*' ∧ next? = some '/' then ['*', '\\'] else [c]

/-- The text as it is written on lines that start with `ls`. -/
def canonicalText (ls : Text) : Text → Text
  | [] => []
  | c :: s => canonicalChar ls c s.head? ++ canonicalText ls s

/-- Lines are joined to the canonical text. -/
lemma joinLines_eq_canonicalText (ls s : Text) : joinLines ls s = canonicalText ls s := by
  induction s with
  | nil => rfl
  | cons c s ih =>
    obtain ⟨line, rest, hs, hcons⟩ := splitOn_cons '\n' c s
    have hline : line = s.takeWhile (· ≠ '\n') := line_eq_takeWhile hs
    rw [canonicalText, ← ih, joinLines_of_splitOn hs, canonicalChar]
    by_cases hc : c = '\n'
    · rw [if_pos hc] at hcons ⊢
      have hempty : line = [] ↔ s.head?.all (· = '\n') := by
        cases s <;> simp [hline, List.takeWhile_cons]
      rw [joinLines_of_splitOn hcons, List.flatMap_cons]
      by_cases hnext : s.head?.all (· = '\n')
      · rw [if_pos hnext, if_pos (hempty.2 hnext), hempty.2 hnext]
        rfl
      · rw [if_neg hnext, if_neg (mt hempty.1 hnext), List.append_assoc]
        rfl
    · rw [if_neg hc] at hcons ⊢
      have hslash : line.head? = some '/' ↔ s.head? = some '/' := by
        cases s with
        | nil => simp [hline]
        | cons d s => by_cases hd : d = '\n' <;> simp [hline, hd]
      rw [joinLines_of_splitOn hcons, escapeClosing_cons, List.append_assoc]
      simp only [hslash]

/-- Joining the lines of a text that keeps them puts a line start for every line feed. -/
lemma joinLines_eq (ls : Text) (h : keepsLines stars s) : joinLines ls s = reline ls s := by
  rw [joinLines_eq_canonicalText]
  induction s with
  | nil => rfl
  | cons c s ih =>
    obtain ⟨-, hstar, hline, hrest⟩ := keepsLines_cons.1 h
    rw [canonicalText, reline_cons, ih hrest, canonicalChar, if_neg hstar]
    by_cases hc : c = '\n'
    · -- The line behind the line feed goes on, so it is not empty.
      obtain ⟨⟨d, hd, -, hne, -⟩, -⟩ := continues_iff.1 (hline hc)
      simp [hc, Option.mem_def.1 hd, hne]
    · rw [if_neg hc, if_neg hc]

end DocComment.Text
