import Mathlib.Data.List.TakeWhile
import DocComment.Proofs.Token.Source

/-!
# Tokens across a seam

A text that starts with a line break, a blank, the closing delimiter, a parenthesis or a comma
*stops* every token of content in front of it. So where two texts are joined and the second one
stops, the tokens are those of the first and then those of the second (`scanFrom_append`).

There are nine ways to cut the next token (`Cuts`), and what is said of the tokens of a text is seen
for each of them.
-/

namespace DocComment.Token

open Text

/-- The characters that are tokens of their own or start separators. -/
def endsContent (c : Char) : Bool := c ∈ [' ', '\t', '\n', '(', ')', ',']

/-- Whether a text ends the content in front of it. -/
def stops : Text → Bool
  | [] => true
  | '\r' :: '\n' :: _ => true
  | '*' :: '/' :: _ => true
  | c :: _ => endsContent c

/-- Whether a text starts with a blank. -/
def startsBlank (s : Text) : Bool := s.head?.any isBlank

section

variable {y : Text} {c : Char}

lemma blank_cases (h : isBlank c) : c = ' ' ∨ c = '\t' := by
  simpa [isBlank] using h

lemma endsContent_cases (h : endsContent c) :
    c = ' ' ∨ c = '\t' ∨ c = '\n' ∨ c = '(' ∨ c = ')' ∨ c = ',' := by
  simpa [endsContent] using h

lemma stops_cons_of_endsContent (h : endsContent c) (s : Text) : stops (c :: s) := by
  rcases endsContent_cases h with rfl | rfl | rfl | rfl | rfl | rfl <;> rfl

lemma stops_cases (h : stops y) :
    y = [] ∨ (∃ s, y = '\r' :: '\n' :: s) ∨ (∃ s, y = '*' :: '/' :: s) ∨
      ∃ c s, y = c :: s ∧ endsContent c := by
  unfold stops at h
  split at h
  · exact .inl rfl
  · exact .inr (.inl ⟨_, rfl⟩)
  · exact .inr (.inr (.inl ⟨_, rfl⟩))
  · exact .inr (.inr (.inr ⟨_, _, rfl, h⟩))

/-- The characters with which a text may stop content. -/
lemma head_of_stops (h : stops y) (hc : c ∈ y.head?) : c = '\r' ∨ c = '*' ∨ endsContent c := by
  rcases stops_cases h with rfl | ⟨s, rfl⟩ | ⟨s, rfl⟩ | ⟨d, s, rfl, hd⟩
  · cases hc
  · exact .inl (by simpa using hc.symm)
  · exact .inr (.inl (by simpa using hc.symm))
  · obtain rfl : d = c := by simpa using hc
    exact .inr (.inr hd)

/-- A class of characters that has none of those that may stop content. -/
lemma eq_false_of_stops (h : stops y) {p : Char → Bool} (hr : p '\r' = false) (hs : p '*' = false)
    (hp : ∀ c, endsContent c → p c = false) : ∀ c ∈ y.head?, p c = false := by
  intro c hc
  rcases head_of_stops h hc with rfl | rfl | hc
  · exact hr
  · exact hs
  · exact hp c hc

lemma isTagNameChar_of_endsContent (h : endsContent c) : isTagNameChar c = false := by
  rcases endsContent_cases h with rfl | rfl | rfl | rfl | rfl | rfl <;> decide

lemma isWordChar_of_endsContent (h : endsContent c) : isWordChar c = false := by
  rcases endsContent_cases h with rfl | rfl | rfl | rfl | rfl | rfl <;> decide

lemma isTagNameStart_of_endsContent (h : endsContent c) : isTagNameStart c = false := by
  rcases endsContent_cases h with rfl | rfl | rfl | rfl | rfl | rfl <;> decide

lemma isTagNameChar_of_stops (h : stops y) : ∀ c ∈ y.head?, isTagNameChar c = false :=
  eq_false_of_stops h (by decide) (by decide) fun _ => isTagNameChar_of_endsContent

lemma isWordChar_of_stops (h : stops y) : ∀ c ∈ y.head?, isWordChar c = false :=
  eq_false_of_stops h (by decide) (by decide) fun _ => isWordChar_of_endsContent

lemma isTagNameStart_of_stops (h : stops y) : ∀ c ∈ y.head?, isTagNameStart c = false :=
  eq_false_of_stops h (by decide) (by decide) fun _ => isTagNameStart_of_endsContent

lemma startsSpecial_of_stops (h : stops y) : startsSpecial y := by
  rcases stops_cases h with rfl | ⟨s, rfl⟩ | ⟨s, rfl⟩ | ⟨c, s, rfl, hc⟩
  · rfl
  · rfl
  · rfl
  · rcases endsContent_cases hc with rfl | rfl | rfl | rfl | rfl | rfl <;> rfl

end

/-! ### What one token takes -/

section

variable {x y : Text}

lemma takeWhile_append_of_head {p : Char → Bool} (h : ∀ c ∈ y.head?, p c = false) :
    (x ++ y).takeWhile p = x.takeWhile p := by
  induction x with
  | nil =>
    cases y with
    | nil => rfl
    | cons c y => simp [h c rfl]
  | cons c x ih =>
    simp only [List.cons_append, List.takeWhile_cons, ih]

lemma startsTag_cons (c : Char) (s : Text) :
    startsTag (c :: s) = (decide (c = '@') && s.head?.any isTagNameStart) := by
  by_cases hc : c = '@'
  · cases s <;> simp [hc, startsTag]
  · simp [startsTag, hc]

lemma startsSpecial_cons (c : Char) (s : Text) :
    startsSpecial (c :: s) = (decide (c = '\r' ∧ s.head? = some '\n') ||
      decide (c = '*' ∧ s.head? = some '/') || isBlank c || decide (c = '\n') ||
      startsTag (c :: s) || isWordStart c || isSign c) := by
  by_cases hr : c = '\r' ∧ s.head? = some '\n'
  · obtain ⟨rfl, hs⟩ := hr
    obtain ⟨s, rfl⟩ := List.head?_eq_some_iff.1 hs
    rfl
  by_cases hs : c = '*' ∧ s.head? = some '/'
  · obtain ⟨rfl, hs⟩ := hs
    obtain ⟨s, rfl⟩ := List.head?_eq_some_iff.1 hs
    rfl
  simp only [hr, hs, decide_false, Bool.false_or]
  unfold startsSpecial
  split
  · next heq => cases heq
  · next heq => cases heq; simp at hr
  · next heq => cases heq; simp at hs
  · next heq => cases heq; rfl

/-- What a character starts does not depend on a text that stops it. -/
lemma startsTag_append (h : stops y) (c : Char) :
    startsTag (c :: (x ++ y)) = startsTag (c :: x) := by
  rw [startsTag_cons, startsTag_cons]
  cases x with
  | cons d x => rfl
  | nil =>
    cases y with
    | nil => rfl
    | cons d y => simp [isTagNameStart_of_stops h d rfl]

lemma ne_slash_of_stops (h : stops y) : y.head? ≠ some '/' := by
  intro hy
  rcases head_of_stops h hy with h | h | h <;> simp [endsContent] at h

lemma startsSpecial_append (h : stops y) (c : Char)
    (hr : (c :: x).getLast? = some '\r' → y.head? ≠ some '\n') :
    startsSpecial (c :: (x ++ y)) = startsSpecial (c :: x) := by
  rw [startsSpecial_cons, startsSpecial_cons, startsTag_append h]
  cases x with
  | cons d x => rfl
  | nil =>
    have h₁ : ¬ (c = '\r' ∧ y.head? = some '\n') := fun ⟨hc, hy⟩ => hr (by simp [hc]) hy
    have h₂ : ¬ (c = '*' ∧ y.head? = some '/') := fun ⟨_, hy⟩ => ne_slash_of_stops h hy
    simp [h₁, h₂]

lemma plain_append (h : stops y) (hr : x.getLast? = some '\r' → y.head? ≠ some '\n') :
    plain (x ++ y) = plain x := by
  induction x with
  | nil =>
    cases y with
    | nil => rfl
    | cons c y => simp [plain, startsSpecial_of_stops h]
  | cons c x ih =>
    have hr' : x.getLast? = some '\r' → y.head? ≠ some '\n' := fun hx =>
      hr (List.mem_getLast?_cons hx)
    rw [List.cons_append, plain, plain, startsSpecial_append h c hr, ih hr']

/-- The star of a decoration, with the space after it. -/
def star : Text → Text
  | [] => []
  | c :: s =>
    if c ≠ '*' ∨ s.head? = some '/' then [] else if s.head? = some ' ' then ['*', ' '] else ['*']

lemma exists_span (p : Char → Bool) (s : Text) :
    ∃ l r, s = l ++ r ∧ (∀ c ∈ l, p c) ∧ ∀ c ∈ r.head?, p c = false := by
  refine ⟨s.takeWhile p, s.dropWhile p, List.takeWhile_append_dropWhile.symm, ?_, fun c hc => ?_⟩
  · exact fun c hc => List.mem_takeWhile_imp hc
  · have hnot := List.head?_dropWhile_not p s
    rwa [Option.mem_def.1 hc] at hnot

/-- A decoration that is blank up to the end of the text. -/
lemma decoration_of_blank {bl : Text} (hbl : ∀ c ∈ bl, isBlank c) {s : Text}
    (hs : ∀ c ∈ s.head?, isBlank c = false) :
    decoration (bl ++ s) = bl ++ star s := by
  have htake : (bl ++ s).takeWhile isBlank = bl := by
    rw [takeWhile_append_of_head hs, List.takeWhile_eq_self_iff]
    exact hbl
  have hdrop : (bl ++ s).dropWhile isBlank = s := by
    rw [List.dropWhile_append_of_pos hbl]
    cases s with
    | nil => rfl
    | cons c s => simp [hs c rfl]
  rw [decoration, htake, hdrop]
  congr 1
  cases s with
  | nil => rfl
  | cons c s =>
    by_cases hc : c = '*'
    · subst hc
      cases s with
      | nil => rfl
      | cons d s =>
        by_cases hd : d = '/'
        · simp [hd, star]
        by_cases hd' : d = ' '
        · simp [hd', star]
        simp [hd, hd', star]
    · simp [hc, star]

/-- The decoration of a line is the same unless all of the line decorates it, and blanks follow. -/
lemma decoration_append (h : stops y) (hb : decoration x = x → startsBlank y = false) :
    decoration (x ++ y) = decoration x := by
  obtain ⟨bl, r, rfl, hbl, hr⟩ := exists_span isBlank x
  have hx := decoration_of_blank hbl hr
  cases r with
  | nil =>
    have hhead : ∀ c ∈ y.head?, isBlank c = false := by
      intro c hc
      have := hb (by simpa [star] using hx)
      rw [startsBlank, Option.mem_def.1 hc] at this
      simpa using this
    rw [List.append_nil] at hx ⊢
    rw [hx, decoration_of_blank hbl hhead]
    congr 1
    rcases stops_cases h with rfl | ⟨s, rfl⟩ | ⟨s, rfl⟩ | ⟨d, s, rfl, hd⟩
    · rfl
    · rfl
    · rfl
    · have hne : d ≠ '*' := by
        rintro rfl
        simp [endsContent] at hd
      simp [star, hne]
  | cons c r =>
    rw [hx, List.append_assoc, List.cons_append, decoration_of_blank hbl (by simpa using hr)]
    congr 1
    cases r with
    | cons d r => rfl
    | nil =>
      by_cases hc : c = '*'
      · have hdec : decoration (bl ++ [c]) = bl ++ [c] := by
          rw [hx]
          simp [star, hc]
        have hsp : y.head? ≠ some ' ' := by
          intro hy
          have := hb hdec
          simp [startsBlank, hy, isBlank] at this
        simp [star, hc, ne_slash_of_stops h, hsp]
      · simp [star, hc]

/-- The next token by the two characters in front. -/
lemma next_eq (am : Bool) (c : Char) (s : Text) : next am c s =
    if c = '*' ∧ s.head? = some '/' then (.closing, ['/'])
    else if c = '\r' ∧ s.head? = some '\n' then (.lineBreak, '\n' :: decoration s.tail)
    else if c = '\n' then (.lineBreak, decoration s)
    else if am && isTagNameChar c then (.identifier, s.takeWhile isTagNameChar)
    else if startsTag (c :: s) then (.marker, [])
    else if isBlank c then (.blank, s.takeWhile isBlank)
    else if isWordStart c then (.identifier, s.takeWhile isWordChar)
    else if isSign c then (.sign, [])
    else (.text, plain s) := by
  by_cases hs : c = '*' ∧ s.head? = some '/'
  · obtain ⟨rfl, hs⟩ := hs
    obtain ⟨s, rfl⟩ := List.head?_eq_some_iff.1 hs
    rfl
  by_cases hr : c = '\r' ∧ s.head? = some '\n'
  · obtain ⟨rfl, hr⟩ := hr
    obtain ⟨s, rfl⟩ := List.head?_eq_some_iff.1 hr
    rfl
  by_cases hn : c = '\n'
  · subst hn
    cases s <;> rfl
  rw [if_neg hs, if_neg hr, if_neg hn]
  unfold next
  split
  · simp at hs
  · simp at hr
  · exact absurd rfl hn
  · rfl

/-- What the token that starts with `c` may be, and what it takes of the text behind `c`. -/
inductive Cuts (am : Bool) (c : Char) (s : Text) : Kind → Text → Prop
  | closing (hc : c = '*') (hs : s.head? = some '/') : Cuts am c s .closing ['/']
  | carriageReturn (hc : c = '\r') (hs : s.head? = some '\n') :
      Cuts am c s .lineBreak ('\n' :: decoration s.tail)
  | lineFeed (hc : c = '\n') : Cuts am c s .lineBreak (decoration s)
  | tagName (hc : am && isTagNameChar c) : Cuts am c s .identifier (s.takeWhile isTagNameChar)
  | marker (hs : startsTag (c :: s)) : Cuts am c s .marker []
  | blank (hc : isBlank c) : Cuts am c s .blank (s.takeWhile isBlank)
  | word (hname : (am && isTagNameChar c) = false) (hc : isWordStart c) :
      Cuts am c s .identifier (s.takeWhile isWordChar)
  | sign (hc : isSign c) : Cuts am c s .sign []
  | text (hc : isBlank c = false) : Cuts am c s .text (plain s)

lemma cuts_next (am : Bool) (c : Char) (s : Text) :
    Cuts am c s (next am c s).1 (next am c s).2 := by
  rw [next_eq]
  split_ifs with hclosing hreturn hfeed hname hmarker hblank hword hsign
  · exact .closing hclosing.1 hclosing.2
  · exact .carriageReturn hreturn.1 hreturn.2
  · exact .lineFeed hfeed
  · exact .tagName hname
  · exact .marker hmarker
  · exact .blank hblank
  · exact .word (by simpa using hname) hword
  · exact .sign hsign
  · exact .text (by simpa using hblank)

lemma cuts_of_mem_scanFrom {t : Token} {am : Bool} {start : Nat} {s : Text}
    (h : t ∈ scanFrom am start s) :
    ∃ am c s more, t.text = c :: more ∧ Cuts am c s t.kind more := by
  obtain ⟨am, c, s, hkind, htext⟩ := mem_scanFrom h
  exact ⟨am, c, s, _, htext, hkind ▸ cuts_next am c s⟩

lemma mem_decoration {c : Char} {s : Text} (h : c ∈ decoration s) : isBlank c ∨ c = '*' := by
  obtain ⟨bl, r, rfl, hbl, hr⟩ := exists_span isBlank s
  rw [decoration_of_blank hbl hr, List.mem_append] at h
  rcases h with h | h
  · exact .inl (hbl c h)
  · cases r with
    | nil => simp [star] at h
    | cons d r =>
      simp only [star] at h
      split_ifs at h <;> simp at h
      · rcases h with rfl | rfl
        · exact .inr rfl
        · exact .inl rfl
      · exact .inr h

/-- A line break is a line feed, maybe after a carriage return, and a decoration. -/
lemma text_of_lineBreak {t : Token} {am : Bool} {start : Nat} {s : Text}
    (h : t ∈ scanFrom am start s) (hk : t.kind = .lineBreak) :
    ∃ s, t.text = '\n' :: decoration s ∨ t.text = '\r' :: '\n' :: decoration s := by
  obtain ⟨am, c, s, more, htext, hcut⟩ := cuts_of_mem_scanFrom h
  rw [hk] at hcut
  cases hcut with
  | carriageReturn hc => exact ⟨s.tail, .inr (by rw [htext, hc])⟩
  | lineFeed hc => exact ⟨s, .inl (by rw [htext, hc])⟩

lemma text_of_blank {t : Token} {am : Bool} {start : Nat} {s : Text}
    (h : t ∈ scanFrom am start s) (hk : t.kind = .blank) :
    t.text ≠ [] ∧ ∀ c ∈ t.text, isBlank c := by
  obtain ⟨am, c, s, more, htext, hcut⟩ := cuts_of_mem_scanFrom h
  rw [hk] at hcut
  cases hcut with
  | blank hc =>
    rw [htext]
    exact ⟨List.cons_ne_nil _ _,
      List.forall_mem_cons.2 ⟨hc, fun d hd => List.mem_takeWhile_imp hd⟩⟩

/-- No character of plain text starts another token where it stands. -/
lemma exists_of_mem_plain {c : Char} {s : Text} (h : c ∈ plain s) :
    ∃ r, startsSpecial (c :: r) = false := by
  induction s with
  | nil => cases h
  | cons d s ih =>
    rw [plain] at h
    split_ifs at h with hs
    · cases h
    · rcases List.mem_cons.1 h with rfl | h
      · exact ⟨s, by simpa using hs⟩
      · exact ih h

lemma isBlank_of_mem_plain {c : Char} {s : Text} (h : c ∈ plain s) : isBlank c = false := by
  obtain ⟨r, hr⟩ := exists_of_mem_plain h
  by_contra hc
  simp [startsSpecial_cons, hc] at hr

/-- Only separators have blanks. -/
lemma isBlank_of_mem_text {t : Token} {am : Bool} {start : Nat} {s : Text}
    (h : t ∈ scanFrom am start s) (hsep : t.isSeparator = false) :
    ∀ c ∈ t.text, isBlank c = false := by
  obtain ⟨am, c, s, more, htext, hcut⟩ := cuts_of_mem_scanFrom h
  have hclass : ∀ (p : Char → Bool), p ' ' = false → p '\t' = false →
      ∀ d, p d → isBlank d = false := by
    intro p hspace htab d hd
    by_contra hblank
    rcases blank_cases (by simpa using hblank) with rfl | rfl
    · rw [hspace] at hd
      cases hd
    · rw [htab] at hd
      cases hd
  rw [htext, List.forall_mem_cons]
  generalize hkind : t.kind = k at hcut
  rw [isSeparator, hkind] at hsep
  cases hcut with
  | closing hc => simp [hc, isBlank]
  | carriageReturn => cases hsep
  | lineFeed => cases hsep
  | tagName hc =>
    have hname := hclass isTagNameChar rfl rfl
    exact ⟨hname c (Bool.and_eq_true_iff.1 hc).2, fun d hd => hname d (List.mem_takeWhile_imp hd)⟩
  | marker hs =>
    rw [startsTag_cons, Bool.and_eq_true, decide_eq_true_eq] at hs
    simp [hs.1, isBlank]
  | blank => cases hsep
  | word _ hc =>
    have hword := hclass isWordChar rfl rfl
    exact ⟨hclass isWordStart rfl rfl c hc, fun d hd => hword d (List.mem_takeWhile_imp hd)⟩
  | sign hc => exact ⟨hclass isSign rfl rfl c hc, by simp⟩
  | text hc => exact ⟨hc, fun d hd => isBlank_of_mem_plain hd⟩

/-- Separators stop the content in front of them. -/
lemma stops_of_isSeparator {t : Token} {am : Bool} {start : Nat} {s : Text}
    (h : t ∈ scanFrom am start s) (hsep : t.isSeparator) (y : Text) :
    t.text ≠ [] ∧ stops (t.text ++ y) := by
  rcases Bool.or_eq_true_iff.1 hsep with hk | hk
  · obtain ⟨s, ht | ht⟩ := text_of_lineBreak h (by simpa using hk) <;> rw [ht]
    · exact ⟨List.cons_ne_nil _ _, rfl⟩
    · exact ⟨List.cons_ne_nil _ _, rfl⟩
  · obtain ⟨hne, hblank⟩ := text_of_blank h (by simpa using hk)
    refine ⟨hne, ?_⟩
    obtain ⟨c, r, hr⟩ := List.exists_cons_of_ne_nil hne
    rw [hr]
    rcases blank_cases (hblank c (by simp [hr])) with rfl | rfl <;> rfl

lemma text_of_closing {t : Token} {am : Bool} {start : Nat} {s : Text}
    (h : t ∈ scanFrom am start s) (hk : t.kind = .closing) : t.text = ['*', '/'] := by
  obtain ⟨am, c, s, more, htext, hcut⟩ := cuts_of_mem_scanFrom h
  rw [hk] at hcut
  cases hcut with
  | closing hc => rw [htext, hc]

/-- What is said of the tokens of any text holds of those of a comment, its delimiter apart. -/
lemma mem_scan {t : Token} {s : Text} (h : t ∈ scan s) (hk : t.kind ≠ .opening) :
    ∃ start s', t ∈ scanFrom false start s' := by
  rcases scan_cases s with ⟨stars, -, rest, -, hscan⟩ | hscan
  · rw [hscan, List.mem_cons] at h
    rcases h with rfl | h
    · exact absurd rfl hk
    · exact ⟨_, _, h⟩
  · exact ⟨_, _, hscan ▸ h⟩

/-- Only the delimiter at the start of a comment is an opening one. -/
lemma kind_ne_opening {t : Token} {am : Bool} {start : Nat} {s : Text}
    (h : t ∈ scanFrom am start s) : t.kind ≠ .opening := by
  obtain ⟨am, c, s, more, -, hcut⟩ := cuts_of_mem_scanFrom h
  intro hk
  rw [hk] at hcut
  cases hcut

lemma carriageReturn_append {c : Char} (hr : (c :: x).getLast? = some '\r' → y.head? ≠ some '\n') :
    c = '\r' ∧ (x ++ y).head? = some '\n' ↔ c = '\r' ∧ x.head? = some '\n' := by
  cases x with
  | cons d x => simp
  | nil => simpa using fun hc => hr (by simp [hc])

lemma closing_append (h : stops y) {c : Char} :
    c = '*' ∧ (x ++ y).head? = some '/' ↔ c = '*' ∧ x.head? = some '/' := by
  cases x with
  | cons d x => simp
  | nil => simpa using fun _ => ne_slash_of_stops h

/-- The kind of a token is known from the text in front of one that stops it. -/
lemma fst_next_append (h : stops y) {am : Bool} {c : Char}
    (hr : (c :: x).getLast? = some '\r' → y.head? ≠ some '\n') :
    (next am c (x ++ y)).1 = (next am c x).1 := by
  simp only [next_eq, apply_ite Prod.fst, carriageReturn_append hr, closing_append h,
    startsTag_append h]

/-- A token is the same in front of a text that stops it. -/
lemma next_stops (h : stops y) {am : Bool} {c : Char}
    (hr : (c :: x).getLast? = some '\r' → y.head? ≠ some '\n')
    (hb : (next am c x).2 = x → (next am c x).1 = .lineBreak ∨ (next am c x).1 = .blank →
      startsBlank y = false) : next am c (x ++ y) = next am c x := by
  have hr' : x.getLast? = some '\r' → y.head? ≠ some '\n' := fun hx =>
    hr (List.mem_getLast?_cons hx)
  have hcut := cuts_next am c x
  have hcut' := cuts_next am c (x ++ y)
  rw [fst_next_append h hr] at hcut'
  refine Prod.ext (fst_next_append h hr) ?_
  generalize (next am c x).1 = k at hcut hcut' hb
  generalize (next am c x).2 = m at hcut hb ⊢
  generalize (next am c (x ++ y)).2 = m' at hcut' ⊢
  -- Tokens of the same kind are cut alike.
  cases hcut with
  | closing =>
    cases hcut' with
    | closing => rfl
  | carriageReturn hc hs =>
    cases hcut' with
    | carriageReturn =>
      obtain ⟨x, rfl⟩ := List.head?_eq_some_iff.1 hs
      have hb' : decoration x = x → startsBlank y = false := fun hx => hb (by simp [hx]) (.inl rfl)
      simp [decoration_append h hb']
    | lineFeed hc' => cases hc.symm.trans hc'
  | lineFeed hc =>
    cases hcut' with
    | carriageReturn hc' => cases hc.symm.trans hc'
    | lineFeed => exact decoration_append h fun hx => hb hx (.inl rfl)
  | tagName hc =>
    cases hcut' with
    | tagName => exact takeWhile_append_of_head (isTagNameChar_of_stops h)
    | word hname => cases hname.symm.trans hc
  | marker =>
    cases hcut' with
    | marker => rfl
  | blank =>
    cases hcut' with
    | blank =>
      by_cases hall : ∀ d ∈ x, isBlank d
      · have hy := hb (List.takeWhile_eq_self_iff.2 hall) (.inr rfl)
        refine takeWhile_append_of_head fun d hd => ?_
        rw [startsBlank, Option.mem_def.1 hd] at hy
        simpa using hy
      · have hne : (x.takeWhile isBlank).length ≠ x.length := fun hlen =>
          hall (List.takeWhile_eq_self_iff.1
            ((List.takeWhile_prefix _).eq_of_length hlen))
        rw [List.takeWhile_append, if_neg hne]
  | word hname =>
    cases hcut' with
    | tagName hc => cases hname.symm.trans hc
    | word => exact takeWhile_append_of_head (isWordChar_of_stops h)
  | sign =>
    cases hcut' with
    | sign => rfl
  | text =>
    cases hcut' with
    | text => exact plain_append h hr'

end

/-! ### All tokens -/

lemma next_of_marker {am : Bool} {c : Char} {s : Text} (h : (next am c s).1 = .marker) :
    (next am c s).2 = [] ∧ startsTag (c :: s) := by
  have hcut := cuts_next am c s
  rw [h] at hcut
  generalize (next am c s).2 = more at hcut
  cases hcut with
  | marker hs => exact ⟨rfl, hs⟩

/-- A marker is an `@` in front of the name of a tag. -/
lemma exists_of_next_marker {am : Bool} {c : Char} {s more : Text}
    (h : next am c s = (.marker, more)) :
    more = [] ∧ c = '@' ∧ ∃ d r, s = d :: r ∧ isTagNameStart d := by
  obtain ⟨hmore, htag⟩ := next_of_marker (congrArg Prod.fst h)
  rw [h] at hmore
  rw [startsTag_cons, Bool.and_eq_true, decide_eq_true_eq, Option.any_eq_true] at htag
  obtain ⟨hc, d, hd, hstart⟩ := htag
  obtain ⟨r, hs⟩ := List.head?_eq_some_iff.1 hd
  exact ⟨hmore, hc, d, r, hs, hstart⟩

lemma next_nil_ne_marker (am : Bool) (c : Char) : (next am c []).1 ≠ .marker := by
  intro h
  have := (next_of_marker h).2
  simp [startsTag_cons] at this

/-- Where a text stops the content in front of it, no token goes over the seam. -/
theorem scanFrom_append {x y : Text} (h : stops y) {am : Bool} (start : Nat)
    (hr : x.getLast? = some '\r' → y.head? ≠ some '\n')
    (hb : ∀ t ∈ (scanFrom am start x).getLast?, t.isSeparator → startsBlank y = false)
    (hx : x ≠ []) :
    scanFrom am start (x ++ y) = scanFrom am start x ++ scanFrom false (start + byteSize x) y := by
  induction am, x using scan_induction generalizing start with
  | nil am => exact absurd rfl hx
  | cons am c x ih =>
    have hcut := next_append am c x
    have hnext : next am c (x ++ y) = next am c x := by
      refine next_stops h hr fun hall hkind => ?_
      have hdrop : x.drop (next am c x).2.length = [] := by rw [hall, List.drop_length]
      refine hb ⟨(next am c x).1, c :: (next am c x).2, start⟩ ?_ ?_
      · rw [scanFrom_cons, hdrop, scanFrom_nil]
        rfl
      · simpa [isSeparator] using hkind
    rw [List.cons_append, scanFrom_cons, hnext, scanFrom_cons am start c x, List.cons_append]
    congr 1
    have hle : (next am c x).2.length ≤ x.length := (isPrefix_next am c x).length_le
    rw [List.drop_append_of_le_length hle]
    have hsize : start + byteSize (c :: x) = start + byteSize (c :: (next am c x).2) +
        byteSize (x.drop (next am c x).2.length) := by
      conv_lhs => rw [← hcut]
      simp only [byteSize_cons, byteSize_append]
      omega
    by_cases hdrop : x.drop (next am c x).2.length = []
    · have hall : (next am c x).2 = x := by rwa [hdrop, List.append_nil] at hcut
      have hkind : (next am c x).1 ≠ .marker := by
        intro hkind
        have hnil := (next_of_marker hkind).1
        rw [hall] at hnil
        rw [hnil] at hkind
        exact next_nil_ne_marker am c hkind
      rw [hsize, hdrop, scanFrom_nil, List.nil_append, List.nil_append, byteSize_nil, Nat.add_zero,
        decide_eq_false hkind]
    · rw [hsize]
      refine ih _ (fun hlast => hr ?_) (fun t ht => hb t ?_) hdrop
      · rw [← hcut, ← List.cons_append, List.getLast?_append_of_ne_nil _ hdrop, hlast]
      · rw [scanFrom_cons, List.getLast?_cons, Option.mem_def.1 ht]
        rfl

end DocComment.Token
