import DocComment.Proofs.Block.Printed
import DocComment.Proofs.Token.Lines

/-!
# The start of new lines

New lines of a comment start like the first line of it that has a star, or else like the first that
has text, or as the printer has it (`IsLinePrefix`), and there is no other way for them to start
(`isLinePrefix_iff`). In any case they start with a line break and a decoration
(`isLineStart_lineStart`).
-/

namespace DocComment

open Text Token

/-! ### Where the start is taken from -/

namespace Token

/-- A line break with a star, and nothing but spaces behind the star. -/
def IsStarred (t : Token) : Prop :=
  t.kind = .lineBreak ∧ ∃ front n, t.text = front ++ '*' :: List.replicate n ' '

/-- A line break in front of content, not of an empty line or the end of the comment. -/
def LeadsToContent (t next : Token) : Prop :=
  t.kind = .lineBreak ∧ next.kind ≠ .lineBreak ∧ next.kind ≠ .closing

end Token

/-- What new lines of a comment with these tokens start with. -/
inductive Block.IsLinePrefix (p : Printer) (indent : Text) (ts : List Token) : Text → Prop where
  /-- Like the first line with a star, and with a space behind the star. -/
  | starred {before after : List Token} {t : Token} {front : Text} {n : Nat}
    (hts : ts = before ++ t :: after) (hbefore : ∀ u ∈ before, ¬ u.IsStarred)
    (hkind : t.kind = .lineBreak) (htext : t.text = front ++ '*' :: List.replicate n ' ') :
    IsLinePrefix p indent ts (front ++ '*' :: List.replicate (max 1 n) ' ')
  /-- Like the first line with content, if no line has a star. -/
  | bare {before after : List Token} {t next : Token} (hstar : ∀ u ∈ ts, ¬ u.IsStarred)
    (hts : ts = before ++ t :: next :: after)
    (hbefore : ∀ u v, [u, v] <:+: before ++ [t] → ¬ u.LeadsToContent v)
    (hleads : t.LeadsToContent next) : IsLinePrefix p indent ts t.text
  /-- With the indentation and the marker, if no line has content either. -/
  | own (hstar : ∀ u ∈ ts, ¬ u.IsStarred) (hbare : ∀ u v, [u, v] <:+: ts → ¬ u.LeadsToContent v) :
    IsLinePrefix p indent ts ('\n' :: indent ++ p.marker)

namespace Text

lemma trimSpaces_append_replicate (s : Text) (n : Nat) :
    trimSpaces (s ++ '*' :: List.replicate n ' ') = s ++ ['*'] := by
  have hdrop : (List.replicate n ' ' ++ '*' :: s.reverse).dropWhile (· = ' ') =
      '*' :: s.reverse := by
    rw [List.dropWhile_append_of_pos (by simp)]
    rfl
  simp [trimSpaces, trimEndBy, hdrop]

/-- What trimming takes away is a row of spaces. -/
lemma exists_trimSpaces_append (s : Text) : ∃ n, s = trimSpaces s ++ List.replicate n ' ' := by
  refine ⟨(s.reverse.takeWhile (· = ' ')).length, ?_⟩
  have hspaces : s.reverse.takeWhile (· = ' ') =
      List.replicate (s.reverse.takeWhile (· = ' ')).length ' ' :=
    List.eq_replicate_of_mem fun c hc => by simpa using List.mem_takeWhile_imp hc
  have hs : s.reverse.takeWhile (· = ' ') ++ s.reverse.dropWhile (· = ' ') = s.reverse :=
    List.takeWhile_append_dropWhile
  rw [hspaces] at hs
  simpa [trimSpaces, trimEndBy] using (congrArg List.reverse hs).symm

lemma append_star_inj {s t : Text} {n m : Nat}
    (h : s ++ '*' :: List.replicate n ' ' = t ++ '*' :: List.replicate m ' ') : s = t ∧ n = m := by
  have htrim := congrArg trimSpaces h
  rw [trimSpaces_append_replicate, trimSpaces_append_replicate,
    List.append_cancel_right_eq] at htrim
  have hlength := congrArg List.length h
  simp only [htrim, List.length_append, List.length_cons, List.length_replicate] at hlength
  exact ⟨htrim, by omega⟩

lemma getLast?_trimSpaces_eq_star_iff {s : Text} : (trimSpaces s).getLast? = some '*' ↔
    ∃ front n, s = front ++ '*' :: List.replicate n ' ' := by
  constructor
  · intro h
    obtain ⟨front, hfront⟩ := List.getLast?_eq_some_iff.1 h
    obtain ⟨n, hn⟩ := exists_trimSpaces_append s
    exact ⟨front, n, by rw [hn, hfront]; simp⟩
  · rintro ⟨front, n, rfl⟩
    rw [trimSpaces_append_replicate, List.getLast?_concat]

end Text

namespace Token

variable {ts : List Token} {ls : Text} {t next : Token}

lemma isStarred_iff : t.IsStarred ↔
    t.kind = .lineBreak ∧ (trimSpaces t.text).getLast? = some '*' := by
  rw [IsStarred, getLast?_trimSpaces_eq_star_iff]

instance : DecidablePred IsStarred := fun _ => decidable_of_iff _ isStarred_iff.symm

instance (t next : Token) : Decidable (t.LeadsToContent next) :=
  inferInstanceAs (Decidable (_ ∧ _ ∧ _))

lemma starredStart?_eq (ts : List Token) :
    starredStart? ts = (ts.find? fun t => t.IsStarred).map fun t =>
      if t.text.getLast? = some ' ' then t.text else t.text ++ [' '] := by
  have hfind : (fun t : Token => decide t.IsStarred) = fun t =>
      t.kind = .lineBreak && (trimSpaces t.text).getLast? = some '*' := by
    funext t
    simp only [isStarred_iff, Bool.decide_and]
  rw [starredStart?, hfind]
  cases ts.find? _ with
  | none => rfl
  | some t => exact (apply_ite some _ _ _).symm

lemma starredStart?_eq_none_iff : starredStart? ts = none ↔ ∀ t ∈ ts, ¬ t.IsStarred := by
  simp [starredStart?_eq]

/-- The start of the first line with a star, with a space behind the star. -/
lemma starredStart?_eq_some_iff : starredStart? ts = some ls ↔
    ∃ before t after front n, ts = before ++ t :: after ∧ (∀ u ∈ before, ¬ u.IsStarred) ∧
      t.kind = .lineBreak ∧ t.text = front ++ '*' :: List.replicate n ' ' ∧
      ls = front ++ '*' :: List.replicate (max 1 n) ' ' := by
  have hspace (front : Text) (n : Nat) :
      (if (front ++ '*' :: List.replicate n ' ').getLast? = some ' '
        then front ++ '*' :: List.replicate n ' '
        else front ++ '*' :: List.replicate n ' ' ++ [' ']) =
      front ++ '*' :: List.replicate (max 1 n) ' ' := by
    cases n with
    | zero => simp
    | succ n =>
      have hlast : (front ++ '*' :: List.replicate (n + 1) ' ').getLast? = some ' ' := by
        rw [List.replicate_succ', ← List.cons_append, ← List.append_assoc, List.getLast?_concat]
      rw [if_pos hlast, Nat.max_eq_right (Nat.le_add_left 1 n)]
  rw [starredStart?_eq, Option.map_eq_some_iff]
  constructor
  · rintro ⟨t, hfind, rfl⟩
    obtain ⟨hstar, before, after, hts, hbefore⟩ := List.find?_eq_some_iff_append.1 hfind
    obtain ⟨hkind, front, n, htext⟩ := of_decide_eq_true hstar
    refine ⟨before, t, after, front, n, hts, fun u hu => ?_, hkind, htext, ?_⟩
    · simpa using hbefore u hu
    · rw [htext, hspace]
  · rintro ⟨before, t, after, front, n, hts, hbefore, hkind, htext, rfl⟩
    refine ⟨t, List.find?_eq_some_iff_append.2 ⟨?_, before, after, hts, fun u hu => ?_⟩, ?_⟩
    · exact decide_eq_true ⟨hkind, front, n, htext⟩
    · simpa using hbefore u hu
    · rw [htext, hspace]

lemma bareStart?_cons_cons (t next : Token) (ts : List Token) :
    bareStart? (t :: next :: ts) =
      if t.LeadsToContent next then some t.text else bareStart? (next :: ts) := by
  rw [bareStart?]
  exact if_congr (by simp [LeadsToContent, and_assoc]) rfl rfl

lemma pair_infix_cons_cons {u v : Token} :
    [u, v] <:+: t :: next :: ts ↔ u = t ∧ v = next ∨ [u, v] <:+: next :: ts := by
  rw [List.infix_cons_iff, List.cons_prefix_cons, List.cons_prefix_cons]
  simp

lemma bareStart?_eq_none_iff : bareStart? ts = none ↔
    ∀ u v, [u, v] <:+: ts → ¬ u.LeadsToContent v := by
  induction ts with
  | nil => simp [bareStart?]
  | cons t ts ih =>
    cases ts with
    | nil => simp [bareStart?, List.infix_cons_iff]
    | cons next ts =>
      rw [bareStart?_cons_cons]
      simp only [pair_infix_cons_cons]
      split_ifs with h
      · exact iff_of_false (by simp) fun hnone => hnone t next (.inl ⟨rfl, rfl⟩) h
      · rw [ih]
        refine forall₂_congr fun u v => ?_
        constructor
        · rintro hrest (⟨rfl, rfl⟩ | hmem)
          · exact h
          · exact hrest hmem
        · exact fun hall hmem => hall (.inr hmem)

lemma bareStart?_append (before : List Token) (t : Token) (ts : List Token) :
    bareStart? (before ++ t :: ts) =
      (bareStart? (before ++ [t]) <|> bareStart? (t :: ts)) := by
  induction before with
  | nil => rfl
  | cons b before ih =>
    cases before with
    | nil =>
      simp only [List.cons_append, List.nil_append, bareStart?_cons_cons]
      split_ifs <;> rfl
    | cons c before =>
      simp only [List.cons_append, bareStart?_cons_cons] at ih ⊢
      split_ifs
      · rfl
      · exact ih

/-- The start is taken from a line break, with none in front of it that leads to content. -/
lemma exists_of_bareStart? (h : bareStart? ts = some ls) :
    ∃ before t next after, ts = before ++ t :: next :: after ∧ bareStart? (before ++ [t]) = none ∧
      t.LeadsToContent next ∧ ls = t.text := by
  induction ts with
  | nil => cases h
  | cons t ts ih =>
    cases ts with
    | nil => cases h
    | cons next ts =>
      rw [bareStart?_cons_cons] at h
      split_ifs at h with hleads
      · exact ⟨[], t, next, ts, rfl, rfl, hleads, (Option.some.inj h).symm⟩
      · obtain ⟨before, u, v, after, hts, hnone, hleads', hls⟩ := ih h
        refine ⟨t :: before, u, v, after, by rw [hts, List.cons_append], ?_, hleads', hls⟩
        cases before with
        | nil =>
          obtain rfl : next = u := (List.cons.inj hts).1
          exact (bareStart?_cons_cons ..).trans (if_neg hleads)
        | cons b before =>
          obtain rfl : next = b := (List.cons.inj hts).1
          exact (bareStart?_cons_cons ..).trans ((if_neg hleads).trans hnone)

end Token

namespace Block

variable {p : Printer} {indent : Text} {ts : List Token} {ls : Text}

/-- The printer starts new lines so, and there is no other way. -/
theorem isLinePrefix_iff : IsLinePrefix p indent ts ls ↔ ls = lineStart p indent ts := by
  unfold lineStart
  constructor
  · intro h
    cases h with
    | starred hts hbefore hkind htext =>
      rw [starredStart?_eq_some_iff.2 ⟨_, _, _, _, _, hts, hbefore, hkind, htext, rfl⟩]
      rfl
    | @bare before after t next hstar hts hbefore hleads =>
      rw [starredStart?_eq_none_iff.2 hstar, hts, bareStart?_append,
        bareStart?_eq_none_iff.2 hbefore, bareStart?_cons_cons, if_pos hleads]
      rfl
    | own hstar hbare =>
      rw [starredStart?_eq_none_iff.2 hstar, bareStart?_eq_none_iff.2 hbare]
      rfl
  · rintro rfl
    cases hstar : starredStart? ts with
    | some ls =>
      obtain ⟨before, t, after, front, n, hts, hbefore, hkind, htext, rfl⟩ :=
        starredStart?_eq_some_iff.1 hstar
      exact .starred hts hbefore hkind htext
    | none =>
      rw [starredStart?_eq_none_iff] at hstar
      cases hbare : bareStart? ts with
      | some ls =>
        obtain ⟨before, t, next, after, hts, hbefore, hleads, rfl⟩ := exists_of_bareStart? hbare
        exact .bare hstar hts (bareStart?_eq_none_iff.1 hbefore) hleads
      | none => exact .own hstar (bareStart?_eq_none_iff.1 hbare)

/-- A comment on one line has no line start of its own. -/
lemma lineStart_of_hasBreak_eq_false {s : Segments} (h : s.hasBreak = false) :
    lineStart p indent s.tokens = ownLineStart p indent := by
  rw [Segments.hasBreak, List.any_eq_false] at h
  have hkind : ∀ t ∈ s.tokens, t.kind ≠ .lineBreak := fun t ht => by simpa using h t ht
  have hown : IsLinePrefix p indent s.tokens (ownLineStart p indent) :=
    .own (fun t ht hstar => hkind t ht hstar.1) fun u v huv hleads =>
      hkind u (huv.subset List.mem_cons_self) hleads.1
  exact (isLinePrefix_iff.1 hown).symm

end Block

/-! ### How lines start -/

namespace Token

variable {raw : Text} {ts : List Token} {ls : Text}

lemma text_of_mem_lineBreak {t : Token} (ht : t ∈ scan raw) (hk : t.kind = .lineBreak) :
    ∃ nl bl, IsNewline nl ∧ (∀ c ∈ bl, isBlank c) ∧
      (t.text = nl ++ bl ∨ t.text = nl ++ bl ++ ['*'] ∨ t.text = nl ++ bl ++ ['*', ' ']) := by
  obtain ⟨start, s', hmem⟩ := mem_scan ht (by simp [hk])
  obtain ⟨s, h⟩ := text_of_lineBreak hmem hk
  obtain ⟨bl, hbl, hd⟩ := decoration_cases s
  have hnl : ∃ nl, IsNewline nl ∧ t.text = nl ++ decoration s := by
    rcases h with h | h
    · exact ⟨['\n'], .inl rfl, h⟩
    · exact ⟨['\r', '\n'], .inr rfl, h⟩
  obtain ⟨nl, hnl, ht⟩ := hnl
  refine ⟨nl, bl, hnl, hbl, ?_⟩
  rw [ht]
  rcases hd with hd | hd | hd <;> simp [hd]

/-- A line break with a star is starred, as only spaces can stand behind the star. -/
lemma isStarred_of_mem {t : Token} (ht : t ∈ scan raw) (hk : t.kind = .lineBreak)
    (hstar : '*' ∈ t.text) : t.IsStarred := by
  obtain ⟨nl, bl, hnl, hbl, h | h | h⟩ := text_of_mem_lineBreak ht hk
  · exact absurd rfl (ne_of_mem_newline hnl hbl (h ▸ hstar)).1
  · exact ⟨hk, nl ++ bl, 0, h⟩
  · exact ⟨hk, nl ++ bl, 1, h⟩

/-- The start of a starred line has a star and a space behind it. -/
lemma isLineStart_of_starred {t : Token} {front : Text} {n : Nat} (ht : t ∈ scan raw)
    (hk : t.kind = .lineBreak) (htext : t.text = front ++ '*' :: List.replicate n ' ') :
    IsLineStart true (front ++ '*' :: List.replicate (max 1 n) ' ') := by
  obtain ⟨nl, bl, hnl, hbl, h | h | h⟩ := text_of_mem_lineBreak ht hk
  · have hmem : '*' ∈ nl ++ bl := by
      rw [← h, htext]
      simp
    exact absurd rfl (ne_of_mem_newline hnl hbl hmem).1
  · obtain ⟨rfl, rfl⟩ : front = nl ++ bl ∧ n = 0 := append_star_inj (m := 0) (htext.symm.trans h)
    exact .starred hnl hbl
  · obtain ⟨rfl, rfl⟩ : front = nl ++ bl ∧ n = 1 := append_star_inj (m := 1) (htext.symm.trans h)
    exact .starred hnl hbl

/-- The start of a line without a star has blanks alone. -/
lemma isLineStart_of_not_isStarred {t : Token} (ht : t ∈ scan raw) (hk : t.kind = .lineBreak)
    (hstar : ¬ t.IsStarred) : IsLineStart false t.text := by
  have hnot : '*' ∉ t.text := fun hmem => hstar (isStarred_of_mem ht hk hmem)
  obtain ⟨nl, bl, hnl, hbl, h | h | h⟩ := text_of_mem_lineBreak ht hk
  · rw [h]
    exact .bare hnl hbl
  · simp [h] at hnot
  · simp [h] at hnot

/-- A comment whose lines start with a star is closed by the line behind them. -/
lemma closing_closingLine_starred {nl bl : Text} (hnl : IsNewline nl) (hbl : ∀ c ∈ bl, isBlank c) :
    stops (closingLine (nl ++ bl ++ ['*', ' '])) ∧ ∀ i, ∀ t ∈
      ((scanFrom false i (closingLine (nl ++ bl ++ ['*', ' ']))).dropWhile isSeparator).head?,
        t.kind = .closing := by
  have hline : closingLine (nl ++ bl ++ ['*', ' ']) = nl ++ bl ++ ['*', '/'] := by
    have htrim : trimSpaces (nl ++ bl ++ ['*', ' ']) = nl ++ bl ++ ['*'] :=
      trimSpaces_append_replicate (nl ++ bl) 1
    rw [closingLine, htrim, List.append_assoc]
    rfl
  have hdecoration : decoration (bl ++ ['*', '/']) = bl := by
    rw [decoration_of_blank hbl fun c hc => by cases hc; rfl]
    exact List.append_nil _
  rw [hline]
  constructor
  · rcases hnl with rfl | rfl <;> rfl
  · intro i
    rw [scanFrom_newline hnl hdecoration]
    simp [isSeparator, scanFrom_cons, next]

end Token

namespace Block

variable {indent : Text} (h : ∀ c ∈ indent, isBlank c)

include h

lemma exists_ownLineStart_eq : ∃ bl : Text, (∀ c ∈ bl, isBlank c) ∧
    ownLineStart {} indent = ['\n'] ++ bl ++ ['*', ' '] := by
  refine ⟨indent ++ [' '], fun c hc => ?_, by simp [ownLineStart]⟩
  rcases List.mem_append.1 hc with hc | hc
  · exact h c hc
  · rw [List.mem_singleton.1 hc]
    rfl

lemma isLineStart_ownLineStart (stars : Bool) : IsLineStart stars (ownLineStart {} indent) := by
  obtain ⟨bl, hbl, hown⟩ := exists_ownLineStart_eq h
  rw [hown]
  exact .starred (.inl rfl) hbl

/-- New lines of any comment start with a line break and a decoration, and with a star if one of its
lines does. -/
lemma exists_isLineStart_lineStart (raw : Text) : ∃ stars,
    IsLineStart stars (lineStart {} indent (scan raw)) ∧
      (stars = false → ∀ t ∈ scan raw, t.kind = .lineBreak → '*' ∉ t.text) := by
  have hls : IsLinePrefix {} indent (scan raw) (lineStart {} indent (scan raw)) :=
    isLinePrefix_iff.2 rfl
  generalize lineStart {} indent (scan raw) = ls at hls
  cases hls with
  | starred hts _ hkind htext =>
    have ht : _ ∈ scan raw := hts ▸ List.mem_append_right _ List.mem_cons_self
    exact ⟨true, isLineStart_of_starred ht hkind htext, by simp⟩
  | bare hstar hts _ hleads =>
    have ht : _ ∈ scan raw := hts ▸ List.mem_append_right _ List.mem_cons_self
    exact ⟨false, isLineStart_of_not_isStarred ht hleads.1 (hstar _ ht),
      fun _ u hu hk hmem => hstar u hu (isStarred_of_mem hu hk hmem)⟩
  | own => exact ⟨true, isLineStart_ownLineStart h true, by simp⟩

lemma isLineStart_lineStart (raw : Text) :
    IsLineStart false (lineStart {} indent (scan raw)) := by
  obtain ⟨stars, hls, -⟩ := exists_isLineStart_lineStart h raw
  exact hls.weaken

end Block

end DocComment
