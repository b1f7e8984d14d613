import DocComment.Proofs.Source.Comments

/-!
# Comments behind a removed comment

A comment that stands behind another one on its line is no entry, but may start the line when the
other one is removed (`Uncovered`). Where the text in front of a comment ends a line, the comment is
found if and only if it is what is uncovered there (`Uncovered.foundIn_cons`). Lines may be put in
front of what is read (`Meets.prepend`), and text without slashes may be passed over (`Meets.drop`).
-/

namespace DocComment

open Text

/-! ### Where comments start -/

section

variable {t gap block s : Text}

/-- A comment is the first one if none starts in the text in front of it. -/
lemma isFirst_iff (hblock : IsComment block) :
    IsFirst gap block s ↔ ¬ docStart <:+: gap ++ ['/', '*'] := by
  obtain ⟨v, hv⟩ := hblock.1
  have hsplit : gap ++ block ++ s = gap ++ ['/', '*'] ++ '*' :: (v ++ s) := by
    rw [← hv]
    simp
  constructor
  · rintro hfirst ⟨l, r, hopen⟩
    have hle := hfirst.length_le l (r ++ '*' :: (v ++ s))
      (by rw [hsplit, ← hopen, List.append_assoc])
    have hlen := congrArg List.length hopen
    simp only [List.length_append, List.length_cons, List.length_nil, docStart] at hlen
    omega
  · refine fun hnone => ⟨hblock, fun l r hopen => ?_⟩
    by_contra hlt
    rw [hsplit] at hopen
    rcases List.append_eq_append_iff.1 hopen with ⟨m, hm, -⟩ | ⟨m, hm, -⟩
    · have hlen := congrArg List.length hm
      simp only [List.length_append, List.length_cons, List.length_nil, docStart] at hlen
      obtain rfl : m = [] := List.length_eq_zero_iff.1 (by omega)
      exact hnone ⟨l, [], by rw [hm, List.append_nil, List.append_nil]⟩
    · exact hnone ⟨l, m, hm.symm⟩

/-- Any comment is the first one where another one was. -/
lemma IsFirst.replace {doc s' : Text} (h : IsFirst gap block s) (hdoc : IsComment doc) :
    IsFirst gap doc s' :=
  (isFirst_iff hdoc).2 ((isFirst_iff h.isComment).1 h)

/-- A comment stands behind text without slashes. -/
lemma exists_of_slash_not_mem {l r : Text} (hblock : IsComment block) (ht : '/' ∉ t)
    (h : t ++ s = l ++ block ++ r) : ∃ m, l = t ++ m ∧ s = m ++ block ++ r := by
  rw [List.append_assoc] at h
  rcases List.append_eq_append_iff.1 h with ⟨m, rfl, rfl⟩ | ⟨m, rfl, hm⟩
  · exact ⟨m, rfl, by simp⟩
  · cases m with
    | nil => exact ⟨[], by simp, by simpa using hm.symm⟩
    | cons c m =>
      obtain ⟨v, rfl⟩ := hblock.1
      obtain ⟨rfl, -⟩ := List.cons.inj hm
      simp at ht

/-- Behind lines in which no comment starts an opening delimiter starts in the rest. -/
lemma exists_of_endsLine (hline : EndsLine t) (hnone : ¬ docStart <:+: t) {l r : Text}
    (h : t ++ s = l ++ docStart ++ r) : ∃ m, l = t ++ m ∧ s = m ++ docStart ++ r := by
  rcases List.append_eq_append_iff.1 h with ⟨m, hm, rfl⟩ | ⟨m, rfl, -⟩
  · rcases List.append_eq_append_iff.1 hm with ⟨m', rfl, hdelim⟩ | ⟨m', rfl, rfl⟩
    · rcases List.eq_nil_or_concat' m' with rfl | ⟨m', c, rfl⟩
      · exact ⟨[], by simp, by simp [hdelim]⟩
      · -- The last character of the line would be one of the delimiter.
        obtain rfl : c = '\n' := hline c (by simp)
        have hmem : '\n' ∈ docStart := by simp [hdelim]
        exact absurd hmem (by decide)
    · exact ⟨m', rfl, rfl⟩
  · exact absurd ⟨l, m, rfl⟩ hnone

end

namespace Meets

variable {before t s : Text} {cs : List Comment}

/-- Lines in which no comment starts may stand in front. -/
lemma prepend (hline : EndsLine t) (hnone : ¬ docStart <:+: t) (h : Meets (before ++ t) s cs) :
    Meets before (t ++ s) cs := by
  cases h with
  | nil hrest =>
    refine .nil fun block hblock ⟨l, r, hlr⟩ => ?_
    obtain ⟨v, rfl⟩ := hblock.1
    obtain ⟨m, -, rfl⟩ := exists_of_endsLine hline hnone (s := s) (l := l) (r := v ++ r)
      (by rw [← hlr]; simp [docStart])
    exact hrest _ hblock ⟨m, r, by simp [docStart]⟩
  | @cons _ gap block s cs hfirst h =>
    have hcons : Meets before (t ++ gap ++ block ++ s) (⟨before ++ (t ++ gap), block⟩ :: cs) := by
      refine .cons ⟨hfirst.isComment, fun l r hopen => ?_⟩ (by simpa using h)
      rw [List.append_assoc, List.append_assoc, ← List.append_assoc gap] at hopen
      obtain ⟨m, rfl, hm⟩ := exists_of_endsLine hline hnone hopen
      have hle := hfirst.length_le m r hm
      rw [List.length_append, List.length_append]
      omega
    simpa using hcons

/-- Text without slashes may be passed over. -/
lemma drop (ht : '/' ∉ t) (h : Meets before (t ++ s) cs) : Meets (before ++ t) s cs := by
  generalize hwhole : t ++ s = whole at h
  cases h with
  | nil hrest =>
    exact .nil fun block hblock hmem =>
      hrest block hblock (hwhole ▸ List.IsInfix.trans hmem (List.suffix_append t s).isInfix)
  | @cons _ gap block s' cs hfirst h =>
    obtain ⟨m, rfl, rfl⟩ := exists_of_slash_not_mem hfirst.isComment ht hwhole
    rw [← List.append_assoc]
    refine .cons ⟨hfirst.isComment, fun l r hopen => ?_⟩ (by simpa using h)
    have hle := hfirst.length_le (t ++ l) r (by simpa using congrArg (t ++ ·) hopen)
    rw [List.length_append, List.length_append] at hle
    omega

end Meets

/-! ### Lines -/

section

variable {before gap t : Text}

lemma EndsLine.append (ht : EndsLine t) (hne : t ≠ []) : EndsLine (before ++ t) := by
  intro c hc
  rw [List.getLast?_append_of_ne_nil _ hne] at hc
  exact ht c hc

lemma EndsLine.of_append (h : EndsLine (before ++ t)) : EndsLine t := by
  intro c hc
  refine h c ?_
  rw [List.getLast?_append, Option.mem_def.1 hc, Option.some_or, Option.mem_def]

/-- What stands in front of the last line feed does not count. -/
lemma lastLine_append_eq (h : EndsLine before ∨ '\n' ∈ gap) :
    lastLine (before ++ gap) = lastLine gap := by
  have hends : EndsLine (before ++ linesBeforeLast gap) := by
    by_cases hlines : linesBeforeLast gap = []
    · rw [hlines, List.append_nil]
      refine h.resolve_right fun hmem => ?_
      rw [← linesBeforeLast_append_lastLine gap, hlines, List.nil_append] at hmem
      exact newline_not_mem_lastLine gap hmem
    · exact (endsLine_linesBeforeLast gap).append hlines
  conv_lhs => rw [← linesBeforeLast_append_lastLine gap, ← List.append_assoc]
  exact lastLine_append hends (newline_not_mem_lastLine gap)

/-- Neither a line nor a comment ends with a blank. -/
lemma isBlank_of_mem_getLast? (h : EndsLine before ∨ before.getLast? = some '/') :
    ∀ c ∈ before.getLast?, isBlank c = false := by
  intro c hc
  rcases h with hline | hslash
  · rw [hline c hc]
    rfl
  · rw [hslash] at hc
    obtain rfl := Option.some.inj hc
    rfl

/-- Nothing behind a comment on its line is indented. -/
lemma not_indented (hbefore : before.getLast? = some '/') (hgap : '\n' ∉ gap) :
    ¬ Indented (before ++ gap) := by
  rintro ⟨above, indentation, hsplit, habove, hblank⟩
  obtain ⟨gap, rfl, rfl⟩ :=
    exists_of_blank_suffix hsplit (isBlank_of_mem_getLast? (.inr hbefore)) hblank
  rcases List.eq_nil_or_concat' gap with rfl | ⟨gap, c, rfl⟩
  · rw [List.append_nil] at habove
    cases habove '/' hbefore
  · obtain rfl : c = '\n' := habove c (by simp)
    simp at hgap

end

/-! ### What a removed comment uncovers -/

/-- A comment of five bytes or more behind blanks at the start of a text. -/
structure Leads (s indentation doc : Text) : Prop where
  isComment : IsComment doc
  five_le : 5 ≤ byteSize doc
  isBlank : ∀ c ∈ indentation, isBlank c
  starts : indentation ++ doc <+: s

/-- What is found where the text in front of `s` is removed from its line: the comment that only
blanks part from it, with these blanks. -/
inductive Uncovered (s : Text) : List (Text × Text) → Prop where
  | comment {indentation doc : Text} (h : Leads s indentation doc) :
    Uncovered s [(indentation, doc)]
  | nothing (h : ∀ indentation doc, ¬ Leads s indentation doc) : Uncovered s []

section

variable {gap block s indentation doc : Text} {part : List (Text × Text)}

namespace Leads

lemma slash_not_mem (h : Leads s indentation doc) : '/' ∉ indentation :=
  fun hmem => absurd (h.isBlank _ hmem) (by decide)

lemma eq_of_leads {indentation' doc' : Text} (h : Leads s indentation doc)
    (h' : Leads s indentation' doc') : indentation = indentation' ∧ doc = doc' := by
  obtain ⟨r, rfl⟩ := h.starts
  obtain ⟨r', hr⟩ := h'.starts
  obtain ⟨m, rfl, hm⟩ := exists_of_slash_not_mem h'.isComment h.slash_not_mem
    (hr.trans (List.append_assoc indentation doc r)).symm
  obtain ⟨m', hm', -⟩ := exists_of_slash_not_mem h.isComment h'.slash_not_mem
    ((List.append_assoc _ doc' r').symm.trans hr)
  obtain ⟨rfl, -⟩ : m = [] ∧ m' = [] := by simpa using hm'
  exact ⟨(List.append_nil _).symm, (h.isComment.append_inj h'.isComment hm).1⟩

end Leads

/-- A text uncovers one thing or nothing. -/
lemma existsUnique_uncovered (s : Text) : ∃! part, Uncovered s part := by
  by_cases h : ∃ indentation doc, Leads s indentation doc
  · obtain ⟨indentation, doc, h⟩ := h
    refine ⟨_, .comment h, fun part hpart => ?_⟩
    cases hpart with
    | comment h' =>
      obtain ⟨rfl, rfl⟩ := h'.eq_of_leads h
      rfl
    | nothing hno => exact absurd h (hno _ _)
  · push Not at h
    refine ⟨[], .nothing h, fun part hpart => ?_⟩
    cases hpart with
    | comment h' => exact absurd h' (h _ _)
    | nothing => rfl

/-- Nothing but the first comment of a text can stand at its start. -/
lemma Leads.eq_of_first (h : Leads (gap ++ block ++ s) indentation doc)
    (hfirst : IsFirst gap block s) : indentation = gap ∧ doc = block := by
  obtain ⟨r, hr⟩ := h.starts
  obtain ⟨v, hv⟩ := h.isComment.1
  have hle := hfirst.length_le indentation (v ++ r) (by rw [← hr, ← hv]; simp [docStart])
  rw [List.append_assoc] at hr
  obtain ⟨m, rfl, hm⟩ := exists_of_slash_not_mem hfirst.isComment h.slash_not_mem hr
  obtain rfl : m = [] := List.length_eq_zero_iff.1 (by rw [List.length_append] at hle; omega)
  exact ⟨(List.append_nil _).symm, (h.isComment.append_inj hfirst.isComment hm).1⟩

lemma Uncovered.eq_nil_of_newline_mem (h : Uncovered (gap ++ block ++ s) part)
    (hfirst : IsFirst gap block s) (hgap : '\n' ∈ gap) : part = [] := by
  cases h with
  | comment h =>
    obtain ⟨rfl, -⟩ := h.eq_of_first hfirst
    exact absurd (h.isBlank _ hgap) (by decide)
  | nothing => rfl

lemma Uncovered.eq_nil_of_not_isInfix (h : Uncovered s part)
    (hnone : ∀ block, IsComment block → ¬ block <:+: s) : part = [] := by
  cases h with
  | @comment indentation doc h =>
    exact absurd (.trans (List.suffix_append indentation doc).isInfix h.starts.isInfix)
      (hnone doc h.isComment)
  | nothing => rfl

end

/-! ### Comments that document something -/

/-- The indentations and the texts of the comments that document something. -/
def foundIn (cs : List Comment) : List (Text × Text) :=
  (cs.filter (·.Documents)).map fun c => (lastLine c.front, c.block)

/-- The indentations and the texts of the entries. -/
def SourceFile.comments (f : SourceFile) : List (Text × Text) :=
  f.entries.map fun e => (e.indentation, f.blockText e)

section

variable {c : Comment} {cs : List Comment}

lemma foundIn_cons_of_documents (h : c.Documents) :
    foundIn (c :: cs) = (lastLine c.front, c.block) :: foundIn cs := by
  rw [foundIn, List.filter_cons, if_pos (decide_eq_true h), List.map_cons, foundIn]

lemma foundIn_cons_of_not_documents (h : ¬ c.Documents) : foundIn (c :: cs) = foundIn cs := by
  rw [foundIn, List.filter_cons, if_neg (by simpa using h), foundIn]

lemma SourceFile.comments_extract {path : Text} {l : Language} {source : Text}
    (h : Meets [] source cs) : (extract path l source).comments = foundIn cs := by
  have hfound : List.Forall₂ (· = ·) (foundIn cs) (extract path l source).comments := by
    rw [comments, foundIn, List.forall₂_map_left_iff, List.forall₂_map_right_iff]
    refine (forall₂_isEntry_extract h).imp fun c e ⟨hentry, hblock⟩ => ?_
    rw [hentry.indentation_eq, hblock]
  rw [List.forall₂_eq_eq_eq] at hfound
  exact hfound.symm

/-- What is uncovered is the next comment, if it documents something now. -/
lemma Uncovered.foundIn_cons {before gap block s : Text} {part : List (Text × Text)}
    (h : Uncovered (gap ++ block ++ s) part)
    (hfirst : IsFirst gap block s) (hline : EndsLine before) (hgap : '\n' ∉ gap)
    (cs : List Comment) :
    foundIn (⟨before ++ gap, block⟩ :: cs) = part ++ foundIn cs := by
  have hlast : lastLine (before ++ gap) = gap := lastLine_append hline hgap
  cases h with
  | comment h =>
    obtain ⟨rfl, rfl⟩ := h.eq_of_first hfirst
    rw [foundIn_cons_of_documents ⟨h.five_le, before, _, rfl, hline, h.isBlank⟩, hlast]
    rfl
  | nothing h =>
    refine foundIn_cons_of_not_documents fun hdoc =>
      h gap block ⟨hfirst.isComment, hdoc.1, ?_, s, rfl⟩
    have hblank := indented_iff.1 hdoc.2
    rwa [hlast] at hblank

end

end DocComment
