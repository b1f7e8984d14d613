import DocComment.Proofs.Source.Located
import DocComment.Proofs.Token.Lines
import DocComment.Proofs.Tree.Segmentation

/-!
# The comments of a source text

A source text is read from left to right: a comment starts at the next opening delimiter and ends
with the first closing one from its third character on, and the reading goes on behind it (`Meets`).
The entries of a source text are the comments among these that document something
(`SourceFile.forall₂_isEntry_extract`), and the tokens of an entry are one opening and one closing
delimiter with the tokens of its nodes between them (`Token.isDelimited_scan`).
-/

namespace DocComment

open Text

/-! ### Texts of comments -/

namespace Text.IsComment

variable {b b' s s' : Text}

/-- A comment ends with a closing delimiter behind its first two characters. -/
lemma exists_closing (h : IsComment b) : ∃ x, b = ['/', '*'] ++ x ++ blockEnd := by
  obtain ⟨v, rfl, -, hlast, -⟩ := isComment_iff.1 h
  obtain ⟨v, rfl⟩ := List.getLast?_eq_some_iff.1 hlast
  exact ⟨v, by simp [blockEnd]⟩

/-- No comment is the start of a longer one. -/
lemma eq_nil_of_append (h : IsComment b) (h' : IsComment (b ++ s)) : s = [] := by
  obtain ⟨x, rfl⟩ := h.exists_closing
  refine h'.2.2 (['/', '*'] ++ x) s rfl ?_
  rw [byteSize_append]
  exact Nat.le_add_right 2 _

/-- A text starts with at most one comment. -/
lemma append_inj (h : IsComment b) (h' : IsComment b') (heq : b ++ s = b' ++ s') :
    b = b' ∧ s = s' := by
  rcases List.append_eq_append_iff.1 heq with ⟨m, rfl, rfl⟩ | ⟨m, rfl, rfl⟩
  · obtain rfl := h.eq_nil_of_append h'
    simp
  · obtain rfl := h'.eq_nil_of_append h
    simp

end Text.IsComment

/-! ### Lines -/

/-- Whether nothing but blanks stands behind a text on its last line. -/
def Indented (s : Text) : Prop :=
  ∃ above indentation : Text, s = above ++ indentation ∧ EndsLine above ∧
    ∀ c ∈ indentation, isBlank c

section

variable {above before s : Text}

lemma newline_not_mem_lastLine (s : Text) : '\n' ∉ lastLine s := by
  intro h
  simpa using List.mem_takeWhile_imp (List.mem_reverse.1 h)

lemma lastLine_append (h : EndsLine above) (hs : '\n' ∉ s) : lastLine (above ++ s) = s := by
  have hhead : ∀ c ∈ above.reverse.head?, decide (c ≠ '\n') = false := by
    intro c hc
    rw [List.head?_reverse] at hc
    simp [h c hc]
  have hall : ∀ c ∈ s.reverse, decide (c ≠ '\n') = true := by
    intro c hc
    rw [decide_eq_true_eq]
    rintro rfl
    exact hs (List.mem_reverse.1 hc)
  rw [lastLine, List.reverse_append, Token.takeWhile_append_of_head hhead,
    List.takeWhile_eq_self_iff.2 hall, List.reverse_reverse]

lemma indented_iff : Indented s ↔ ∀ c ∈ lastLine s, isBlank c := by
  constructor
  · rintro ⟨above, indentation, rfl, habove, hblank⟩
    rwa [lastLine_append habove fun h => absurd (hblank _ h) (by decide)]
  · exact fun h => ⟨_, _, (linesBeforeLast_append_lastLine s).symm, endsLine_linesBeforeLast s, h⟩

instance : DecidablePred Indented := fun s =>
  decidable_of_iff ((lastLine s).all isBlank = true) (List.all_eq_true.trans indented_iff.symm)

end

/-! ### Reading -/

/-- A comment in a source text, with all the text in front of it. -/
structure Comment where
  front : Text
  block : Text
  deriving DecidableEq, Repr, Inhabited

namespace Comment

/-- The bytes of a comment in its source text. -/
def range (c : Comment) : Nat × Nat := (byteSize c.front, byteSize (c.front ++ c.block))

/-- Whether a comment documents something: there are five bytes or more, and nothing but blanks in
front of them on their line. -/
def Documents (c : Comment) : Prop := 5 ≤ byteSize c.block ∧ Indented c.front

instance : DecidablePred Documents := fun c =>
  inferInstanceAs (Decidable (5 ≤ byteSize c.block ∧ Indented c.front))

/-- What an entry says of its comment. -/
structure IsEntry (c : Comment) (e : SourceEntry) : Prop where
  range_eq : (e.start, e.stop) = c.range
  line_eq : e.line = c.front.count '\n' + 1
  indentation : ∃ above : Text, c.front = above ++ e.indentation ∧ EndsLine above ∧
    ∀ a ∈ e.indentation, isBlank a

end Comment

/-- A comment in a text, between `gap` and `s`, whose opening delimiter is the first one. -/
structure IsFirst (gap block s : Text) : Prop where
  isComment : IsComment block
  length_le : ∀ l r : Text, gap ++ block ++ s = l ++ docStart ++ r → gap.length ≤ l.length

/-- The comments that are met when a text, with `before` in front of it, is read from left to right.
Behind the last of them there is no comment. -/
inductive Meets : (before s : Text) → List Comment → Prop where
  | nil {before s : Text} (hnone : ∀ block, IsComment block → ¬ block <:+: s) : Meets before s []
  | cons {before gap block s : Text} {cs : List Comment} (hfirst : IsFirst gap block s)
    (h : Meets (before ++ gap ++ block) s cs) :
    Meets before (gap ++ block ++ s) (⟨before ++ gap, block⟩ :: cs)

namespace Meets

variable {before s : Text} {cs cs' : List Comment}

/-- There is one way to read a text. -/
lemma eq_of_meets (h : Meets before s cs) (h' : Meets before s cs') : cs = cs' := by
  induction h generalizing cs' with
  | nil hnone =>
    cases h' with
    | nil => rfl
    | @cons _ gap block s _ hfirst => exact absurd ⟨gap, s, rfl⟩ (hnone block hfirst.isComment)
  | @cons before gap block s cs hfirst _ ih =>
    generalize hwhole : gap ++ block ++ s = whole at h'
    cases h' with
    | nil hnone => exact absurd ⟨gap, s, hwhole⟩ (hnone block hfirst.isComment)
    | @cons _ gap' block' s' cs' hfirst' h' =>
      obtain ⟨v, hv⟩ := hfirst.isComment.1
      obtain ⟨v', hv'⟩ := hfirst'.isComment.1
      have hle := hfirst.length_le gap' (v' ++ s') (by rw [hwhole, ← hv']; simp [docStart])
      have hle' := hfirst'.length_le gap (v ++ s) (by rw [← hwhole, ← hv]; simp [docStart])
      rw [List.append_assoc, List.append_assoc] at hwhole
      obtain ⟨rfl, hrest⟩ := List.append_inj hwhole (Nat.le_antisymm hle hle')
      obtain ⟨rfl, rfl⟩ := hfirst.isComment.append_inj hfirst'.isComment hrest
      rw [ih h']

/-- What is met are comments of the text. -/
lemma of_mem (h : Meets before s cs) : ∀ c ∈ cs, IsComment c.block ∧
    ∃ after, before ++ s = c.front ++ c.block ++ after := by
  induction h with
  | nil => simp
  | @cons before gap block s cs hfirst _ ih =>
    refine List.forall_mem_cons.2 ⟨⟨hfirst.isComment, s, by simp⟩, fun c hc => ?_⟩
    obtain ⟨hcomment, after, hafter⟩ := ih c hc
    exact ⟨hcomment, after, by rw [← hafter]; simp⟩

end Meets

/-- Where no comments are found there are none. -/
lemma not_isInfix_of_commentRanges {start : Nat} {s : Text} (h : commentRanges start s = []) :
    ∀ block, IsComment block → ¬ block <:+: s := by
  rintro block hblock ⟨l, r, hs⟩
  obtain ⟨v, hv⟩ := hblock.1
  obtain ⟨x, hx⟩ := hblock.exists_closing
  rw [commentRanges] at h
  split at h
  · next hopen => exact not_isInfix_of_cutAt? hopen ⟨l, v ++ r, by rw [← hs, ← hv]; simp [docStart]⟩
  · next gap afterStart hopen =>
    split at h
    · next hclose =>
      -- The comment ends behind the first opening delimiter, so this is closed too.
      have hle : gap.length ≤ l.length :=
        length_le_of_cutAt? hopen (t := v ++ r) (by rw [← hs, ← hv]; simp [docStart])
      have hsplit : gap ++ ['/', '*'] ++ '*' :: afterStart =
          l ++ ['/', '*'] ++ x ++ (blockEnd ++ r) := by
        rw [hx, cutAt?_eq_some hopen] at hs
        simpa [docStart] using hs.symm
      rcases List.append_eq_append_iff.1 hsplit with ⟨m, -, hm⟩ | ⟨m, hm, hm'⟩
      · exact not_isInfix_of_cutAt? hclose ⟨m, r, by rw [hm, List.append_assoc]⟩
      · have hlen := congrArg List.length hm
        simp only [List.length_append, List.length_cons, List.length_nil] at hlen
        obtain rfl : m = [] := List.length_eq_zero_iff.1 (by omega)
        exact not_isInfix_of_cutAt? hclose
          ⟨[], r, by rw [← List.nil_append ('*' :: _), ← hm']; simp⟩
    · dsimp only at h
      split_ifs at h

/-- The comments that are found are those that are met. -/
lemma exists_meets (before s : Text) :
    ∃ cs, Meets before s cs ∧ commentRanges (byteSize before) s = cs.map Comment.range := by
  generalize hrs : commentRanges (byteSize before) s = rs
  induction rs generalizing before s with
  | nil => exact ⟨[], .nil (not_isInfix_of_commentRanges hrs), rfl⟩
  | cons r rs ih =>
    obtain ⟨gap, block, after, rfl, hfirst, hblock, rfl, hrest⟩ := commentRanges_cons hrs
    have hsize : byteSize before + byteSize (gap ++ block) = byteSize (before ++ gap ++ block) := by
      simp only [byteSize_append, Nat.add_assoc]
    rw [hsize] at hrest ⊢
    obtain ⟨cs, hcs, hranges⟩ := ih _ after hrest.symm
    refine ⟨_, .cons ⟨hblock, hfirst⟩ hcs, ?_⟩
    rw [List.map_cons, hranges, Comment.range, byteSize_append before gap]

/-! ### Entries -/

section

variable {l : Language} {source after : Text} {c : Comment}

/-- There is an entry for each comment that documents something, and for no other. -/
lemma SourceEntry.ofRange?_range (l : Language) (hsource : source = c.front ++ c.block ++ after) :
    (c.Documents ∧ ∃ e, ofRange? l source c.range = some e ∧ c.IsEntry e) ∨
      ¬ c.Documents ∧ ofRange? l source c.range = none := by
  have hfront : takeBytes (byteSize c.front) source = c.front := by
    rw [hsource, List.append_assoc, takeBytes_byteSize_append]
  have hsize : byteSize (c.front ++ c.block) - byteSize c.front = byteSize c.block := by
    rw [byteSize_append, Nat.add_sub_cancel_left]
  have hnot : (byteSize c.block < 5 || !(lastLine c.front).all isBlank) = true ↔ ¬ c.Documents := by
    rw [Comment.Documents, indented_iff]
    simp only [Bool.or_eq_true, decide_eq_true_eq, Bool.not_eq_true', List.all_eq_false]
    grind
  rw [ofRange?, Comment.range]
  dsimp only
  rw [hfront, hsize]
  by_cases hdoc : c.Documents
  · rw [if_neg (mt hnot.1 (not_not.2 hdoc))]
    refine .inl ⟨hdoc, _, rfl, rfl, rfl, linesBeforeLast c.front, ?_,
      endsLine_linesBeforeLast _, ?_⟩
    · exact (linesBeforeLast_append_lastLine c.front).symm
    · exact indented_iff.1 hdoc.2
  · rw [if_pos (hnot.2 hdoc)]
    exact .inr ⟨hdoc, rfl⟩

end

namespace Comment.IsEntry

variable {c : Comment} {e : SourceEntry}

/-- The indentation of an entry is what stands in front of it on its line. -/
lemma indentation_eq (h : c.IsEntry e) : e.indentation = lastLine c.front := by
  obtain ⟨above, hfront, habove, hblank⟩ := h.indentation
  rw [hfront, lastLine_append habove fun hmem => absurd (hblank _ hmem) (by decide)]

end Comment.IsEntry

namespace SourceFile

variable {path : Text} {l : Language} {source : Text} {cs : List Comment}

lemma entries_extract (h : Meets [] source cs) : (extract path l source).entries =
    cs.filterMap fun c => SourceEntry.ofRange? l source c.range := by
  obtain ⟨cs', h', hranges⟩ := exists_meets [] source
  obtain rfl := h.eq_of_meets h'
  rw [extract, ← byteSize_nil, hranges, List.filterMap_map]
  rfl

lemma blockText_of_isEntry {c : Comment} {e : SourceEntry} {after : Text} (h : c.IsEntry e)
    (hsource : source = c.front ++ c.block ++ after) :
    (extract path l source).blockText e = c.block := by
  obtain ⟨hstart, hstop⟩ := Prod.mk.inj h.range_eq
  rw [blockText, hstart, hstop, byteSize_append]
  exact (congrArg _ hsource).trans (slice_append c.front c.block after)

/-- The entries are the comments that document something, in order. -/
lemma forall₂_isEntry_extract (h : Meets [] source cs) : List.Forall₂
    (fun c e => c.IsEntry e ∧ (extract path l source).blockText e = c.block)
    (cs.filter (·.Documents)) (extract path l source).entries := by
  have hmem := h.of_mem
  rw [entries_extract h]
  clear h
  induction cs with
  | nil => exact .nil
  | cons c cs ih =>
    obtain ⟨hc, hcs⟩ := List.forall_mem_cons.1 hmem
    obtain ⟨-, after, hsource⟩ := hc
    rw [List.nil_append] at hsource
    rcases SourceEntry.ofRange?_range l hsource with ⟨hdoc, e, he, hentry⟩ | ⟨hdoc, hnone⟩
    · rw [List.filter_cons, if_pos (decide_eq_true hdoc), List.filterMap_cons, he]
      exact .cons ⟨hentry, blockText_of_isEntry hentry hsource⟩ (ih hcs)
    · rw [List.filter_cons, if_neg (by simpa using hdoc), List.filterMap_cons, hnone]
      exact ih hcs

/-- The text of an entry is a comment that documents something. -/
lemma isComment_blockText {e : SourceEntry} (he : e ∈ (extract path l source).entries) :
    IsComment ((extract path l source).blockText e) ∧
      5 ≤ byteSize ((extract path l source).blockText e) := by
  obtain ⟨cs, h, -⟩ := exists_meets [] source
  rw [entries_extract h] at he
  obtain ⟨c, hc, hsome⟩ := List.mem_filterMap.1 he
  obtain ⟨hblock, after, hsource⟩ := h.of_mem c hc
  rw [List.nil_append] at hsource
  rcases SourceEntry.ofRange?_range l hsource with ⟨hdoc, e', he', hentry⟩ | ⟨-, hnone⟩
  · obtain rfl : e' = e := Option.some.inj (he'.symm.trans hsome)
    rw [blockText_of_isEntry hentry hsource]
    exact ⟨hblock, hdoc.1⟩
  · rw [hnone] at hsome
    cases hsome

end SourceFile

/-! ### Tokens of an entry -/

namespace Token

/-- Tokens of a comment that is opened at its start and closed at its end and nowhere else. All of
them but the delimiters and the separators belong to nodes. -/
structure IsDelimited (ts : List Token) : Prop where
  delimiters : ∃ body n, ts = ⟨.opening, docStart, 0⟩ :: (body ++ [⟨.closing, blockEnd, n⟩]) ∧
    ∀ t ∈ body, t.kind ≠ .opening ∧ t.kind ≠ .closing
  isContentAt_iff : ∀ i, IsContentAt ts i ↔ ∃ t, ts[i]? = some t ∧ t.isSeparator = false ∧
    t.kind ≠ .opening ∧ t.kind ≠ .closing

lemma scanFrom_append_blockEnd {s : Text} (h : closes s = false) (i : Nat) :
    ∃ body n, scanFrom false i (s ++ blockEnd) = body ++ [⟨.closing, blockEnd, n⟩] ∧
      ∀ t ∈ body, t.kind ≠ .opening ∧ t.kind ≠ .closing := by
  have hend : ∀ j, scanFrom false j blockEnd = [⟨.closing, blockEnd, j⟩] := by
    intro j
    rw [blockEnd, scanFrom_cons, next_eq, if_pos ⟨rfl, rfl⟩]
    simp
  by_cases hs : s = []
  · subst hs
    exact ⟨[], i, hend i, by simp⟩
  · refine ⟨scanFrom false i s, i + byteSize s, ?_, fun t ht => ⟨kind_ne_opening ht, fun hk => ?_⟩⟩
    · rw [scanFrom_append rfl i (by simp [blockEnd]) (fun _ _ _ => rfl) hs, hend]
    · have hclosed := closes_eq_false_of_isInfix (text_isInfix ht) h
      rw [text_of_closing ht hk] at hclosed
      cases hclosed

/-- Delimiters at the ends leave all other tokens to the nodes. -/
lemma isDelimited_of_delimiters {ts body : List Token} {n : Nat}
    (h : ts = ⟨.opening, docStart, 0⟩ :: (body ++ [⟨.closing, blockEnd, n⟩]))
    (hbody : ∀ t ∈ body, t.kind ≠ .opening ∧ t.kind ≠ .closing) : IsDelimited ts where
  delimiters := ⟨body, n, h, hbody⟩
  isContentAt_iff i := by
    have hstart : contentStart ts = 1 := by
      rw [h]
      rfl
    rw [IsContentAt, hstart]
    constructor
    · rintro ⟨hi, ⟨t, ht, hsep⟩, hnone⟩
      refine ⟨t, ht, hsep, fun hk => ?_, hnone i (Nat.le_refl i) t ht⟩
      obtain ⟨i, rfl⟩ := Nat.exists_eq_add_of_le' hi
      rw [h, List.getElem?_cons_succ] at ht
      rcases List.mem_append.1 (List.mem_of_getElem? ht) with hmem | hmem
      · exact (hbody t hmem).1 hk
      · rw [List.mem_singleton.1 hmem] at hk
        cases hk
    · rintro ⟨t, ht, hsep, hopening, hclosing⟩
      have hi : i ≠ 0 := by
        rintro rfl
        rw [h, List.getElem?_cons_zero, Option.some.injEq] at ht
        exact hopening (ht ▸ rfl)
      refine ⟨Nat.one_le_iff_ne_zero.2 hi, ⟨t, ht, hsep⟩, fun j hj u hu => ?_⟩
      obtain ⟨i, rfl⟩ := Nat.exists_eq_succ_of_ne_zero hi
      rw [h, List.getElem?_cons_succ] at ht
      have hlt : i < body.length := by
        by_contra hle
        rw [List.getElem?_append_right (Nat.not_lt.1 hle)] at ht
        rw [List.mem_singleton.1 (List.mem_of_getElem? ht)] at hclosing
        exact hclosing rfl
      cases j with
      | zero =>
        rw [h, List.getElem?_cons_zero, Option.some.injEq] at hu
        simp [← hu]
      | succ j =>
        rw [h, List.getElem?_cons_succ, List.getElem?_append_left (by omega)] at hu
        exact (hbody u (List.mem_of_getElem? hu)).2

/-- A comment of five bytes or more has its opening delimiter first and its closing delimiter
last. -/
lemma isDelimited_scan {s : Text} (h : IsComment s) (hsize : 5 ≤ byteSize s) :
    IsDelimited (scan s) := by
  obtain ⟨v, rfl, hhead, hlast, hclosed⟩ := isComment_iff.1 h
  obtain ⟨v, rfl⟩ := List.head?_eq_some_iff.1 hhead
  have hne : v ≠ [] := by
    rintro rfl
    exact absurd hsize (by decide)
  obtain ⟨w, rfl⟩ : ∃ w, v = w ++ ['*'] := by
    rw [List.getLast?_cons_of_ne_nil hne] at hlast
    exact List.getLast?_eq_some_iff.1 hlast
  have hw : closes w = false := closes_eq_false_of_isInfix ⟨['*'], ['*'], by simp⟩ hclosed
  obtain ⟨body, n, hscan, hbody⟩ := scanFrom_append_blockEnd hw 3
  refine isDelimited_of_delimiters (n := n) ?_ hbody
  have hshape : '/' :: '*' :: ('*' :: (w ++ ['*']) ++ ['/']) =
      '/' :: '*' :: '*' :: (w ++ blockEnd) := by
    simp [blockEnd]
  rw [hshape, scan, hscan, docStart]

end Token

/-- There is one way to read a source text, and its entries are the comments that are met and
document something. Each is cut into tokens that are its delimiters and what is between them. -/
theorem SourceFile.extract_comments (path : Text) (language : Language) (source : Text) :
    let f := extract path language source
    ∃ cs, (∀ cs', Meets [] source cs' ↔ cs' = cs) ∧
      List.Forall₂ (fun c e => c.IsEntry e ∧ f.blockText e = c.block)
        (cs.filter (·.Documents)) f.entries ∧
      ∀ e ∈ f.entries, Token.IsDelimited (Token.scan (f.blockText e)) := by
  intro f
  obtain ⟨cs, h, -⟩ := exists_meets [] source
  refine ⟨cs, fun cs' => ⟨fun h' => h'.eq_of_meets h, fun hcs => hcs ▸ h⟩,
    forall₂_isEntry_extract h, fun e he => ?_⟩
  obtain ⟨hcomment, hsize⟩ := isComment_blockText he
  exact Token.isDelimited_scan hcomment hsize

end DocComment
