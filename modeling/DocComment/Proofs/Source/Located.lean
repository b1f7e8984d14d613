import Mathlib.Data.List.Basic
import Mathlib.Data.List.TakeWhile
import Mathlib.Tactic.Common
import DocComment.Proofs.Text.Closing
import DocComment.Proofs.Text.Cut
import DocComment.Proofs.Text.Slice
import DocComment.Proofs.Text.Trim
import DocComment.Source.Extract

/-!
# Where the comments of a source text stand

The comments that are found in a text follow each other (`commentRanges_cons`), and those that are
entries start their lines. So the text is its entries with other text between them, and between an
entry and the next one a line ends (`Located`, `located_extract`).
-/

namespace DocComment

open Text

/-! ### Lines -/

/-- A text behind which a line starts. -/
def EndsLine (s : Text) : Prop := ∀ c ∈ s.getLast?, c = '\n'

/-- A text is its last line and the lines before. -/
lemma linesBeforeLast_append_lastLine (s : Text) : linesBeforeLast s ++ lastLine s = s := by
  rw [linesBeforeLast, lastLine, ← List.reverse_append, List.takeWhile_append_dropWhile,
    List.reverse_reverse]

lemma endsLine_linesBeforeLast (s : Text) : EndsLine (linesBeforeLast s) := by
  obtain ⟨-, -, -, hlast⟩ := exists_trimEndBy (· ≠ '\n') s
  intro c hc
  simpa using hlast c hc

/-! ### Comments -/

/-- Two stars with a slash around them, and what is between the slashes. -/
lemma isComment_of_cutAt? {afterStart body after : Text}
    (h : cutAt? blockEnd ('*' :: afterStart) = some (body, after)) :
    IsComment (['/', '*'] ++ body ++ blockEnd) := by
  have hbody : '*' :: afterStart = body ++ (blockEnd ++ after) := cutAt?_eq_some h
  refine isComment_iff.2 ⟨body ++ ['*'], by simp [blockEnd], ?_, by simp, ?_⟩
  · cases body with
    | nil => rfl
    | cons c body =>
      obtain ⟨rfl, -⟩ := List.cons.inj hbody
      rfl
  · rw [Bool.eq_false_iff, ne_eq, closes_iff]
    rintro ⟨front, rest, hclosed⟩
    have hcopy : '*' :: afterStart = front ++ blockEnd ++ (rest ++ '/' :: after) := by
      have hsplit := congrArg (· ++ '/' :: after) hclosed
      rw [hbody]
      simpa [blockEnd] using hsplit
    have hle := length_le_of_cutAt? h hcopy
    have hlen := congrArg List.length hclosed
    simp only [List.length_append, List.length_cons, List.length_nil] at hlen
    omega

/-- A comment stands in front of all other comments that are found, and behind all text in which no
comment starts. -/
lemma commentRanges_cons {start : Nat} {s : Text} {r : Nat × Nat} {rs : List (Nat × Nat)}
    (h : commentRanges start s = r :: rs) : ∃ gap block after : Text, s = gap ++ block ++ after ∧
      (∀ l t, s = l ++ docStart ++ t → gap.length ≤ l.length) ∧ IsComment block ∧
      r = (start + byteSize gap, start + byteSize (gap ++ block)) ∧
        rs = commentRanges r.2 after := by
  rw [commentRanges] at h
  split at h
  · cases h
  · next gap afterStart hopen =>
    split at h
    · cases h
    · next body after hclose =>
      have hs := cutAt?_eq_some hopen
      have hbody : '*' :: afterStart = body ++ (blockEnd ++ after) := cutAt?_eq_some hclose
      have hwhole : s = gap ++ (['/', '*'] ++ body ++ blockEnd) ++ after := by
        rw [hs]
        show gap ++ '/' :: '*' :: '*' :: afterStart = _
        rw [hbody]
        simp
      have hsize : start + byteSize gap + 2 + byteSize body + 2 =
          start + byteSize (gap ++ (['/', '*'] ++ body ++ blockEnd)) := by
        have hslash : '/'.utf8Size = 1 := rfl
        have hstar : '*'.utf8Size = 1 := rfl
        simp only [byteSize_append, byteSize_cons, byteSize_nil, blockEnd, hslash, hstar]
        omega
      have hlen : after.length < s.length := by
        rw [hwhole]
        simp only [List.length_append, List.length_cons]
        omega
      dsimp only at h
      rw [if_pos hlen, hsize] at h
      obtain ⟨rfl, rfl⟩ := List.cons.inj h
      exact ⟨gap, _, after, hwhole, fun l t => length_le_of_cutAt? hopen,
        isComment_of_cutAt? hclose, rfl, rfl⟩

/-! ### Entries -/

/-- The entries of a text with `before` in front of it. Each starts its line, and what is between
them is arbitrary. -/
inductive Located : (before : Text) → List SourceEntry → Text → Prop where
  | nil (before s : Text) : Located before [] s
  | cons {before gap block s : Text} {e : SourceEntry} {es : List SourceEntry}
    (hline : EndsLine (before ++ gap)) (hindentation : ∀ c ∈ e.indentation, isBlank c)
    (hstart : e.start = byteSize (before ++ gap ++ e.indentation))
    (hstop : e.stop = byteSize (before ++ gap ++ e.indentation ++ block))
    (hblock : block.getLast? = some '/')
    (hes : Located (before ++ gap ++ e.indentation ++ block) es s) :
    Located before (e :: es) (gap ++ e.indentation ++ block ++ s)

namespace Located

variable {before s t : Text} {es : List SourceEntry}

/-- Text without an entry may stand in front. -/
lemma prepend (h : Located (before ++ t) es s) : Located before es (t ++ s) := by
  cases h with
  | nil => exact .nil _ _
  | @cons _ gap block s e es hline hindentation hstart hstop hblock hes =>
    have hcons : Located before (e :: es) (t ++ gap ++ e.indentation ++ block ++ s) := by
      have hfront : before ++ t ++ gap = before ++ (t ++ gap) := List.append_assoc before t gap
      rw [hfront] at hline hstart hstop hes
      exact .cons hline hindentation hstart hstop hblock hes
    simpa using hcons

/-- The line behind a comment ends in front of the next entry. -/
lemma drop_line (h : Located before es (t ++ '\n' :: s)) (hbefore : before.getLast? = some '/')
    (ht : '\n' ∉ t) : Located (before ++ t ++ ['\n']) es s := by
  generalize hwhole : t ++ '\n' :: s = whole at h
  cases h with
  | nil => exact .nil _ _
  | @cons _ gap block s' e es hline hindentation hstart hstop hblock hes =>
    -- The gap ends with a line feed, as does what stands in front of any entry.
    obtain ⟨gap, rfl⟩ : ∃ gap', gap = gap' ++ ['\n'] := by
      rcases List.eq_nil_or_concat' gap with rfl | ⟨gap', c, rfl⟩
      · rw [List.append_nil] at hline
        cases hline '/' hbefore
      · obtain rfl : c = '\n' := hline c (by simp)
        exact ⟨gap', rfl⟩
    obtain ⟨m, hm, rfl⟩ :=
      exists_append_of_not_mem (s := gap) (t := e.indentation ++ block ++ s') ht
      (by simpa using hwhole)
    have hfront : before ++ (gap ++ ['\n']) = before ++ t ++ ['\n'] ++ m := by
      rw [hm]
      simp
    rw [hfront] at hline hstart hstop hes
    have hcons := Located.cons hline hindentation hstart hstop hblock hes
    simpa using hcons

/-- The bytes of an entry and of its indentation are in the text. -/
lemma exists_of_mem {e : SourceEntry} (h : Located before es s) (he : e ∈ es) :
    ∃ front block after : Text, before ++ s = front ++ e.indentation ++ block ++ after ∧
      e.start = byteSize (front ++ e.indentation) ∧
      e.stop = byteSize (front ++ e.indentation ++ block) := by
  induction h with
  | nil => cases he
  | @cons before gap block s e' es hline hindentation hstart hstop hblock hes ih =>
    rcases List.mem_cons.1 he with rfl | he
    · exact ⟨before ++ gap, block, s, by simp, hstart, hstop⟩
    · obtain ⟨front, block', after, hsource, hstart', hstop'⟩ := ih he
      refine ⟨front, block', after, ?_, hstart', hstop'⟩
      rw [← hsource]
      simp

end Located

/-- Blanks at the end of a text do not reach back over what is not blank. -/
lemma exists_of_blank_suffix {before gap l x : Text} (h : before ++ gap = l ++ x)
    (hbefore : ∀ c ∈ before.getLast?, isBlank c = false) (hx : ∀ c ∈ x, isBlank c) :
    ∃ gap', gap = gap' ++ x ∧ l = before ++ gap' := by
  rcases List.append_eq_append_iff.1 h with ⟨m, rfl, rfl⟩ | ⟨m, rfl, rfl⟩
  · exact ⟨m, rfl, rfl⟩
  · rcases List.eq_nil_or_concat' m with rfl | ⟨m, c, rfl⟩
    · exact ⟨[], by simp, by simp⟩
    · have hc := hbefore c (by simp)
      rw [hx c (by simp)] at hc
      cases hc

/-- An entry is a comment behind blanks. -/
lemma SourceEntry.ofRange?_eq_some {l : Language} {source : Text} {r : Nat × Nat} {e : SourceEntry}
    (h : ofRange? l source r = some e) : r = (e.start, e.stop) ∧
      e.indentation = lastLine (takeBytes e.start source) ∧ ∀ c ∈ e.indentation, isBlank c := by
  rw [ofRange?] at h
  dsimp only at h
  split_ifs at h with hnot
  obtain rfl := Option.some.inj h
  simp only [Bool.or_eq_true, Bool.not_eq_true', not_or, Bool.not_eq_false] at hnot
  exact ⟨rfl, rfl, List.all_eq_true.1 hnot.2⟩

/-- The entries among the comments of a text. -/
lemma located_filterMap (l : Language) {before s : Text}
    (hbefore : ∀ c ∈ before.getLast?, c = '/') : Located before
      ((commentRanges (byteSize before) s).filterMap (SourceEntry.ofRange? l (before ++ s))) s := by
  generalize hrs : commentRanges (byteSize before) s = rs
  induction rs generalizing before s with
  | nil => exact .nil before s
  | cons r rs ih =>
    obtain ⟨gap, block, after, rfl, -, hcomment, rfl, hrest⟩ := commentRanges_cons hrs
    have hblock := hcomment.getLast?
    have hsize : byteSize before + byteSize (gap ++ block) = byteSize (before ++ gap ++ block) := by
      simp only [byteSize_append, Nat.add_assoc]
    have hwhole : before ++ (gap ++ block ++ after) = before ++ gap ++ block ++ after := by simp
    have hlast := hcomment.getLast?_append (before ++ gap)
    rw [hsize] at hrest ⊢
    have hafter : Located (before ++ gap ++ block)
        (rs.filterMap (SourceEntry.ofRange? l (before ++ gap ++ block ++ after))) after :=
      ih (fun c hc => (Option.some.inj (hlast.symm.trans hc)).symm) hrest.symm
    rw [hwhole, List.filterMap_cons]
    generalize rs.filterMap (SourceEntry.ofRange? l (before ++ gap ++ block ++ after)) = es
      at hafter ⊢
    cases he : SourceEntry.ofRange? l (before ++ gap ++ block ++ after)
        (byteSize before + byteSize gap, byteSize (before ++ gap ++ block)) with
    | none =>
      rw [List.append_assoc before] at hafter
      exact hafter.prepend
    | some e =>
      obtain ⟨hrange, hindentation, hblank⟩ := SourceEntry.ofRange?_eq_some he
      obtain ⟨hstart, hstop⟩ := Prod.mk.inj hrange
      have hfront : takeBytes e.start (before ++ gap ++ block ++ after) = before ++ gap := by
        rw [← hstart, ← byteSize_append, List.append_assoc (before ++ gap)]
        exact takeBytes_byteSize_append _ _
      rw [hfront] at hindentation
      have hlines := linesBeforeLast_append_lastLine (before ++ gap)
      rw [← hindentation] at hlines
      have hslash : ∀ c ∈ before.getLast?, isBlank c = false := by
        intro c hc
        rw [hbefore c hc]
        rfl
      obtain ⟨gap', rfl, hline⟩ := exists_of_blank_suffix hlines.symm hslash hblank
      have hends := endsLine_linesBeforeLast (before ++ (gap' ++ e.indentation))
      rw [hline] at hends
      have hassoc : before ++ (gap' ++ e.indentation) = before ++ gap' ++ e.indentation :=
        (List.append_assoc _ _ _).symm
      rw [hassoc] at hstop hafter
      refine .cons hends hblank ?_ hstop.symm hblock hafter
      rw [← hstart, ← byteSize_append, hassoc]

/-- A source text is its entries with other text between them. -/
lemma located_extract (path : Text) (language : Language) (source : Text) :
    Located [] (SourceFile.extract path language source).entries source :=
  located_filterMap language (by simp)

end DocComment
