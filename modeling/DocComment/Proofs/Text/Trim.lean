import Mathlib.Data.List.Basic
import Mathlib.Data.List.TakeWhile
import Mathlib.Tactic.Common
import DocComment.Text.WhiteSpace

/-!
# Trimmed texts

A text is its trimmed text with white space around it (`exists_trim`), and a trimmed text starts and
ends with no white space, so that it is trimmed already (`trim_eq`). Trimming takes away no
character of any other kind (`filter_trim`).
-/

namespace DocComment.Text

variable {s t : Text}

/-- Trimming takes characters of one class away from the end. -/
lemma exists_trimEndBy (p : Char → Bool) (s : Text) : ∃ r, s = trimEndBy p s ++ r ∧ (∀ c ∈ r, p c) ∧
    ∀ c ∈ (trimEndBy p s).getLast?, p c = false := by
  refine ⟨(s.reverse.takeWhile p).reverse, ?_, fun c hc => ?_, fun c hc => ?_⟩
  · rw [trimEndBy, ← List.reverse_append, List.takeWhile_append_dropWhile, List.reverse_reverse]
  · exact List.mem_takeWhile_imp (List.mem_reverse.1 hc)
  · rw [trimEndBy, List.getLast?_reverse] at hc
    have hnot := List.head?_dropWhile_not p s.reverse
    rwa [Option.mem_def.1 hc] at hnot

lemma trimStart_suffix (s : Text) : trimStart s <:+ s := List.dropWhile_suffix _

lemma head?_trimStart (s : Text) : ∀ c ∈ (trimStart s).head?, isWhiteSpace c = false := by
  intro c hc
  have hnot := List.head?_dropWhile_not isWhiteSpace s
  rw [trimStart, Option.mem_def] at hc
  rwa [hc] at hnot

lemma dropBytes_suffix (n : Nat) (s : Text) : dropBytes n s <:+ s :=
  ⟨takeBytes n s, takeBytes_append_dropBytes n s⟩

/-- Trimming takes white space away from both ends. -/
lemma exists_trim (s : Text) : ∃ r, s = s.takeWhile isWhiteSpace ++ trim s ++ r ∧
    (∀ c ∈ r, isWhiteSpace c) ∧ (∀ c ∈ (trim s).head?, isWhiteSpace c = false) ∧
    ∀ c ∈ (trim s).getLast?, isWhiteSpace c = false := by
  obtain ⟨r, hr, hwhite, hlast⟩ := exists_trimEndBy isWhiteSpace (s.dropWhile isWhiteSpace)
  refine ⟨r, ?_, hwhite, fun c hc => ?_, hlast⟩
  · rw [trim, trimBy, List.append_assoc, ← hr, List.takeWhile_append_dropWhile]
  · refine head?_trimStart s c ?_
    rw [trimStart, hr, List.head?_append]
    simpa using .inl hc

lemma trim_eq_nil_iff : trim s = [] ↔ ∀ c ∈ s, isWhiteSpace c := by
  obtain ⟨r, hs, hr, hhead, -⟩ := exists_trim s
  constructor
  · intro h c hc
    rw [hs, h, List.append_nil, List.mem_append] at hc
    rcases hc with hc | hc
    · exact List.mem_takeWhile_imp hc
    · exact hr c hc
  · intro h
    cases htrim : trim s with
    | nil => rfl
    | cons c t =>
      have hwhite := h c (by rw [hs, htrim]; simp)
      rw [hhead c (by rw [htrim]; rfl)] at hwhite
      cases hwhite

lemma trim_isInfix (s : Text) : trim s <:+: s := by
  obtain ⟨r, hr, -⟩ := exists_trim s
  exact ⟨_, r, hr.symm⟩

/-- Trimming takes white space away only. -/
lemma filter_trim {q : Char → Bool} (hq : ∀ c, isWhiteSpace c → q c = false) (s : Text) :
    (trim s).filter q = s.filter q := by
  obtain ⟨r, hs, hr, -⟩ := exists_trim s
  have hnil : ∀ l : Text, (∀ c ∈ l, isWhiteSpace c) → l.filter q = [] := fun l hl =>
    List.filter_eq_nil_iff.2 fun c hc => by simp [hq c (hl c hc)]
  have hleft := hnil (s.takeWhile isWhiteSpace) fun c hc => List.mem_takeWhile_imp hc
  conv_rhs => rw [hs, List.filter_append, List.filter_append, hleft, hnil r hr, List.append_nil]
  rfl

lemma count_trim_le (c : Char) (s : Text) : (trim s).count c ≤ s.count c :=
  (trim_isInfix s).sublist.count_le c

lemma count_trim {c : Char} (h : isWhiteSpace c = false) (s : Text) :
    (trim s).count c = s.count c := by
  have hne : ∀ d, isWhiteSpace d → (d == c) = false := by
    intro d hd
    refine beq_eq_false_iff_ne.2 ?_
    rintro rfl
    rw [hd] at h
    cases h
  rw [List.count_eq_countP, List.count_eq_countP, List.countP_eq_length_filter,
    List.countP_eq_length_filter, filter_trim hne]

/-! ### Texts without white space around them -/

lemma trimStart_eq (h : ∀ c ∈ s.head?, isWhiteSpace c = false) : trimStart s = s := by
  cases s with
  | nil => rfl
  | cons c s => rw [trimStart, List.dropWhile_cons_of_neg (by simp [h c rfl])]

lemma trimStart_cons_space (s : Text) : trimStart (' ' :: s) = trimStart s := rfl

lemma trimEnd_eq (h : ∀ c ∈ s.getLast?, isWhiteSpace c = false) : trimEnd s = s := by
  rcases List.eq_nil_or_concat' s with rfl | ⟨s, c, rfl⟩
  · rfl
  · have hc := h c (by simp)
    rw [trimEnd, trimEndBy, List.reverse_append, List.reverse_singleton, List.singleton_append,
      List.dropWhile_cons_of_neg (by simp [hc]), List.reverse_cons, List.reverse_reverse]

/-- White space at the end is trimmed away. -/
lemma trimEnd_append {r : Text} (h : ∀ c ∈ s.getLast?, isWhiteSpace c = false)
    (hr : ∀ c ∈ r, isWhiteSpace c) : trimEnd (s ++ r) = s := by
  have hrev : ∀ c ∈ r.reverse, isWhiteSpace c := fun c hc => hr c (List.mem_reverse.1 hc)
  rw [trimEnd, trimEndBy, List.reverse_append, List.dropWhile_append_of_pos hrev]
  exact trimEnd_eq h

lemma trim_eq (hhead : ∀ c ∈ s.head?, isWhiteSpace c = false)
    (hlast : ∀ c ∈ s.getLast?, isWhiteSpace c = false) : trim s = s := by
  show trimEnd (trimStart s) = s
  rw [trimStart_eq hhead, trimEnd_eq hlast]

/-! ### White space -/

lemma isWhiteSpace_of_isAlphanum {c : Char} (h : c.isAlphanum) : isWhiteSpace c = false := by
  have hval : c.toNat = c.val.toNat := rfl
  have hranges : (decide (c.val ≥ 'A'.val ∧ c.val ≤ 'Z'.val) ||
      (decide (c.val ≥ 'a'.val) && decide (c.val ≤ 'z'.val)) ||
      (decide (c.val ≥ '0'.val) && decide (c.val ≤ '9'.val))) = true := h
  simp only [Bool.or_eq_true, Bool.and_eq_true, decide_eq_true_eq, UInt32.le_iff_toNat_le,
    ge_iff_le, UInt32.reduceToNat, Char.reduceVal] at hranges
  simp only [isWhiteSpace, Bool.or_eq_false_iff, Bool.and_eq_false_iff, decide_eq_false_iff_not,
    hval]
  omega

end DocComment.Text
