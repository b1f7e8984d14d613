import Mathlib.Data.List.Basic
import Mathlib.Tactic.Common
import DocComment.Text.Basic

/-!
# Slices of texts

A text may be cut at the byte size of each of its starts and nowhere else (`isBoundary_iff`), so a
slice between two boundaries is a part of the text with something in front of it and behind it
(`slice?_eq_some_iff`).
-/

namespace DocComment.Text

lemma byteSize_eq_zero {s : Text} : byteSize s = 0 ↔ s = [] := by
  cases s with
  | nil => simp
  | cons c s =>
    have hpos := c.utf8Size_pos
    simp only [byteSize_cons, List.cons_ne_nil, iff_false]
    omega

lemma slice_append (s t u : Text) :
    slice (byteSize s) (byteSize s + byteSize t) (s ++ t ++ u) = t := by
  rw [slice, List.append_assoc, dropBytes_byteSize_append, Nat.add_sub_cancel_left,
    takeBytes_byteSize_append]

lemma isBoundary_byteSize_append (s t : Text) : isBoundary (byteSize s) (s ++ t) := by
  induction s with
  | nil => cases t <;> rfl
  | cons c s ih =>
    obtain ⟨n, hn⟩ : ∃ n, byteSize (c :: s) = n + 1 :=
      ⟨byteSize (c :: s) - 1, by have := c.utf8Size_pos; simp only [byteSize_cons]; omega⟩
    have hle : c.utf8Size ≤ n + 1 := by rw [← hn, byteSize_cons]; exact Nat.le_add_right _ _
    have hsub : n + 1 - c.utf8Size = byteSize s := by
      rw [← hn, byteSize_cons, Nat.add_sub_cancel_left]
    rw [hn, List.cons_append, isBoundary, hsub, ih]
    simpa using hle

/-- A part of a text is cut out at the boundaries around it. -/
lemma slice?_append (s t u : Text) :
    slice? (byteSize s) (byteSize s + byteSize t) (s ++ t ++ u) = some t := by
  have hstart : isBoundary (byteSize s) (s ++ t ++ u) := by
    rw [List.append_assoc]
    exact isBoundary_byteSize_append s (t ++ u)
  have hstop : isBoundary (byteSize s + byteSize t) (s ++ t ++ u) := by
    rw [← byteSize_append]
    exact isBoundary_byteSize_append (s ++ t) u
  rw [slice?, hstart, hstop, slice_append]
  simp

/-- The boundaries of a text are the sizes of its starts. -/
lemma isBoundary_iff {n : Nat} {s : Text} :
    isBoundary n s ↔ ∃ l r : Text, s = l ++ r ∧ n = byteSize l := by
  constructor
  · intro h
    induction s generalizing n with
    | nil =>
      cases n with
      | zero => exact ⟨[], [], rfl, rfl⟩
      | succ n => cases h
    | cons c s ih =>
      cases n with
      | zero => exact ⟨[], c :: s, rfl, rfl⟩
      | succ n =>
        rw [isBoundary, Bool.and_eq_true, decide_eq_true_eq] at h
        obtain ⟨hle, h⟩ := h
        obtain ⟨l, r, rfl, hl⟩ := ih h
        refine ⟨c :: l, r, rfl, ?_⟩
        rw [byteSize_cons]
        omega
  · rintro ⟨l, r, rfl, rfl⟩
    exact isBoundary_byteSize_append l r

/-- Of two starts of a text the smaller one is a start of the larger one. -/
lemma exists_append_of_byteSize_le {l r u v : Text} (h : l ++ r = u ++ v)
    (hle : byteSize l ≤ byteSize u) : ∃ m, u = l ++ m ∧ r = m ++ v := by
  rcases List.append_eq_append_iff.1 h with ⟨m, rfl, rfl⟩ | ⟨m, rfl, rfl⟩
  · exact ⟨m, rfl, rfl⟩
  · obtain rfl : m = [] := by
      rw [byteSize_append] at hle
      exact byteSize_eq_zero.1 (by omega)
    exact ⟨[], by simp, by simp⟩

/-- A slice between boundaries is a part of the text. -/
lemma slice?_eq_some_iff {start stop : Nat} {s t : Text} : slice? start stop s = some t ↔
    ∃ l r : Text, s = l ++ t ++ r ∧ start = byteSize l ∧ stop = byteSize (l ++ t) := by
  constructor
  · intro h
    rw [slice?] at h
    split_ifs at h with hb
    simp only [Bool.and_eq_true, decide_eq_true_eq] at hb
    obtain ⟨⟨hle, hstart⟩, hstop⟩ := hb
    obtain ⟨l, r, rfl, rfl⟩ := isBoundary_iff.1 hstart
    obtain ⟨u, v, huv, rfl⟩ := isBoundary_iff.1 hstop
    obtain ⟨m, rfl, rfl⟩ := exists_append_of_byteSize_le huv hle
    obtain rfl : m = t := by
      rw [← Option.some.inj h, byteSize_append, ← List.append_assoc]
      exact (slice_append l m v).symm
    exact ⟨l, v, (List.append_assoc l m v).symm, rfl, rfl⟩
  · rintro ⟨l, r, rfl, rfl, rfl⟩
    rw [byteSize_append]
    exact slice?_append l t r

lemma slice_eq_of_slice? {start stop : Nat} {s t : Text} (h : slice? start stop s = some t) :
    slice start stop s = t := by
  rw [slice?] at h
  split_ifs at h
  exact Option.some.inj h

/-- A slice that starts further in front. -/
lemma slice?_prepend {p q s t : Text} {stop : Nat}
    (h : slice? (byteSize (p ++ q)) stop (p ++ q ++ s) = some t) :
    slice? (byteSize p) stop (p ++ q ++ s) = some (q ++ t) := by
  obtain ⟨l, r, hs, hstart, rfl⟩ := slice?_eq_some_iff.1 h
  obtain rfl : p ++ q = l := by
    rw [← takeBytes_byteSize_append (p ++ q) s, hstart, hs, List.append_assoc,
      takeBytes_byteSize_append]
  refine slice?_eq_some_iff.2 ⟨p, r, ?_, rfl, ?_⟩
  · rw [hs]
    simp
  · simp

end DocComment.Text
