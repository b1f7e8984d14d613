import Mathlib.Data.List.Basic
import Mathlib.Tactic.Common
import DocComment.Text.Basic

/-!
# Where texts are cut

A text is cut at the first copy of a part: the two sides and the copy join to the text
(`cutAt?_eq_some`), no copy stands in front of it (`length_le_of_cutAt?`), and without a cut there
is no copy (`not_isInfix_of_cutAt?`).
-/

namespace DocComment.Text

variable {part p r s t : Text} {c : Char}

lemma dropPrefix?_singleton (c d : Char) (s : Text) :
    dropPrefix? [c] (d :: s) = if c = d then some s else none := by
  simp [dropPrefix?]

lemma dropPrefix?_eq_some (h : dropPrefix? p t = some r) : t = p ++ r := by
  induction p generalizing t with
  | nil => exact Option.some.inj h
  | cons c p ih =>
    cases t with
    | nil => cases h
    | cons d t =>
      rw [dropPrefix?] at h
      split_ifs at h with hc
      rw [hc, ih h, List.cons_append]

lemma dropPrefix?_append (p r : Text) : dropPrefix? p (p ++ r) = some r := by
  induction p with
  | nil => rfl
  | cons c p ih => rw [List.cons_append, dropPrefix?, if_pos rfl, ih]

lemma cutAt?_eq_some (h : cutAt? part s = some (p, r)) : s = p ++ (part ++ r) := by
  induction s generalizing p with
  | nil =>
    rw [cutAt?] at h
    split_ifs at h with hnil
    obtain ⟨rfl, rfl⟩ := Prod.mk.inj (Option.some.inj h)
    rw [hnil]
    rfl
  | cons c s ih =>
    rw [cutAt?] at h
    cases hpre : dropPrefix? part (c :: s) with
    | some r' =>
      rw [hpre] at h
      obtain ⟨rfl, rfl⟩ := Prod.mk.inj (Option.some.inj h)
      rw [List.nil_append]
      exact dropPrefix?_eq_some hpre
    | none =>
      rw [hpre] at h
      obtain ⟨⟨l, r'⟩, hcut, heq⟩ := Option.map_eq_some_iff.1 h
      obtain ⟨rfl, rfl⟩ := Prod.mk.inj heq
      rw [ih hcut, List.cons_append]

/-- A text with a copy of the part is cut. -/
lemma not_isInfix_of_cutAt? (h : cutAt? part s = none) : ¬ part <:+: s := by
  induction s with
  | nil =>
    intro hpart
    rw [List.infix_nil.1 hpart] at h
    cases h
  | cons c s ih =>
    rw [cutAt?] at h
    cases hpre : dropPrefix? part (c :: s) with
    | some r =>
      rw [hpre] at h
      cases h
    | none =>
      rw [hpre] at h
      intro hpart
      rcases List.infix_cons_iff.1 hpart with ⟨r, hr⟩ | hpart
      · rw [← hr, dropPrefix?_append] at hpre
        cases hpre
      · exact ih (Option.map_eq_none_iff.1 h) hpart

/-- No copy of the part stands in front of the one where the text is cut. -/
lemma length_le_of_cutAt? {l : Text} (h : cutAt? part s = some (p, r)) (hs : s = l ++ part ++ t) :
    p.length ≤ l.length := by
  induction s generalizing p l with
  | nil =>
    rw [cutAt?] at h
    split_ifs at h
    obtain ⟨rfl, -⟩ := Prod.mk.inj (Option.some.inj h)
    exact Nat.zero_le _
  | cons c s ih =>
    rw [cutAt?] at h
    cases hpre : dropPrefix? part (c :: s) with
    | some r' =>
      rw [hpre] at h
      obtain ⟨rfl, -⟩ := Prod.mk.inj (Option.some.inj h)
      exact Nat.zero_le _
    | none =>
      rw [hpre] at h
      obtain ⟨⟨p', r'⟩, hcut, heq⟩ := Option.map_eq_some_iff.1 h
      obtain ⟨rfl, rfl⟩ := Prod.mk.inj heq
      cases l with
      | nil =>
        rw [hs, List.nil_append, dropPrefix?_append] at hpre
        cases hpre
      | cons d l =>
        rw [List.cons_append, List.cons_append] at hs
        exact Nat.succ_le_succ (ih hcut (List.cons.inj hs).2)

/-! ### Cutting at a character -/

lemma not_mem_of_cutAt? (h : cutAt? [c] s = some (p, r)) : c ∉ p := by
  induction s generalizing p with
  | nil => simp [cutAt?] at h
  | cons d s ih =>
    rw [cutAt?, dropPrefix?_singleton] at h
    split_ifs at h with hd
    · obtain ⟨rfl, -⟩ := Prod.mk.inj (Option.some.inj h)
      simp
    · obtain ⟨⟨l, r'⟩, hcut, heq⟩ := Option.map_eq_some_iff.1 h
      obtain ⟨rfl, rfl⟩ := Prod.mk.inj heq
      exact List.not_mem_cons_of_ne_of_not_mem hd (ih hcut)

lemma cutAt?_append (hp : c ∉ p) (r : Text) : cutAt? [c] (p ++ c :: r) = some (p, r) := by
  induction p with
  | nil =>
    rw [List.nil_append, cutAt?, dropPrefix?_singleton, if_pos rfl]
  | cons d p ih =>
    simp only [List.mem_cons, not_or] at hp
    rw [List.cons_append, cutAt?, dropPrefix?_singleton, if_neg hp.1]
    dsimp only
    rw [ih hp.2]
    rfl

/-- The first copy of a character stands in front of any other. -/
lemma exists_append_of_not_mem (hp : c ∉ p) (h : p ++ c :: r = s ++ c :: t) :
    ∃ m, s ++ [c] = p ++ [c] ++ m ∧ r = m ++ t := by
  have hsplit : (p ++ [c]) ++ r = (s ++ [c]) ++ t := by simpa using h
  rcases List.append_eq_append_iff.1 hsplit with ⟨m, hm, hr⟩ | ⟨m, hm, ht⟩
  · exact ⟨m, hm, hr⟩
  · rcases List.eq_nil_or_concat' m with rfl | ⟨m, d, rfl⟩
    · exact ⟨[], by simpa using hm.symm, by simpa using ht.symm⟩
    · have hsame : p = s ++ [c] ++ m ∧ [c] = [d] := List.append_inj' (by simpa using hm) rfl
      rw [hsame.1] at hp
      simp at hp

end DocComment.Text
