import Mathlib.Data.List.Basic
import Mathlib.Data.List.Induction
import Mathlib.Tactic.Common
import DocComment.Text.Basic

/-!
# Brackets

There are four kinds of brackets, and the brackets of one kind are matched apart from all others. A
closing character closes the last bracket of its kind that is open. If none is, it is a *stray* and
closes nothing; in `=>` and `->` it is an angle bracket by its looks only.

A place in a text is enclosed if a bracket in front of it is closed by one behind it (`IsEnclosed`).
That is the case if brackets are open where the place is (`opened`) and characters behind it close
some that were not opened there (`strays`), for the same kind of brackets (`encloses_iff`).
-/

namespace DocComment.Text

/-- The kinds of brackets. -/
inductive Bracket where
  | round
  | angle
  | square
  | curly
  deriving DecidableEq, Repr, Inhabited

namespace Bracket

/-- The character that opens a bracket. -/
def opening : Bracket → Char
  | round => '('
  | angle => '<'
  | square => '['
  | curly => '\x7b'

/-- The character that closes a bracket. -/
def closing : Bracket → Char
  | round => ')'
  | angle => '>'
  | square => ']'
  | curly => '\x7d'

lemma opening_ne_closing (b : Bracket) : b.opening ≠ b.closing := by
  cases b <;> decide

/-- The sum over all kinds of brackets. -/
def total (f : Bracket → Nat) : Nat := f round + f angle + f square + f curly

lemma total_pos_iff {f : Bracket → Nat} : 0 < total f ↔ ∃ b, 0 < f b := by
  constructor
  · intro h
    by_contra hnone
    simp only [not_exists, Nat.not_lt, Nat.le_zero] at hnone
    simp [total, hnone] at h
  · rintro ⟨b, hb⟩
    unfold total
    cases b <;> omega

/-- Text in which every bracket of the kind that is opened is closed, and none is closed that is not
open. -/
structure Pairs (b : Bracket) (s : Text) : Prop where
  count_le : ∀ p, p <+: s → p.count b.closing ≤ p.count b.opening
  count_eq : s.count b.closing = s.count b.opening

/-- A bracket of the kind is opened in front of the place between `p` and `q` and closed behind it:
of those between the two, every one is closed that is opened. -/
def Encloses (b : Bracket) (p q : Text) : Prop :=
  ∃ x l r y, p = x ++ b.opening :: l ∧ q = r ++ b.closing :: y ∧ b.Pairs (l ++ r)

/-! ### Counting -/

/-- How many brackets of the kind are open behind a character, with `n` open in front of it. -/
def level (b : Bracket) (n : Nat) (c : Char) : Nat :=
  if c = b.opening then n + 1 else if c = b.closing then n - 1 else n

/-- How many brackets of the kind are open behind a text, with `n` open in front of it. -/
def opened (b : Bracket) : (n : Nat) → Text → Nat
  | n, [] => n
  | n, c :: s => opened b (b.level n c) s

/-- How many closing characters of a text close no bracket of the kind, with `n` open in front of
it. -/
def strays (b : Bracket) : (n : Nat) → Text → Nat
  | _, [] => 0
  | n, c :: s => (if c = b.closing ∧ n = 0 then 1 else 0) + strays b (b.level n c) s

variable {b : Bracket} {n m : Nat} {c : Char} {s t p q : Text}

@[simp] lemma level_opening : b.level n b.opening = n + 1 := if_pos rfl

@[simp] lemma level_closing : b.level n b.closing = n - 1 := by
  rw [level, if_neg b.opening_ne_closing.symm, if_pos rfl]

lemma level_of_ne (ho : c ≠ b.opening) (hc : c ≠ b.closing) : b.level n c = n := by
  rw [level, if_neg ho, if_neg hc]

lemma opened_append (s t : Text) : b.opened n (s ++ t) = b.opened (b.opened n s) t := by
  induction s generalizing n with
  | nil => rfl
  | cons c s ih => rw [List.cons_append, opened, opened, ih]

lemma strays_append (s t : Text) :
    b.strays n (s ++ t) = b.strays n s + b.strays (b.opened n s) t := by
  induction s generalizing n with
  | nil => simp [opened, strays]
  | cons c s ih => rw [List.cons_append, strays, strays, opened, ih, Nat.add_assoc]

/-- A bracket is opened or was open, and is closed or stays open, apart from the strays. -/
lemma opened_add_count (s : Text) :
    b.opened n s + s.count b.closing = n + s.count b.opening + b.strays n s := by
  induction s generalizing n with
  | nil => simp [opened, strays]
  | cons c s ih =>
    have hstep := ih (n := b.level n c)
    rw [opened, strays, List.count_cons, List.count_cons]
    by_cases ho : c = b.opening
    · have hc : b.opening ≠ b.closing := b.opening_ne_closing
      subst ho
      simp only [level_opening] at hstep ⊢
      simp only [beq_iff_eq, hc, false_and, if_false, if_true]
      omega
    by_cases hc : c = b.closing
    · subst hc
      simp only [level_closing] at hstep ⊢
      simp only [beq_iff_eq, ho, true_and, if_false, if_true]
      split_ifs with hn
      · omega
      · omega
    · rw [level_of_ne ho hc] at hstep ⊢
      simp only [beq_iff_eq, ho, hc, false_and, if_false]
      omega

/-- With more brackets open in front of a text more are open behind it. -/
lemma opened_mono (h : n ≤ m) (s : Text) : b.opened n s ≤ b.opened m s := by
  induction s generalizing n m with
  | nil => exact h
  | cons c s ih =>
    refine ih ?_
    unfold level
    split_ifs <;> omega

/-- Nothing is stray in a text if no start of it closes more than is open. -/
lemma strays_eq_zero_iff :
    b.strays n s = 0 ↔ ∀ p, p <+: s → p.count b.closing ≤ n + p.count b.opening := by
  constructor
  · rintro h p ⟨r, rfl⟩
    rw [strays_append, Nat.add_eq_zero_iff] at h
    have := b.opened_add_count (n := n) p
    omega
  · intro h
    induction s generalizing n with
    | nil => rfl
    | cons c s ih =>
      have hcons : ∀ p, p <+: s →
          (c :: p).count b.closing ≤ n + (c :: p).count b.opening :=
        fun p hp => h (c :: p) (List.cons_prefix_cons.2 ⟨rfl, hp⟩)
      have hfirst := hcons [] List.nil_prefix
      rw [strays, ih fun p hp => ?_]
      · rw [List.count_singleton, List.count_singleton] at hfirst
        simp only [beq_iff_eq] at hfirst
        split_ifs with hstray
        · obtain ⟨rfl, rfl⟩ := hstray
          simp [b.opening_ne_closing.symm] at hfirst
        · rfl
      · have hp' := hcons p hp
        rw [List.count_cons, List.count_cons] at hp'
        simp only [beq_iff_eq] at hp'
        have hne := b.opening_ne_closing
        unfold level
        split_ifs at hp' ⊢ with ho hc
        · exact absurd (ho.symm.trans hc) hne
        all_goals omega

lemma pairs_iff : b.Pairs s ↔ b.strays 0 s = 0 ∧ b.opened 0 s = 0 := by
  have hcount := b.opened_add_count (n := 0) s
  have hstrays := strays_eq_zero_iff (b := b) (n := 0) (s := s)
  simp only [Nat.zero_add] at hcount hstrays
  constructor
  · rintro ⟨hle, heq⟩
    have := hstrays.2 hle
    omega
  · rintro ⟨hzero, hopened⟩
    exact ⟨hstrays.1 hzero, by omega⟩

instance : Decidable (b.Pairs s) := decidable_of_iff _ pairs_iff.symm

/-! ### Places between brackets -/

/-- Each of the brackets that are open behind a text was opened in it, if none was open before. -/
lemma exists_of_lt_opened {k : Nat} (h : k < b.opened 0 p) :
    ∃ x l, p = x ++ b.opening :: l ∧ b.strays 0 l = 0 ∧ b.opened 0 l = k := by
  induction p using List.reverseRecOn generalizing k with
  | nil => cases h
  | append_singleton p c ih =>
    have hmore : ∀ {m : Nat}, m < b.opened 0 p → (c = b.closing → m ≠ 0) → b.level m c = k →
        ∃ x l, p ++ [c] = x ++ b.opening :: l ∧ b.strays 0 l = 0 ∧ b.opened 0 l = k := by
      intro m hm hclosing hlevel
      obtain ⟨x, l, rfl, hl, hopened⟩ := ih hm
      refine ⟨x, l ++ [c], by simp, ?_, ?_⟩
      · rw [strays_append, hl, hopened, strays, if_neg fun h => hclosing h.1 h.2]
        rfl
      · rw [opened_append, hopened, opened, opened, hlevel]
    rw [opened_append, opened, opened] at h
    by_cases ho : c = b.opening
    · subst ho
      rw [level_opening] at h
      cases k with
      | zero => exact ⟨p, [], rfl, rfl, rfl⟩
      | succ k => exact hmore (by omega) (fun h => absurd h b.opening_ne_closing) level_opening
    by_cases hc : c = b.closing
    · subst hc
      rw [level_closing] at h
      exact hmore (m := k + 1) (by omega) (fun _ => k.succ_ne_zero) (by simp)
    · rw [level_of_ne ho hc] at h
      exact hmore h (fun h => absurd h hc) (level_of_ne ho hc)

/-- In front of the first stray all brackets that were opened are closed. -/
lemma exists_of_strays_pos (h : 0 < b.strays n q) :
    ∃ r y, q = r ++ b.closing :: y ∧ b.strays n r = 0 ∧ b.opened n r = 0 := by
  induction q generalizing n with
  | nil => cases h
  | cons c q ih =>
    by_cases hstray : c = b.closing ∧ n = 0
    · obtain ⟨rfl, rfl⟩ := hstray
      exact ⟨[], q, rfl, rfl, rfl⟩
    · rw [strays, if_neg hstray, Nat.zero_add] at h
      obtain ⟨r, y, rfl, hr, hopened⟩ := ih h
      refine ⟨c :: r, y, rfl, ?_, hopened⟩
      rw [strays, if_neg hstray, hr]

/-- A place is enclosed if brackets are open there and characters behind it close some that were not
opened there. -/
lemma encloses_iff : b.Encloses p q ↔ 0 < b.opened 0 p ∧ 0 < b.strays 0 q := by
  constructor
  · rintro ⟨x, l, r, y, rfl, rfl, hpairs⟩
    obtain ⟨hstrays, hopened⟩ := pairs_iff.1 hpairs
    rw [strays_append, Nat.add_eq_zero_iff] at hstrays
    rw [opened_append] at hopened
    constructor
    · -- The starts of `l` close no more than they open, so the bracket in front of it stays open.
      have hcount := b.opened_add_count (n := b.opened 0 x + 1) l
      have hle := strays_eq_zero_iff.1 hstrays.1 l List.prefix_rfl
      rw [opened_append, opened, level_opening]
      omega
    · -- What closes brackets of `l` in `r` is stray without them.
      have hr : b.opened 0 r = 0 := by
        have := opened_mono (b := b) (Nat.zero_le (b.opened 0 l)) r
        omega
      rw [strays_append, strays, hr, if_pos ⟨rfl, rfl⟩]
      omega
  · rintro ⟨hp, hq⟩
    obtain ⟨x, l, rfl, hl, hlopen⟩ := exists_of_lt_opened hp
    obtain ⟨r, y, rfl, hr, hropen⟩ := exists_of_strays_pos hq
    refine ⟨x, l, r, y, rfl, rfl, pairs_iff.2 ⟨?_, ?_⟩⟩
    · rw [strays_append, hl, hlopen, hr]
    · rw [opened_append, hlopen, hropen]

end Bracket

/-! ### Brackets of any kind -/

/-- A pair of brackets stands around the place between `p` and `q`. -/
def IsEnclosed (p q : Text) : Prop := ∃ b : Bracket, b.Encloses p q

/-- The number of pairs of brackets around the place between `p` and `q`: of those that are open
there, the ones that are closed behind it. -/
def pairsAround (p q : Text) : Nat :=
  Bracket.total fun b => min (b.opened 0 p) (b.strays 0 q)

/-- How many more characters in front of a place are strays than are brackets that are never
closed. -/
def drift (p q : Text) : Int :=
  Bracket.total (fun b => b.strays 0 p) - Bracket.total fun b => b.opened 0 p - b.strays 0 q

lemma isEnclosed_iff {p q : Text} : IsEnclosed p q ↔ 0 < pairsAround p q := by
  rw [pairsAround, Bracket.total_pos_iff]
  refine exists_congr fun b => ?_
  rw [Bracket.encloses_iff, Nat.lt_min]

instance (p q : Text) : Decidable (IsEnclosed p q) := decidable_of_iff _ isEnclosed_iff.symm

/-- Where all brackets pair, nothing drifts. -/
lemma drift_eq_zero {p q : Text} {c : Char} (h : ∀ b : Bracket, b.Pairs (p ++ c :: q))
    (hc : ∀ b : Bracket, c ≠ b.opening ∧ c ≠ b.closing) : drift p q = 0 := by
  have hkind : ∀ b : Bracket, b.strays 0 p = 0 ∧ b.opened 0 p - b.strays 0 q = 0 := by
    intro b
    obtain ⟨hstrays, hopened⟩ := Bracket.pairs_iff.1 (h b)
    have hcount := b.opened_add_count (n := 0) q
    have hcount' := b.opened_add_count (n := b.opened 0 p) q
    simp only [Bracket.strays_append, Bracket.opened_append, Bracket.strays, Bracket.opened,
      Bracket.level_of_ne (hc b).1 (hc b).2, Nat.add_eq_zero_iff] at hstrays hopened
    omega
  simp [drift, Bracket.total, hkind]

end DocComment.Text
