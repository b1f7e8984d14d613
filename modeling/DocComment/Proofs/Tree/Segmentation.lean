import Mathlib.Order.Bounds.Basic
import DocComment.Proofs.Token.Part
import DocComment.Proofs.Tree.Segments

/-!
# Where nodes start and end

What the nodes of a comment are is said here without any reading: which tokens are content
(`IsContentAt`), at which of them a node starts (`StartsAt`), and what spans have to do with both
(`Span.IsSegmentation`). The reader lists the content in order (`mem_contentIndexes`) and groups it
into spans (`isSegmentation_group`), so the spans of a comment are its segmentation
(`isSegmentation_spans`).
-/

namespace DocComment

open Token

/-! ### Segmentations -/

/-- Spans that divide what is content by where something starts. Each ends behind the last content
in front of the next start. -/
structure Span.IsSegmentation (content starts : Nat → Prop) (spans : List Span) : Prop where
  nonempty : ∀ s ∈ spans, s.start < s.stop
  ordered : spans.Pairwise fun s u => s.stop ≤ u.start
  covered : ∀ i, content i → ∃! s, s ∈ spans ∧ s.start ≤ i ∧ i < s.stop
  starts_iff : ∀ i, starts i ↔ ∃ s ∈ spans, s.start = i
  stop_eq : ∀ s ∈ spans, ∃ last, s.stop = last + 1 ∧
    IsGreatest {i | content i ∧ s.start ≤ i ∧ ∀ j, s.start < j → j ≤ i → ¬ starts j} last

namespace Span.IsSegmentation

variable {content starts : Nat → Prop} {spans : List Span}

lemma existsUnique_of_ordered (hspans : spans.Pairwise fun s u => s.stop ≤ u.start) {i : Nat}
    (h : ∃ s ∈ spans, s.start ≤ i ∧ i < s.stop) :
    ∃! s, s ∈ spans ∧ s.start ≤ i ∧ i < s.stop := by
  induction spans with
  | nil => simp at h
  | cons s spans ih =>
    obtain ⟨hs, hspans⟩ := List.pairwise_cons.1 hspans
    obtain ⟨u, hmem, hle, hlt⟩ := h
    rcases List.mem_cons.1 hmem with rfl | hu
    · refine ⟨u, ⟨List.mem_cons_self, hle, hlt⟩, fun v ⟨hv, hvle, hvlt⟩ => ?_⟩
      rcases List.mem_cons.1 hv with rfl | hv
      · rfl
      · have := hs v hv
        omega
    · obtain ⟨v, ⟨hv, hvi⟩, hunique⟩ := ih hspans ⟨u, hu, hle, hlt⟩
      refine ⟨v, ⟨List.mem_cons_of_mem _ hv, hvi⟩, fun w ⟨hw, hwle, hwlt⟩ => ?_⟩
      rcases List.mem_cons.1 hw with rfl | hw
      · have := hs u hu
        omega
      · exact hunique w ⟨hw, hwle, hwlt⟩

lemma congr {content' starts' : Nat → Prop} (h : IsSegmentation content starts spans)
    (hcontent : ∀ i, content i ↔ content' i) (hstarts : ∀ i, starts i ↔ starts' i) :
    IsSegmentation content' starts' spans := by
  obtain rfl : content = content' := funext fun i => propext (hcontent i)
  obtain rfl : starts = starts' := funext fun i => propext (hstarts i)
  exact h

lemma nil (hcontent : ∀ i, ¬ content i) (hstarts : ∀ i, ¬ starts i) :
    IsSegmentation content starts [] where
  nonempty := by simp
  ordered := List.Pairwise.nil
  covered i hi := absurd hi (hcontent i)
  starts_iff i := by simpa using hstarts i
  stop_eq := by simp

/-- Content has a start at or in front of it. -/
lemma exists_start_le (h : IsSegmentation content starts spans) {i : Nat} (hi : content i) :
    ∃ j, starts j ∧ j ≤ i := by
  obtain ⟨s, ⟨hs, hle, -⟩, -⟩ := h.covered i hi
  exact ⟨s.start, (h.starts_iff _).2 ⟨s, hs, rfl⟩, hle⟩

/-- A start in front of all others is a span of its own. -/
lemma cons (h : IsSegmentation content starts spans) {i : Nat} (hi : ∀ j, content j → i < j)
    (hstarts : ∀ j, starts j → i < j) :
    IsSegmentation (fun j => j = i ∨ content j) (fun j => j = i ∨ starts j)
      (⟨i, i + 1⟩ :: spans) := by
  have hlt : ∀ s ∈ spans, i < s.start := fun s hs => hstarts _ ((h.starts_iff _).2 ⟨s, hs, rfl⟩)
  have hordered : (⟨i, i + 1⟩ :: spans : List Span).Pairwise fun s u => s.stop ≤ u.start :=
    List.pairwise_cons.2 ⟨hlt, h.ordered⟩
  refine ⟨?_, hordered, fun j hj => existsUnique_of_ordered hordered ?_, fun j => ?_, ?_⟩
  · exact List.forall_mem_cons.2 ⟨Nat.lt_succ_self i, h.nonempty⟩
  · rcases hj with rfl | hj
    · exact ⟨_, List.mem_cons_self, Nat.le_refl j, Nat.lt_succ_self j⟩
    · obtain ⟨s, ⟨hs, hsj⟩, -⟩ := h.covered j hj
      exact ⟨s, List.mem_cons_of_mem _ hs, hsj⟩
  · rw [h.starts_iff, List.exists_mem_cons_iff]
    exact or_congr_left eq_comm
  · refine List.forall_mem_cons.2 ⟨⟨i, rfl, ⟨.inl rfl, Nat.le_refl i, ?_⟩, ?_⟩, fun s hs => ?_⟩
    · intro j hij hji
      exact absurd hij (Nat.not_lt.2 hji)
    · rintro j ⟨rfl | hj, -, hnone⟩
      · exact Nat.le_refl j
      · obtain ⟨k, hk, hkj⟩ := h.exists_start_le hj
        exact absurd (.inr hk) (hnone k (hstarts k hk) hkj)
    · obtain ⟨last, hlast, ⟨hc, hle, hnone⟩, hub⟩ := h.stop_eq s hs
      have hsi := hlt s hs
      refine ⟨last, hlast, ⟨.inr hc, hle, ?_⟩, ?_⟩
      · rintro j hsj hjl (rfl | hj)
        · omega
        · exact hnone j hsj hjl hj
      · rintro j ⟨rfl | hj, hsj, hnone'⟩
        · omega
        · exact hub ⟨hj, hsj, fun k hsk hkj hk => hnone' k hsk hkj (.inr hk)⟩

/-- Content in front of all other makes the first span longer, and what started there does so no
longer. -/
lemma extend {first : Span} (h : IsSegmentation content starts (first :: spans)) {i : Nat}
    (hi : ∀ j, content j → i < j) (hstarts : ∀ j, starts j → i < j) :
    IsSegmentation (fun j => j = i ∨ content j) (fun j => j = i ∨ starts j ∧ j ≠ first.start)
      (⟨i, first.stop⟩ :: spans) := by
  obtain ⟨hfirst, hrest⟩ := List.pairwise_cons.1 h.ordered
  have hne : first.start < first.stop := h.nonempty first List.mem_cons_self
  have hlt : i < first.start := hstarts _ ((h.starts_iff _).2 ⟨first, List.mem_cons_self, rfl⟩)
  have hordered : (⟨i, first.stop⟩ :: spans : List Span).Pairwise fun s u => s.stop ≤ u.start :=
    List.pairwise_cons.2 ⟨hfirst, hrest⟩
  have hstarts_iff : ∀ j, starts j ∧ j ≠ first.start ↔ ∃ s ∈ spans, s.start = j := by
    intro j
    rw [h.starts_iff, List.exists_mem_cons_iff]
    constructor
    · rintro ⟨rfl | hs, hj⟩
      · exact absurd rfl hj
      · exact hs
    · rintro ⟨s, hs, rfl⟩
      have := hfirst s hs
      exact ⟨.inr ⟨s, hs, rfl⟩, by omega⟩
  refine ⟨?_, hordered, fun j hj => existsUnique_of_ordered hordered ?_, fun j => ?_, ?_⟩
  · exact List.forall_mem_cons.2
      ⟨Nat.lt_trans hlt hne, fun s hs => h.nonempty s (List.mem_cons_of_mem _ hs)⟩
  · rcases hj with rfl | hj
    · exact ⟨_, List.mem_cons_self, Nat.le_refl j, Nat.lt_trans hlt hne⟩
    · obtain ⟨s, ⟨hs, hle, hsj⟩, -⟩ := h.covered j hj
      rcases List.mem_cons.1 hs with rfl | hs
      · exact ⟨_, List.mem_cons_self, Nat.le_of_lt (hi j hj), hsj⟩
      · exact ⟨s, List.mem_cons_of_mem _ hs, hle, hsj⟩
  · rw [hstarts_iff, List.exists_mem_cons_iff]
    exact or_congr_left eq_comm
  · refine List.forall_mem_cons.2 ⟨?_, fun s hs => ?_⟩
    · obtain ⟨last, hlast, ⟨hc, hle, hnone⟩, hub⟩ := h.stop_eq first List.mem_cons_self
      refine ⟨last, hlast, ⟨.inr hc, Nat.le_of_lt (hi _ hc), ?_⟩, ?_⟩
      · rintro j hij hjl (rfl | ⟨hj, hjf⟩)
        · exact absurd hij (Nat.lt_irrefl j)
        · obtain ⟨s, hs, hsj⟩ := (h.starts_iff j).1 hj
          have hfj : first.start < j := by
            rcases List.mem_cons.1 hs with rfl | hs
            · exact absurd hsj.symm hjf
            · have := hfirst s hs
              omega
          exact hnone j hfj hjl hj
      · rintro j ⟨rfl | hj, hij, hnone'⟩
        · exact Nat.le_of_lt (hi _ hc)
        · obtain ⟨k, hk, hkj⟩ := h.exists_start_le hj
          refine hub ⟨hj, ?_, fun k hfk hkj hk => ?_⟩
          · by_contra hjf
            exact hnone' k (hstarts k hk) hkj (.inr ⟨hk, by omega⟩)
          · exact hnone' k (hstarts k hk) hkj (.inr ⟨hk, by omega⟩)
    · obtain ⟨last, hlast, ⟨hc, hle, hnone⟩, hub⟩ := h.stop_eq s (List.mem_cons_of_mem _ hs)
      have hfs := hfirst s hs
      refine ⟨last, hlast, ⟨.inr hc, hle, ?_⟩, ?_⟩
      · rintro j hsj hjl (rfl | ⟨hj, -⟩)
        · omega
        · exact hnone j hsj hjl hj
      · rintro j ⟨rfl | hj, hsj, hnone'⟩
        · omega
        · exact hub ⟨hj, hsj, fun k hsk hkj hk => hnone' k hsk hkj (.inr ⟨hk, by omega⟩)⟩

end Span.IsSegmentation

/-! ### Grouping content -/

namespace Span

/-- Whether a span of the marked content starts at this index. -/
def Marks (xs : List (Nat × Bool)) (i : Nat) : Prop :=
  (∃ f, xs.head? = some (i, f)) ∨ (i, true) ∈ xs

lemma exists_group_cons (i : Nat) (f : Bool) (xs : List (Nat × Bool)) :
    ∃ stop spans, group ((i, f) :: xs) = ⟨i, stop⟩ :: spans := by
  rw [group.eq_def]
  dsimp only
  split
  · exact ⟨_, _, rfl⟩
  · exact ⟨_, _, rfl⟩

/-- Marked content in ascending order is grouped into its segmentation. -/
theorem isSegmentation_group {xs : List (Nat × Bool)} (hxs : xs.Pairwise fun a b => a.1 < b.1) :
    IsSegmentation (fun i => ∃ f, (i, f) ∈ xs) (Marks xs) (group xs) := by
  induction xs with
  | nil => exact .nil (by simp) (by simp [Marks])
  | cons x xs ih =>
    obtain ⟨i, f⟩ := x
    obtain ⟨hlt, hxs⟩ := List.pairwise_cons.1 hxs
    have hcontent : ∀ j, (∃ f, (j, f) ∈ xs) → i < j := fun j ⟨f, hj⟩ => hlt _ hj
    have hstarts : ∀ j, Marks xs j → i < j := by
      rintro j (⟨f, hj⟩ | hj)
      · exact hlt _ (List.mem_of_mem_head? hj)
      · exact hlt _ hj
    have hmem : ∀ j, (j = i ∨ ∃ f, (j, f) ∈ xs) ↔ ∃ g, (j, g) ∈ (i, f) :: xs := by
      intro j
      simp only [List.mem_cons, Prod.mk.injEq, exists_or]
      exact or_congr_left ⟨fun h => ⟨f, h, rfl⟩, fun ⟨g, h, _⟩ => h⟩
    match xs with
    | [] => 
      refine ((ih hxs).cons hcontent hstarts).congr hmem fun j => ?_
      simp only [Marks, List.head?_cons, Option.some.injEq, Prod.mk.injEq, List.mem_cons]
      grind
    | (j, true) :: xs =>
      refine ((ih hxs).cons hcontent hstarts).congr hmem fun k => ?_
      simp only [Marks, List.head?_cons, Option.some.injEq, Prod.mk.injEq, List.mem_cons]
      grind
    | (j, false) :: xs =>
      -- The span that starts at `j` now starts at `i`, and nothing else starts at `j`.
      have hj : (j, true) ∉ xs := fun h => Nat.lt_irrefl j ((List.pairwise_cons.1 hxs).1 _ h)
      obtain ⟨stop, spans, hgroup⟩ := exists_group_cons j false xs
      have ih' := ih hxs
      rw [hgroup] at ih'
      have hstep : group ((i, f) :: (j, false) :: xs) = ⟨i, stop⟩ :: spans := by
        rw [group.eq_def]
        simp only [hgroup]
      rw [hstep]
      refine (ih'.extend hcontent hstarts).congr hmem fun k => ?_
      simp only [Marks, List.head?_cons, Option.some.injEq, Prod.mk.injEq, List.mem_cons]
      grind

end Span

/-! ### Content and starts -/

namespace Token

/-- The index of the first token after the opening delimiter. -/
def contentStart (ts : List Token) : Nat := if ts.head?.any (·.kind = .opening) then 1 else 0

/-- The separators at the end of tokens. -/
def trailingSeparators (ts : List Token) : List Token :=
  (ts.reverse.takeWhile isSeparator).reverse

/-- Whether the token with this index belongs to a node: it stands behind the opening delimiter and
in front of the first closing one, and is no separator. -/
def IsContentAt (ts : List Token) (i : Nat) : Prop :=
  contentStart ts ≤ i ∧ (∃ t, ts[i]? = some t ∧ t.isSeparator = false) ∧
    ∀ j ≤ i, ∀ u, ts[j]? = some u → u.kind ≠ .closing

/-- Whether a node starts at the token with this index: it is the first content, or there are two
line breaks directly in front of it, or one and it is a marker. -/
def StartsAt (ts : List Token) (i : Nat) : Prop :=
  IsContentAt ts i ∧ ((∀ j < i, ¬ IsContentAt ts j) ∨
    2 ≤ breaks (trailingSeparators (ts.take i)) ∨
    1 ≤ breaks (trailingSeparators (ts.take i)) ∧ ∃ t, ts[i]? = some t ∧ t.kind = .marker)

lemma trailingSeparators_concat (ts : List Token) (t : Token) :
    trailingSeparators (ts ++ [t])
      = if t.isSeparator then trailingSeparators ts ++ [t] else [] := by
  rw [trailingSeparators, List.reverse_append, List.reverse_singleton, List.singleton_append,
    List.takeWhile_cons]
  split_ifs
  · rw [List.reverse_cons, trailingSeparators]
  · rfl

lemma trailingSeparators_take_contentStart (ts : List Token) :
    trailingSeparators (ts.take (contentStart ts)) = [] := by
  rw [contentStart]
  split_ifs with h
  · cases ts with
    | nil => rfl
    | cons t ts =>
      have ht : t.kind = .opening := by simpa using h
      simp [trailingSeparators, isSeparator, ht]
  · rfl

lemma breaks_concat (ts : List Token) (t : Token) :
    breaks (ts ++ [t]) = breaks ts + if t.kind = .lineBreak then 1 else 0 := by
  simp [breaks, List.countP_append, List.countP_cons]

/-! ### The list of content -/

section

variable {b : Nat} {k : Nat}

lemma pairwise_contentIndexes (ts : List Token) :
    ((contentIndexes b (ts.zipIdx k)).Pairwise fun x y => x.1 < y.1) ∧
      ∀ x ∈ contentIndexes b (ts.zipIdx k), k ≤ x.1 := by
  induction ts generalizing b k with
  | nil => simp [contentIndexes]
  | cons t ts ih =>
    have hlater : ∀ b, ∀ x ∈ contentIndexes b (ts.zipIdx (k + 1)), k ≤ x.1 := fun b x hx =>
      Nat.le_of_succ_le (ih.2 x hx)
    rw [List.zipIdx_cons, contentIndexes]
    split
    · simp
    · exact ⟨ih.1, hlater _⟩
    · exact ⟨ih.1, hlater _⟩
    · exact ⟨List.pairwise_cons.2 ⟨ih.2, ih.1⟩,
        List.forall_mem_cons.2 ⟨Nat.le_refl k, hlater _⟩⟩

end

/-- A separator adds to the line breaks in front of the content behind it. -/
lemma contentIndexes_behind_separator (pre ts : List Token) {t : Token} (ht : t.isSeparator) :
    contentIndexes (breaks (trailingSeparators pre)) ((t :: ts).zipIdx pre.length) =
      contentIndexes (breaks (trailingSeparators (pre ++ [t]))) (ts.zipIdx (pre.length + 1)) := by
  rw [trailingSeparators_concat, if_pos ht, breaks_concat, List.zipIdx_cons]
  rcases isSeparator_iff.1 ht with hkind | hkind <;> simp [contentIndexes, hkind]

/-- Content is listed, and none of the separators in front of it count for the content behind it. -/
lemma contentIndexes_behind_content (pre ts : List Token) {t : Token} (ht : t.isContent) :
    contentIndexes (breaks (trailingSeparators pre)) ((t :: ts).zipIdx pre.length) =
      (pre.length, startsNode (trailingSeparators pre) t) ::
        contentIndexes (breaks (trailingSeparators (pre ++ [t])))
          (ts.zipIdx (pre.length + 1)) := by
  rw [trailingSeparators_concat, isSeparator_eq_false_of_isContent ht]
  exact contentIndexes_content ht ts

/-- The list of content of tokens that stand behind others. No other content is listed, and a mark
says that line breaks make a node start. -/
lemma mem_contentIndexes (pre ts : List Token) (i : Nat) (f : Bool) :
    (i, f) ∈ contentIndexes (breaks (trailingSeparators pre)) (ts.zipIdx pre.length) ↔
      pre.length ≤ i ∧ ∃ t, (pre ++ ts)[i]? = some t ∧ t.isSeparator = false ∧
        (∀ j u, pre.length ≤ j → j ≤ i → (pre ++ ts)[j]? = some u → u.kind ≠ .closing) ∧
        f = startsNode (trailingSeparators ((pre ++ ts).take i)) t := by
  induction ts generalizing pre with
  | nil =>
    constructor
    · intro h
      simp [contentIndexes] at h
    · rintro ⟨hle, t, ht, -⟩
      rw [List.append_nil, List.getElem?_eq_none hle] at ht
      cases ht
  | cons t ts ih =>
    have ht : (pre ++ t :: ts)[pre.length]? = some t := by simp
    have htake : (pre ++ t :: ts).take pre.length = pre := by simp
    have hmove : pre ++ [t] ++ ts = pre ++ t :: ts := by simp
    have ih' := ih (pre ++ [t])
    rw [hmove, List.length_append, List.length_singleton] at ih'
    by_cases hclosing : t.kind = .closing
    · simp only [List.zipIdx_cons, contentIndexes, hclosing, List.not_mem_nil, false_iff]
      rintro ⟨hle, -, -, -, hnone, -⟩
      exact hnone _ t (Nat.le_refl _) hle ht hclosing
    -- The token itself does not close, so nothing does if nothing behind it does.
    have hnone : (∀ j u, pre.length + 1 ≤ j → j ≤ i → (pre ++ t :: ts)[j]? = some u →
          u.kind ≠ .closing) ↔
        ∀ j u, pre.length ≤ j → j ≤ i → (pre ++ t :: ts)[j]? = some u → u.kind ≠ .closing := by
      refine ⟨fun h j u hj hji hu => ?_, fun h j u hj => h j u (Nat.le_of_succ_le hj)⟩
      rcases Nat.eq_or_lt_of_le hj with rfl | hj
      · obtain rfl : t = u := Option.some.inj (ht.symm.trans hu)
        exact hclosing
      · exact h j u hj hji hu
    rw [hnone] at ih'
    by_cases hsep : t.isSeparator
    · rw [contentIndexes_behind_separator pre ts hsep, ih']
      refine and_congr_left ?_
      rintro ⟨u, hu, husep, -⟩
      refine ⟨Nat.le_of_succ_le, fun hle => ?_⟩
      rcases Nat.eq_or_lt_of_le hle with rfl | hlt
      · obtain rfl : t = u := Option.some.inj (ht.symm.trans hu)
        rw [hsep] at husep
        cases husep
      · exact hlt
    · have hcontent : t.isContent := by simp [isContent, hsep, hclosing]
      rw [contentIndexes_behind_content pre ts hcontent, List.mem_cons, ih', Prod.mk.injEq]
      constructor
      · rintro (⟨rfl, rfl⟩ | ⟨hlt, h⟩)
        · refine ⟨Nat.le_refl _, t, ht, by simpa using hsep, fun j u hj hji hu => ?_, by rw [htake]⟩
          obtain rfl : j = pre.length := Nat.le_antisymm hji hj
          obtain rfl : t = u := Option.some.inj (ht.symm.trans hu)
          exact hclosing
        · exact ⟨Nat.le_of_succ_le hlt, h⟩
      · rintro ⟨hle, u, hu, husep, hnone, hf⟩
        rcases Nat.eq_or_lt_of_le hle with rfl | hlt
        · obtain rfl : t = u := Option.some.inj (ht.symm.trans hu)
          rw [htake] at hf
          exact .inl ⟨rfl, hf⟩
        · exact .inr ⟨hlt, u, hu, husep, hnone, hf⟩

lemma afterOpening_indexed (ts : List Token) :
    afterOpening (indexed ts) = (ts.drop (contentStart ts)).zipIdx (contentStart ts) := by
  cases ts with
  | nil => rfl
  | cons t ts =>
    rw [indexed, List.zipIdx_cons, afterOpening, contentStart]
    by_cases h : t.kind = .opening
    · simp [h]
    · simp [h, List.zipIdx_cons]

lemma ne_closing_of_lt_contentStart {ts : List Token} {j : Nat} {u : Token}
    (hj : j < contentStart ts) (hu : ts[j]? = some u) : u.kind ≠ .closing := by
  rw [contentStart] at hj
  split_ifs at hj with h
  · obtain rfl : j = 0 := by omega
    rw [← List.head?_eq_getElem?] at hu
    simp only [hu, Option.any_some, decide_eq_true_eq] at h
    simp [h]
  · omega

/-- What is listed for a comment is its content, with the mark of the line breaks in front of it. -/
lemma mem_contentIndexes_afterOpening (ts : List Token) (i : Nat) (f : Bool) :
    (i, f) ∈ contentIndexes 0 (afterOpening (indexed ts)) ↔ IsContentAt ts i ∧
      ∃ t, ts[i]? = some t ∧ f = startsNode (trailingSeparators (ts.take i)) t := by
  have hle : contentStart ts ≤ ts.length := by
    rw [contentStart]
    cases ts with
    | nil => simp
    | cons t ts =>
      rw [List.length_cons]
      split_ifs
      · exact Nat.succ_le_succ (Nat.zero_le _)
      · exact Nat.zero_le _
  have h := mem_contentIndexes (ts.take (contentStart ts)) (ts.drop (contentStart ts)) i f
  rw [trailingSeparators_take_contentStart, List.length_take_of_le hle,
    List.take_append_drop] at h
  rw [afterOpening_indexed]
  refine h.trans ⟨?_, ?_⟩
  · rintro ⟨hi, t, ht, hsep, hnone, hf⟩
    refine ⟨⟨hi, ⟨t, ht, hsep⟩, fun j hji u hu => ?_⟩, t, ht, hf⟩
    rcases Nat.lt_or_ge j (contentStart ts) with hj | hj
    · exact ne_closing_of_lt_contentStart hj hu
    · exact hnone j u hj hji hu
  · rintro ⟨⟨hi, ⟨t, ht, hsep⟩, hnone⟩, u, hu, hf⟩
    obtain rfl : t = u := Option.some.inj (ht.symm.trans hu)
    exact ⟨hi, t, ht, hsep, fun j u _ hji hu => hnone j hji u hu, hf⟩

/-- The spans of a comment are its segmentation. -/
theorem isSegmentation_spans (ts : List Token) :
    Span.IsSegmentation (IsContentAt ts) (StartsAt ts) (spans ts) := by
  set xs := contentIndexes 0 (afterOpening (indexed ts)) with hxs
  have hmem := mem_contentIndexes_afterOpening ts
  rw [← hxs] at hmem
  have hpairwise : xs.Pairwise fun a b => a.1 < b.1 := by
    rw [hxs, afterOpening_indexed]
    exact (pairwise_contentIndexes _).1
  have hcontent : ∀ i, (∃ f, (i, f) ∈ xs) ↔ IsContentAt ts i := by
    intro i
    constructor
    · rintro ⟨f, hf⟩
      exact ((hmem i f).1 hf).1
    · intro hi
      obtain ⟨t, ht, -⟩ := hi.2.1
      exact ⟨_, (hmem i _).2 ⟨hi, t, ht, rfl⟩⟩
  -- The first entry of the list is the first content.
  have hfirst : ∀ i, (∃ f, xs.head? = some (i, f)) ↔
      IsContentAt ts i ∧ ∀ j < i, ¬ IsContentAt ts j := by
    intro i
    constructor
    · rintro ⟨f, hf⟩
      obtain ⟨ys, hys⟩ := List.head?_eq_some_iff.1 hf
      refine ⟨(hcontent i).1 ⟨f, List.mem_of_mem_head? hf⟩, fun j hji hj => ?_⟩
      obtain ⟨g, hg⟩ := (hcontent j).2 hj
      rw [hys] at hg hpairwise
      rcases List.mem_cons.1 hg with heq | hg
      · cases heq
        exact Nat.lt_irrefl _ hji
      · exact Nat.lt_asymm hji ((List.pairwise_cons.1 hpairwise).1 _ hg)
    · rintro ⟨hi, hleast⟩
      obtain ⟨f, hf⟩ := (hcontent i).2 hi
      cases hcases : xs with
      | nil => simp [hcases] at hf
      | cons x ys =>
        rw [hcases] at hf hpairwise
        rcases List.mem_cons.1 hf with rfl | hf
        · exact ⟨f, rfl⟩
        · have hx : IsContentAt ts x.1 := (hcontent _).1 ⟨x.2, by simp [hcases]⟩
          exact absurd hx (hleast _ ((List.pairwise_cons.1 hpairwise).1 _ hf))
  refine (Span.isSegmentation_group hpairwise).congr hcontent fun i => ?_
  rw [Span.Marks, hfirst, hmem, StartsAt, ← and_or_left]
  refine and_congr_right fun hi => or_congr_right ?_
  obtain ⟨t, ht, -⟩ := hi.2.1
  simp only [ht, Option.some.injEq, exists_eq_left', startsNode, @eq_comm _ true,
    Bool.or_eq_true, Bool.and_eq_true, decide_eq_true_eq]

/-- A marker is never the last token, nor alone in its node. -/
lemma exists_identifier_of_marker {raw : Text} {i : Nat} {t : Token}
    (ht : (scan raw)[i]? = some t) (hkind : t.kind = .marker) :
    ∃ u, (scan raw)[i + 1]? = some u ∧ u.kind = .identifier := by
  have hfrom : ∀ {start i : Nat} {s : Text}, (scanFrom false start s)[i]? = some t →
      ∃ u, (scanFrom false start s)[i + 1]? = some u ∧ u.kind = .identifier := by
    intro start i s ht
    have hsplit := (List.take_append_drop (i + 1) (scanFrom false start s)).symm
    have hends : endsMarker false ((scanFrom false start s).take (i + 1)) := by
      rw [List.take_add_one, ht]
      simp [hkind]
    obtain ⟨u, hu, hident⟩ := head_of_endsMarker hsplit (by simp) hends
    rw [List.head?_drop] at hu
    exact ⟨u, hu, hident⟩
  rcases scan_cases raw with ⟨stars, -, rest, -, h⟩ | h
  · rw [h] at ht ⊢
    cases i with
    | zero =>
      rw [List.getElem?_cons_zero, Option.some.injEq] at ht
      rw [← ht] at hkind
      cases hkind
    | succ i => exact hfrom ht
  · rw [h] at ht ⊢
    exact hfrom ht

/-- The span of a marker has the tag name too, in front of which nothing starts. -/
lemma succ_start_lt_stop {raw : Text} {s : Span} (hs : s ∈ spans (scan raw)) {t : Token}
    (ht : (scan raw)[s.start]? = some t) (hkind : t.kind = .marker) : s.start + 1 < s.stop := by
  have h := isSegmentation_spans (scan raw)
  obtain ⟨u, hu, hident⟩ := exists_identifier_of_marker ht hkind
  obtain ⟨hle, -, hnone⟩ : IsContentAt (scan raw) s.start := ((h.starts_iff _).2 ⟨s, hs, rfl⟩).1
  have hcontent : IsContentAt (scan raw) (s.start + 1) := by
    refine ⟨Nat.le_succ_of_le hle, ⟨u, hu, by simp [isSeparator, hident]⟩, fun j hj v hv => ?_⟩
    rcases Nat.of_le_succ hj with hj | rfl
    · exact hnone j hj v hv
    · obtain rfl : u = v := Option.some.inj (hu.symm.trans hv)
      simp [hident]
  have hgap : trailingSeparators ((scan raw).take (s.start + 1)) = [] := by
    rw [List.take_add_one, ht, Option.toList_some, trailingSeparators_concat,
      if_neg (by simp [isSeparator, hkind])]
  have hnot : ¬ StartsAt (scan raw) (s.start + 1) := by
    rintro ⟨-, hfirst | hbreaks | ⟨hbreak, -⟩⟩
    · exact hfirst s.start (Nat.lt_succ_self _) ((h.starts_iff _).2 ⟨s, hs, rfl⟩).1
    · simp [hgap, breaks] at hbreaks
    · simp [hgap, breaks] at hbreak
  obtain ⟨last, hlast, -, hub⟩ := h.stop_eq s hs
  have hmem : s.start + 1 ≤ last := by
    refine hub ⟨hcontent, Nat.le_succ _, fun j hsj hj => ?_⟩
    obtain rfl : j = s.start + 1 := by omega
    exact hnot
  omega

end Token

/-! ### Trees -/

namespace Tree

/-- A node is a tag or a container if its tokens start with a marker and a name. -/
lemma tagName?_isSome_iff {t : Tree} {n : Node} {rules : Rules} {body : List Token}
    (h : t.contentOf n = Node.Content.ofTokens rules body)
    (hbody : ∀ u ∈ body.head?, u.kind = .marker → 1 < body.length) :
    n.tagName?.isSome ↔ ∃ u ∈ body.head?, u.kind = .marker := by
  have hprose : ∀ text, t.contentOf n = .prose text → n.tagName?.isSome = false := by
    intro text hn
    cases n <;> simp [contentOf, Node.tagName?] at hn ⊢
  have htag : (∀ text, t.contentOf n ≠ .prose text) → (∀ text, t.contentOf n ≠ .fragment text) →
      n.tagName?.isSome := by
    intro hn hn'
    cases n <;> simp [contentOf, Node.tagName?] at hn hn' ⊢
  rcases body with - | ⟨u, - | ⟨v, payload⟩⟩
  · simp [hprose _ h]
  · have hu : u.kind ≠ .marker := fun hk => Nat.lt_irrefl 1 (hbody u rfl hk)
    simp [hprose _ h, hu]
  · by_cases hu : u.kind = .marker
    · have hne : ∀ text, t.contentOf n ≠ .prose text ∧ t.contentOf n ≠ .fragment text := by
        intro text
        rw [h, Node.Content.ofTokens, if_pos hu, Node.Content.ofPayload]
        split
        · exact ⟨by simp, by simp⟩
        · split <;> exact ⟨by simp [Reading.content], by simp [Reading.content]⟩
      simp [htag (fun text => (hne text).1) fun text => (hne text).2, hu]
    · rw [Node.Content.ofTokens, if_neg hu] at h
      simp [hprose _ h, hu]

lemma lastPosition?_eq_some {ts : List Token} {spans : List Span} {s : Span} {u : Token}
    (hs : spans.getLast? = some s) (hu : ts[s.stop - 1]? = some u) :
    lastPosition? ts spans = some u.stop := by
  rw [lastPosition?, hs]
  simp [hu]

/-- A top node that was read has one of the spans and says what its tokens say. -/
lemma Unedited.exists_span {t : Tree} {spans : List Span} {content : Span → Node.Content}
    (h : Unedited t spans (spans.map content)) {id : NodeId} (hid : id ∈ t.top) :
    ∃ s ∈ spans, t.attributes.span? id = some s ∧ t.content? id = some (content s) := by
  obtain ⟨k, hk⟩ := List.getElem?_of_mem hid
  have hspan := congrArg (·[k]?) h.spans
  have hcontent : (t.top.map t.content?)[k]? = ((spans.map content).map some)[k]? :=
    congrArg (·[k]?) h.contents
  simp only [List.getElem?_map, hk, Option.map_some] at hspan hcontent
  cases hs : spans[k]? with
  | none => simp [hs] at hspan
  | some s =>
    rw [hs] at hspan hcontent
    exact ⟨s, List.mem_of_getElem? hs, Option.some.inj hspan, Option.some.inj hcontent⟩

/-- The spans of the nodes that are read from a comment are its segmentation, a node is a tag or a
container exactly if its first token is a marker, and the last position is where the last token of
the last span ends. -/
theorem ofTokens_segmentation (rules : Rules) (raw : Text) :
    let ts := Token.scan raw
    let t := ofTokens rules ts
    ∃ spans : List Span, t.top.map t.attributes.span? = spans.map some ∧
      Span.IsSegmentation (IsContentAt ts) (StartsAt ts) spans ∧
      (∀ id ∈ t.top, ∃ n s, t.node? id = some n ∧ t.attributes.span? id = some s ∧
        (n.tagName?.isSome ↔ ∃ u, ts[s.start]? = some u ∧ u.kind = .marker)) ∧
      (∀ s, spans.getLast? = some s →
        ∃ u, ts[s.stop - 1]? = some u ∧ t.attributes.lastTokenPosition? = some u.stop) ∧
      (t.attributes.lastTokenPosition? = none ↔ ∀ i, ¬ IsContentAt ts i) := by
  intro ts t
  have hspans := isSegmentation_spans ts
  have hread := unedited_ofTokens rules ts
  have hlast : ∀ s, (Token.spans ts).getLast? = some s →
      ∃ u, ts[s.stop - 1]? = some u ∧ t.attributes.lastTokenPosition? = some u.stop := by
    intro s hs
    obtain ⟨last, hstop, ⟨⟨-, ⟨u, hu, -⟩, -⟩, -⟩, -⟩ := hspans.stop_eq s (List.mem_of_getLast? hs)
    have hu' : ts[s.stop - 1]? = some u := by rwa [hstop, Nat.add_sub_cancel]
    exact ⟨u, hu', (lastTokenPosition?_ofTokens rules ts).trans (lastPosition?_eq_some hs hu')⟩
  refine ⟨_, hread.spans, hspans, fun id hid => ?_, hlast, fun hnone i hi => ?_, fun hnone => ?_⟩
  · obtain ⟨s, hmem, hspan, hcontent⟩ := hread.exists_span hid
    obtain ⟨n, hn, hcontent⟩ := Option.map_eq_some_iff.1 hcontent
    have hlt := hspans.nonempty s hmem
    have hhead : (s.tokens ts).head? = ts[s.start]? := by
      rw [Span.tokens, List.head?_take, if_neg (by omega), List.head?_drop]
    refine ⟨n, s, hn, hspan, (tagName?_isSome_iff hcontent fun u hu hkind => ?_).trans ?_⟩
    · rw [hhead] at hu
      have hlong := succ_start_lt_stop hmem hu hkind
      obtain ⟨v, hv, -⟩ := exists_identifier_of_marker hu hkind
      have hlen : s.start + 1 < ts.length := (List.getElem?_eq_some_iff.1 hv).1
      rw [Span.tokens, List.length_take, List.length_drop]
      omega
    · rw [hhead]
      rfl
  · obtain ⟨s, ⟨hs, -⟩, -⟩ := hspans.covered i hi
    obtain ⟨last, hsome⟩ :=
      Option.isSome_iff_exists.1 (List.getLast?_isSome.2 (List.ne_nil_of_mem hs))
    obtain ⟨u, -, hu⟩ := hlast last hsome
    rw [hu] at hnone
    cases hnone
  · have hnil : Token.spans ts = [] := by
      refine List.eq_nil_iff_forall_not_mem.2 fun s hs => ?_
      exact hnone _ ((hspans.starts_iff _).2 ⟨s, hs, rfl⟩).1
    rw [lastTokenPosition?_ofTokens, hnil]
    rfl

end Tree

end DocComment
