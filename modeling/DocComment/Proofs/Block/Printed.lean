import DocComment.Block.Print
import DocComment.Proofs.Block.Derives
import DocComment.Proofs.Tree.Segments

/-!
# The parts of a printed block

What the printer takes from the text that a block was read from is said in terms of its segments:
the delimiter and the separators in front of the first node (`headerText_eq`), the separators
between two nodes (`separatorText_of_read`), the tokens of a node (`nodeText_of_read`), and the
trail (`trailerText_eq`).
-/

namespace DocComment

open Text Token

/-- The start of new lines in a comment with these tokens. -/
def Block.lineStart (p : Printer) (indent : Text) (ts : List Token) : Text :=
  (starredStart? ts <|> bareStart? ts).getD (ownLineStart p indent)

namespace Segments

variable (s : Segments)

/-- Whether the comment has more than one line. -/
def hasBreak : Bool := s.tokens.any (·.kind = .lineBreak)

lemma opening_length :
    s.opening.length = if s.tokens.head?.any (·.kind = .opening) then 1 else 0 := by
  rcases s.opening_cases with ⟨t, ht, hkind⟩ | ⟨h, hhead⟩
  · simp [tokens, ht, hkind]
  · rw [tokens, h, List.nil_append]
    cases hts : (s.nodes.flatMap Segment.tokens ++ s.trail).head? with
    | none => simp
    | some t => simp [hhead t hts]

variable {s}

lemma takeWhile_separators {gap body rest : List Token} (hgap : ∀ t ∈ gap, t.isSeparator)
    (hbody : Solid body) : (gap ++ body ++ rest).takeWhile Token.isSeparator = gap := by
  obtain ⟨t, us, rfl, ht⟩ := hbody.exists_cons
  rw [List.append_assoc, List.takeWhile_append_of_pos hgap, List.cons_append,
    List.takeWhile_cons_of_neg (by simp [isSeparator_eq_false_of_isContent ht]), List.append_nil]

/-- The separators at the end of tokens that end with a gap after content. -/
lemma separatorsAtEnd_append {body gap : List Token} (ts : List Token)
    (hgap : ∀ t ∈ gap, t.isSeparator) (hbody : Solid body) :
    separatorsAtEnd (ts ++ body ++ gap) = gap.length := by
  obtain ⟨us, t, rfl, ht⟩ := hbody.exists_append
  have hrev : ∀ t ∈ gap.reverse, t.isSeparator := fun t ht => hgap t (List.mem_reverse.1 ht)
  rw [separatorsAtEnd, List.reverse_append, List.takeWhile_append_of_pos hrev, List.reverse_append,
    List.reverse_append, List.reverse_singleton, List.append_assoc, List.singleton_append,
    List.takeWhile_cons_of_neg (by simp [isSeparator_eq_false_of_isContent ht]), List.append_nil,
    List.length_reverse]

lemma before_succ {k : Nat} {n : Segment} (h : s.nodes[k]? = some n) :
    s.before (k + 1) = s.before k ++ n.gap ++ n.body := by
  simp [before, List.take_add_one, h, Segment.tokens]

lemma opening_length_lt_before {k : Nat} (hk : 0 < k) (hlt : k ≤ s.nodes.length) :
    s.opening.length < (s.before k).length := by
  obtain ⟨j, rfl⟩ : ∃ j, k = j + 1 := ⟨k - 1, by omega⟩
  have h : s.nodes[j]? = some s.nodes[j] := List.getElem?_eq_getElem (by omega)
  have hbody := List.length_pos_iff.2 (s.nodes[j]).solid.ne_nil
  rw [before_succ h, before]
  simp only [List.length_append]
  omega

lemma starts_of_pos {k : Nat} {n : Segment} (hk : 0 < k) (hn : s.nodes[k]? = some n) :
    n.starts := by
  refine s.starts n ?_
  rw [List.mem_iff_getElem?]
  exact ⟨k - 1, by rw [List.getElem?_tail, Nat.sub_add_cancel hk, hn]⟩

lemma gap_ne_nil {k : Nat} {n : Segment} (hk : 0 < k) (hn : s.nodes[k]? = some n) :
    n.gap ≠ [] := by
  intro hnil
  obtain ⟨u, us, hbody, -⟩ := n.solid.exists_cons
  have hstarts := starts_of_pos hk hn
  simp [Segment.starts, hbody, startsNode, hnil, breaks] at hstarts

/-- A gap between two nodes is found from its end. -/
lemma gap_start {k : Nat} {n : Segment} (hk : 0 < k) (h : s.nodes[k]? = some n) :
    (s.span k n).start - separatorsAtEnd (s.tokens.take (s.span k n).start)
      = (s.before k).length := by
  obtain ⟨j, rfl⟩ : ∃ j, k = j + 1 := ⟨k - 1, by omega⟩
  have hj : j < s.nodes.length := by
    have := (List.getElem?_eq_some_iff.1 h).1
    omega
  have hm : s.nodes[j]? = some s.nodes[j] := List.getElem?_eq_getElem hj
  have htake : s.tokens.take (s.span (j + 1) n).start
      = s.before j ++ s.nodes[j].gap ++ s.nodes[j].body ++ n.gap := by
    rw [tokens_eq h, List.append_assoc (_ ++ n.gap), span, List.take_left, before_succ hm]
  rw [htake, separatorsAtEnd_append _ n.isSeparator s.nodes[j].solid, span]
  simp

lemma tokens_gap {k : Nat} {n : Segment} (h : s.nodes[k]? = some n) :
    Span.tokens ⟨(s.before k).length, (s.span k n).start⟩ s.tokens = n.gap := by
  rw [Span.tokens, span, List.length_append, Nat.add_sub_cancel_left, tokens_eq h,
    List.append_assoc, List.append_assoc, List.drop_left, List.take_left]

/-- The nodes end where the trail begins. -/
lemma lastPosition?_tokens (h : Consecutive 0 s.tokens) (hne : s.nodes ≠ []) :
    Tree.lastPosition? s.tokens (Token.spans s.tokens) =
      some (byteSize (source (s.opening ++ s.nodes.flatMap Segment.tokens))) := by
  obtain ⟨ns, n, hns⟩ : ∃ ns n, s.nodes = ns ++ [n] :=
    ⟨_, _, (List.dropLast_append_getLast hne).symm⟩
  have hn : s.nodes[ns.length]? = some n := by simp [hns]
  obtain ⟨us, t, hbody, -⟩ := n.solid.exists_append
  have hspan : (Token.spans s.tokens).getLast? = some (s.span ns.length n) := by
    rw [s.spans_tokens, hns, List.mapIdx_concat, List.getLast?_concat]
  have htokens : s.tokens = (s.before ns.length ++ n.gap ++ us) ++ t :: s.trail := by
    rw [tokens_eq hn, hbody, after, hns]
    simp
  have hindex : (s.span ns.length n).stop - 1 = (s.before ns.length ++ n.gap ++ us).length := by
    simp [span, Segment.tokens, hbody, ← Nat.add_assoc]
  have hget : s.tokens[(s.span ns.length n).stop - 1]? = some t := by
    rw [hindex, htokens, List.getElem?_append_right (Nat.le_refl _), Nat.sub_self]
    rfl
  have hstop : t.stop = byteSize (source (s.opening ++ s.nodes.flatMap Segment.tokens)) := by
    rw [htokens] at h
    rw [h.stop_eq, Nat.zero_add, hns]
    simp [before, hns, Segment.tokens, hbody]
  simp [Tree.lastPosition?, hspan, hget, hstop]

end Segments

/-! ### The printed parts -/

namespace Block

variable {rules : Rules} {declaration? : Option Nat} {raw : Text} {s : Segments}
  {b : Block} {p : Printer} {indent : Text}

/-- The layout of a comment with these segments. -/
def layoutOf (p : Printer) (indent : Text) (b : Block) (s : Segments) : Layout where
  openEnd := s.opening.length
  firstContent := (s.opening ++ s.nodes.head?.elim [] Segment.gap).length
  lastPosition := byteSize (source (s.opening ++ s.nodes.flatMap Segment.tokens))
  rewrap := !s.hasBreak && 1 < b.tree.top.length
  lineStart := lineStart p indent s.tokens

section

variable (hs : s.tokens = scan raw) (h : Derives (read rules declaration? raw) b)

include hs h

lemma tokens_eq_of_derives : b.tokens = s.tokens := h.tokens.trans hs.symm

lemma raw_eq_of_derives : b.raw = source s.tokens := by
  rw [h.raw, hs, source_scan]
  rfl

lemma lastTokenPosition?_of_derives : b.tree.attributes.lastTokenPosition? =
    Tree.lastPosition? s.tokens (Token.spans s.tokens) := by
  rw [h.lastTokenPosition?, hs]
  exact Tree.lastTokenPosition?_ofTokens rules (scan raw)

/-- Every node that was read has a segment. -/
lemma exists_segment {id : NodeId} {k : Nat}
    (hid : (read rules declaration? raw).tree.top[k]? = some id) :
    ∃ n, s.nodes[k]? = some n ∧ b.tree.attributes.span? id = some (s.span k n) := by
  have htree : (read rules declaration? raw).tree = Tree.ofTokens rules s.tokens := by
    rw [hs]
    rfl
  have hspans := (Tree.unedited_ofTokens rules s.tokens).spans
  rw [s.spans_tokens, ← htree] at hspans
  have hk := congrArg (·[k]?) hspans
  simp only [List.getElem?_map, hid, Option.map_some, List.getElem?_mapIdx] at hk
  obtain ⟨n, hn, hspan⟩ : ∃ n, s.nodes[k]? = some n ∧
      (read rules declaration? raw).tree.attributes.span? id = some (s.span k n) := by
    cases hn : s.nodes[k]? with
    | none => simp [hn] at hk
    | some n => exact ⟨n, rfl, by simpa [hn] using hk⟩
  exact ⟨n, hn, (h.span? id).trans hspan⟩

lemma layout?_eq (hne : s.nodes ≠ []) : b.layout? p indent = some (layoutOf p indent b s) := by
  have hconsecutive : Consecutive 0 s.tokens := hs ▸ consecutive_scan raw
  obtain ⟨n, ns, hns⟩ := List.exists_cons_of_ne_nil hne
  have hopen := s.opening_length
  have htokens : s.tokens =
      s.opening ++ (n.gap ++ n.body ++ (ns.flatMap Segment.tokens ++ s.trail)) := by
    simp [Segments.tokens, hns, Segment.tokens]
  have hgap : ((s.tokens.drop s.opening.length).takeWhile Token.isSeparator) = n.gap := by
    rw [htokens, List.drop_left, Segments.takeWhile_separators n.isSeparator n.solid]
  have hlt : ¬ s.tokens.length ≤ s.opening.length + n.gap.length := by
    have := List.length_pos_iff.2 n.solid.ne_nil
    rw [htokens]
    simp only [List.length_append]
    omega
  simp only [layout?, lastTokenPosition?_of_derives hs h, tokens_eq_of_derives hs h,
    Segments.lastPosition?_tokens hconsecutive hne, ← hopen, hgap, hlt]
  simp [layoutOf, hns, Segments.hasBreak, lineStart]

lemma layout?_eq_none (hnil : s.nodes = []) : b.layout? p indent = none := by
  simp [layout?, lastTokenPosition?_of_derives hs h, s.spans_tokens, hnil, Tree.lastPosition?]

lemma headerText_eq (hwrap : (layoutOf p indent b s).rewrap = false) :
    b.headerText (layoutOf p indent b s)
      = source (s.opening ++ s.nodes.head?.elim [] Segment.gap) := by
  have htake : s.tokens.take (s.opening ++ s.nodes.head?.elim [] Segment.gap).length
      = s.opening ++ s.nodes.head?.elim [] Segment.gap := by
    cases hns : s.nodes with
    | nil => simp [Segments.tokens, hns]
    | cons n ns =>
      simp only [Segments.tokens, hns, List.head?_cons, Option.elim_some, List.flatMap_cons,
        Segment.tokens, List.append_assoc]
      rw [← List.append_assoc, List.take_left]
  rw [headerText, hwrap, tokens_eq_of_derives hs h, layoutOf, htake]
  rfl

lemma trailerText_eq (hwrap : (layoutOf p indent b s).rewrap = false) :
    b.trailerText (layoutOf p indent b s) = source s.trail := by
  rw [trailerText, hwrap, raw_eq_of_derives hs h, Segments.tokens, source_append]
  exact dropBytes_byteSize_append _ _

/-- What stood in front of a node that was read stands there again. -/
lemma separatorText_of_read (hwrap : (layoutOf p indent b s).rewrap = false) {id : NodeId} {k : Nat}
    {n : Segment} (hk : 0 < k) (hn : s.nodes[k]? = some n)
    (hspan : b.tree.attributes.span? id = some (s.span k n)) :
    b.separatorText (layoutOf p indent b s) id = source n.gap := by
  have hgap := Segments.gap_start hk hn
  have hopen := Segments.opening_length_lt_before hk (List.getElem?_eq_some_iff.1 hn).1.le
  have hstart : (s.before k).length ≠ (s.span k n).start := by
    have := List.length_pos_iff.2 (Segments.gap_ne_nil hk hn)
    simp only [Segments.span, List.length_append]
    omega
  have hopen' : ¬ (s.before k).length ≤ (layoutOf p indent b s).openEnd := Nat.not_le.2 hopen
  simp only [separatorText, hspan, tokens_eq_of_derives hs h, hgap, hopen', hwrap, hstart,
    Segments.tokens_gap hn]
  rfl

/-- A node that was read keeps its text as long as it is not touched. -/
lemma nodeText_of_read {l : Layout} {id : NodeId} {k : Nat} {n : Segment}
    (hn : s.nodes[k]? = some n) (hspan : b.tree.attributes.span? id = some (s.span k n)) :
    b.nodeText l id = if b.tree.isModified id then joinLines l.lineStart (b.write id)
      else source n.body := by
  have hempty : (s.span k n).isEmpty = false := by
    have := List.length_pos_iff.2 n.solid.ne_nil
    simp only [Span.isEmpty, Segments.span, Segment.tokens, List.length_append]
    exact decide_eq_false (by omega)
  simp only [nodeText, hspan, hempty, Bool.or_false, tokens_eq_of_derives hs h,
    Segments.tokens_span hn]

end

end Block

end DocComment
