import DocComment.Proofs.Token.Source
import DocComment.Proofs.Tree.Read

/-!
# The segments of a comment

The tokens of a comment are an opening delimiter, then the tokens of one node after the other, each
with the separators in front of it, and then a trail, which is the closing delimiter and all that
stands around it (`Segments`). Every comment is cut in this way (`exists_segments`), and the
segments say where its nodes are (`spans_tokens`) and what they say (`contents_ofTokens`).
-/

namespace DocComment

namespace Token

/-! ### The tokens of one node -/

/-- Whether a token belongs to a node wherever it stands in front of the closing delimiter. -/
def isContent (t : Token) : Bool := !t.isSeparator && t.kind ≠ .closing

/-- The number of line breaks. -/
def breaks (ts : List Token) : Nat := ts.countP (·.kind = .lineBreak)

/-- Whether a new node starts with the token `u` after these separators. -/
def startsNode (gap : List Token) (u : Token) : Bool :=
  2 ≤ breaks gap || (1 ≤ breaks gap && u.kind = .marker)

/-- Tokens that make up one node: they start and end with content, and no new node starts between
them. -/
inductive Solid : List Token → Prop where
  | single {t : Token} (ht : t.isContent) : Solid [t]
  | cons {t u : Token} {gap ts : List Token} (ht : t.isContent) (hgap : ∀ g ∈ gap, g.isSeparator)
      (hnot : startsNode gap u = false) (hrest : Solid (u :: ts)) : Solid (t :: (gap ++ u :: ts))

lemma isContent_iff {t : Token} :
    t.isContent ↔ t.kind ≠ .lineBreak ∧ t.kind ≠ .blank ∧ t.kind ≠ .closing := by
  simp [isContent, isSeparator, and_assoc]

lemma isSeparator_iff {t : Token} : t.isSeparator ↔ t.kind = .lineBreak ∨ t.kind = .blank := by
  simp [isSeparator]

lemma isSeparator_eq_false_of_isContent {t : Token} (h : t.isContent) : t.isSeparator = false := by
  simp only [isContent, Bool.and_eq_true, Bool.not_eq_true'] at h
  exact h.1

namespace Solid

variable {ts : List Token}

lemma exists_cons (h : Solid ts) : ∃ t us, ts = t :: us ∧ t.isContent := by
  cases h with
  | single ht => exact ⟨_, _, rfl, ht⟩
  | cons ht _ _ _ => exact ⟨_, _, rfl, ht⟩

lemma ne_nil (h : Solid ts) : ts ≠ [] := by
  obtain ⟨t, us, rfl, -⟩ := h.exists_cons
  exact List.cons_ne_nil _ _

lemma exists_append (h : Solid ts) : ∃ us t, ts = us ++ [t] ∧ t.isContent := by
  induction h with
  | single ht => exact ⟨[], _, rfl, ht⟩
  | @cons t u gap ts ht hgap hnot hrest ih =>
    obtain ⟨us, v, h, hv⟩ := ih
    exact ⟨t :: (gap ++ us), v, by simp [h], hv⟩

lemma isSeparator_getLast (h : Solid ts) : ∀ t ∈ ts.getLast?, t.isSeparator = false := by
  intro t ht
  obtain ⟨us, u, hu, hcontent⟩ := h.exists_append
  rw [hu, List.getLast?_concat] at ht
  obtain rfl : u = t := Option.some.inj ht
  exact isSeparator_eq_false_of_isContent hcontent

lemma kind_ne_closing (h : Solid ts) : ∀ t ∈ ts, t.kind ≠ .closing := by
  induction h with
  | single ht => simpa using (isContent_iff.1 ht).2.2
  | @cons t u gap ts ht hgap hnot hrest ih =>
    intro v hv
    rw [List.mem_cons, List.mem_append] at hv
    rcases hv with rfl | hv | hv
    · exact (isContent_iff.1 ht).2.2
    · rcases isSeparator_iff.1 (hgap v hv) with h | h <;> simp [h]
    · exact ih v hv

end Solid

end Token

open Token

/-! ### Segments -/

/-- The tokens of a node with the separators in front of it. -/
structure Segment where
  gap : List Token
  body : List Token
  isSeparator : ∀ t ∈ gap, t.isSeparator
  solid : Solid body

namespace Segment

def tokens (s : Segment) : List Token := s.gap ++ s.body

/-- Whether the separators part the node from the one before it. -/
def starts (s : Segment) : Bool := s.body.head?.any (startsNode s.gap)

end Segment

/-- A comment by its nodes. -/
structure Segments where
  opening : List Token
  nodes : List Segment
  trail : List Token
  opening_cases : (∃ t, opening = [t] ∧ t.kind = .opening) ∨
    opening = [] ∧ ∀ t ∈ (nodes.flatMap Segment.tokens ++ trail).head?, t.kind ≠ .opening
  starts : ∀ s ∈ nodes.tail, s.starts
  trail_closing : ∀ t ∈ (trail.dropWhile Token.isSeparator).head?, t.kind = .closing

namespace Segments

/-- All tokens of a comment. -/
def tokens (s : Segments) : List Token :=
  s.opening ++ s.nodes.flatMap Segment.tokens ++ s.trail

/-- The tokens in front of the node with this index and its separators. -/
def before (s : Segments) (k : Nat) : List Token :=
  s.opening ++ (s.nodes.take k).flatMap Segment.tokens

/-- The span of the node with this index. -/
def span (s : Segments) (k : Nat) (n : Segment) : Span :=
  ⟨(s.before k ++ n.gap).length, (s.before k ++ n.tokens).length⟩

end Segments

/-! ### Cutting a comment into segments -/

/-- The tokens after the opening delimiter, cut in front of every node. -/
lemma exists_nodes (ts : List Token) : ∃ (nodes : List Segment) (trail : List Token),
    ts = nodes.flatMap Segment.tokens ++ trail ∧ (∀ s ∈ nodes.tail, s.starts) ∧
    ∀ t ∈ (trail.dropWhile Token.isSeparator).head?, t.kind = .closing := by
  induction ts with
  | nil => exact ⟨[], [], by simp⟩
  | cons t ts ih =>
    obtain ⟨nodes, trail, hts, hstarts, htrail⟩ := ih
    by_cases hsep : t.isSeparator
    · -- A separator goes to the node after it, or to the trail.
      cases nodes with
      | nil => exact ⟨[], t :: trail, by simpa using hts, by simp, by simpa [hsep] using htrail⟩
      | cons n nodes =>
        refine ⟨⟨t :: n.gap, n.body, ?_, n.solid⟩ :: nodes, trail, ?_, hstarts, htrail⟩
        · simpa [hsep] using n.isSeparator
        · simp [hts, Segment.tokens]
    by_cases hclosing : t.kind = .closing
    · exact ⟨[], t :: ts, by simp, by simp, by simp [hsep, hclosing]⟩
    have ht : t.isContent := by simp [isContent, hsep, hclosing]
    cases nodes with
    | nil =>
      exact ⟨[⟨[], [t], by simp, .single ht⟩], trail, by simpa [Segment.tokens] using hts, by simp,
        htrail⟩
    | cons n nodes =>
      by_cases hn : n.starts
      · refine ⟨⟨[], [t], by simp, .single ht⟩ :: n :: nodes, trail, ?_, ?_, htrail⟩
        · simp [hts, Segment.tokens]
        · simpa [hn] using hstarts
      · -- No node starts here, so the token belongs to the node after it.
        obtain ⟨u, us, hbody, -⟩ := n.solid.exists_cons
        have hnot : startsNode n.gap u = false := by simpa [Segment.starts, hbody] using hn
        have hsolid : Solid (t :: (n.gap ++ n.body)) := by
          rw [hbody]
          exact .cons ht n.isSeparator hnot (hbody ▸ n.solid)
        refine ⟨⟨[], t :: (n.gap ++ n.body), by simp, hsolid⟩ :: nodes, trail, ?_, hstarts, htrail⟩
        simp [hts, Segment.tokens]

/-- Every comment is cut into segments. -/
theorem exists_segments (ts : List Token) : ∃ s : Segments, s.tokens = ts := by
  cases ts with
  | nil => exact ⟨⟨[], [], [], .inr (by simp), by simp, by simp⟩, rfl⟩
  | cons t ts =>
    by_cases h : t.kind = .opening
    · obtain ⟨nodes, trail, hts, hstarts, htrail⟩ := exists_nodes ts
      exact ⟨⟨[t], nodes, trail, .inl ⟨t, rfl, h⟩, hstarts, htrail⟩, by simp [Segments.tokens, hts]⟩
    · obtain ⟨nodes, trail, hts, hstarts, htrail⟩ := exists_nodes (t :: ts)
      refine ⟨⟨[], nodes, trail, .inr ⟨rfl, ?_⟩, hstarts, htrail⟩, by simp [Segments.tokens, ← hts]⟩
      simpa [← hts] using h

/-! ### Spans -/

section

variable {b : Nat} {i : Nat}

lemma contentIndexes_separators {gap : List Token} (hgap : ∀ t ∈ gap, t.isSeparator)
    (rest : List Token) :
    contentIndexes b ((gap ++ rest).zipIdx i)
      = contentIndexes (b + breaks gap) (rest.zipIdx (i + gap.length)) := by
  induction gap generalizing b i with
  | nil => simp [breaks]
  | cons t gap ih =>
    have ih' := fun b i => @ih b i fun u hu => hgap u (List.mem_cons_of_mem _ hu)
    rcases isSeparator_iff.1 (hgap t List.mem_cons_self) with ht | ht
    · simp only [List.cons_append, List.zipIdx_cons, contentIndexes, ht, ih', breaks,
        List.countP_cons, List.length_cons, decide_true, if_true]
      congr 1 <;> [omega; (congr 1; omega)]
    · simp only [List.cons_append, List.zipIdx_cons, contentIndexes, ht, ih', breaks,
        List.countP_cons, List.length_cons]
      congr 1
      congr 1
      omega

lemma contentIndexes_content {t : Token} (ht : t.isContent) (rest : List Token) :
    contentIndexes b ((t :: rest).zipIdx i) =
      (i, 2 ≤ b || (1 ≤ b && t.kind = .marker)) :: contentIndexes 0 (rest.zipIdx (i + 1)) := by
  obtain ⟨h₁, h₂, h₃⟩ := isContent_iff.1 ht
  simp only [List.zipIdx_cons, contentIndexes]

/-- The content of one node forms one span if a new node starts after it, or nothing follows. -/
lemma group_solid {body : List Token} (h : Solid body) (rest : List Token)
    (hrest : ∀ p ∈ (contentIndexes 0 (rest.zipIdx (i + body.length))).head?, p.2 = true) :
    Span.group (contentIndexes b ((body ++ rest).zipIdx i)) =
      ⟨i, i + body.length⟩ :: Span.group (contentIndexes 0 (rest.zipIdx (i + body.length))) := by
  induction h generalizing b i with
  | @single t ht =>
    rw [List.singleton_append, contentIndexes_content ht, List.length_singleton]
    rw [List.length_singleton] at hrest
    generalize contentIndexes 0 (rest.zipIdx (i + 1)) = xs at hrest ⊢
    match xs with
    | [] => rfl
    | (j, true) :: xs => rfl
    | (j, false) :: xs => simp at hrest
  | @cons t u gap ts ht hgap hnot hsolid ih =>
    obtain ⟨u', us, hu, hcontent⟩ := hsolid.exists_cons
    obtain ⟨rfl, -⟩ := List.cons.inj hu
    have hlen : (t :: (gap ++ u :: ts)).length = 1 + gap.length + (u :: ts).length := by
      simp only [List.length_cons, List.length_append]
      omega
    rw [hlen, ← Nat.add_assoc, ← Nat.add_assoc] at hrest ⊢
    rw [List.cons_append, List.append_assoc, contentIndexes_content ht,
      contentIndexes_separators hgap, Nat.zero_add]
    have ih' := @ih (breaks gap) (i + 1 + gap.length) hrest
    rw [List.cons_append, contentIndexes_content hcontent] at ih' ⊢
    rw [show (2 ≤ breaks gap || (1 ≤ breaks gap && u.kind = .marker) : Bool) = false from hnot]
      at ih' ⊢
    generalize contentIndexes 0 ((ts ++ rest).zipIdx (i + 1 + gap.length + 1)) = xs at ih' ⊢
    rw [Span.group.eq_def]
    simp only [ih']

/-- A node that is parted from the one before it has the mark of a start. -/
lemma head?_contentIndexes_of_starts {n : Segment} (hn : n.starts) (rest : List Token) :
    ∀ p ∈ (contentIndexes 0 ((n.tokens ++ rest).zipIdx i)).head?, p.2 = true := by
  obtain ⟨u, us, hbody, hu⟩ := n.solid.exists_cons
  rw [Segment.tokens, List.append_assoc, contentIndexes_separators n.isSeparator, Nat.zero_add,
    hbody, List.cons_append, contentIndexes_content hu]
  simpa [Segment.starts, hbody, startsNode] using hn

lemma contentIndexes_trail {trail : List Token}
    (h : ∀ t ∈ (trail.dropWhile Token.isSeparator).head?, t.kind = .closing) :
    contentIndexes b (trail.zipIdx i) = [] := by
  obtain ⟨gap, rest, rfl, hgap, hrest⟩ : ∃ gap rest, trail = gap ++ rest ∧
      (∀ t ∈ gap, t.isSeparator) ∧ ∀ t ∈ rest.head?, t.kind = .closing := by
    refine ⟨_, _, (List.takeWhile_append_dropWhile (p := Token.isSeparator)).symm, ?_, h⟩
    exact fun t ht => List.all_eq_true.1 List.all_takeWhile t ht
  rw [contentIndexes_separators hgap]
  cases rest with
  | nil => simp [contentIndexes]
  | cons t rest =>
    have ht : t.kind = .closing := hrest t rfl
    simp [List.zipIdx_cons, contentIndexes, ht]

/-- The spans of nodes that stand behind the first `i` tokens. -/
lemma group_nodes {nodes : List Segment} {trail : List Token} (hstarts : ∀ s ∈ nodes.tail, s.starts)
    (htrail : ∀ t ∈ (trail.dropWhile Token.isSeparator).head?, t.kind = .closing) :
    Span.group (contentIndexes b ((nodes.flatMap Segment.tokens ++ trail).zipIdx i)) =
      nodes.mapIdx fun k n => ⟨i + (((nodes.take k).flatMap Segment.tokens) ++ n.gap).length,
        i + (((nodes.take k).flatMap Segment.tokens) ++ n.tokens).length⟩ := by
  induction nodes generalizing b i with
  | nil => simp [contentIndexes_trail htrail, Span.group]
  | cons n nodes ih =>
    have hnext : ∀ j, ∀ p ∈ (contentIndexes 0
        ((nodes.flatMap Segment.tokens ++ trail).zipIdx j)).head?, p.2 = true := by
      intro j
      cases nodes with
      | nil => simp [contentIndexes_trail htrail]
      | cons m nodes =>
        rw [List.flatMap_cons, List.append_assoc]
        exact head?_contentIndexes_of_starts (hstarts m (by simp)) _
    have ih' := fun j => @ih 0 j fun s hs => hstarts s (List.mem_of_mem_tail hs)
    rw [List.flatMap_cons, List.append_assoc, Segment.tokens, List.append_assoc,
      contentIndexes_separators n.isSeparator, group_solid n.solid _ (hnext _), ih',
      List.mapIdx_cons]
    congr 1
    · simp [Nat.add_assoc, Segment.tokens]
    · refine List.mapIdx_eq_mapIdx_iff.2 fun k hk => ?_
      simp only [List.take_succ_cons, List.flatMap_cons, List.length_append, Segment.tokens]
      congr 1 <;> omega

end

namespace Segments

variable (s : Segments)

lemma afterOpening_indexed : Token.afterOpening (Token.indexed s.tokens) =
    (s.nodes.flatMap Segment.tokens ++ s.trail).zipIdx s.opening.length := by
  rcases s.opening_cases with ⟨t, ht, hkind⟩ | ⟨h, hhead⟩
  · simp [tokens, ht, Token.indexed, Token.afterOpening, List.zipIdx_cons, hkind]
  · rw [tokens, h, List.nil_append, Token.indexed, List.length_nil]
    generalize s.nodes.flatMap Segment.tokens ++ s.trail = ts at hhead
    cases ts with
    | nil => rfl
    | cons t ts => simp [Token.afterOpening, List.zipIdx_cons, hhead t rfl]

/-- The spans of a comment are those of its segments. -/
theorem spans_tokens : Token.spans s.tokens = s.nodes.mapIdx s.span := by
  rw [Token.spans, afterOpening_indexed, group_nodes s.starts s.trail_closing]
  refine List.mapIdx_eq_mapIdx_iff.2 fun k hk => ?_
  simp only [span, before, List.length_append, Nat.add_assoc]

variable {s} {k : Nat} {n : Segment}

/-- The tokens behind the node with this index. -/
def after (s : Segments) (k : Nat) : List Token :=
  (s.nodes.drop (k + 1)).flatMap Segment.tokens ++ s.trail

lemma tokens_eq (h : s.nodes[k]? = some n) :
    s.tokens = s.before k ++ n.gap ++ n.body ++ s.after k := by
  obtain ⟨hk, rfl⟩ := List.getElem?_eq_some_iff.1 h
  have hsplit : s.nodes.flatMap Segment.tokens = (s.nodes.take k).flatMap Segment.tokens ++
      (s.nodes[k].tokens ++ (s.nodes.drop (k + 1)).flatMap Segment.tokens) := by
    rw [← List.flatMap_cons, List.getElem_cons_drop, ← List.flatMap_append, List.take_append_drop]
  rw [tokens, hsplit]
  simp only [before, after, Segment.tokens, List.append_assoc]

lemma tokens_span (h : s.nodes[k]? = some n) : (s.span k n).tokens s.tokens = n.body := by
  have hlen : (s.before k ++ n.tokens).length - (s.before k ++ n.gap).length = n.body.length := by
    simp only [Segment.tokens, List.length_append]
    omega
  rw [tokens_eq h, Span.tokens, span, hlen, List.append_assoc, List.drop_left, List.take_left]

end Segments

/-- The tokens of a span are those of one node. -/
lemma Token.exists_of_mem_spans {ts : List Token} {s : Span} (h : s ∈ spans ts) :
    ∃ us body vs, ts = us ++ body ++ vs ∧ Solid body ∧
      s = ⟨us.length, us.length + body.length⟩ ∧ s.tokens ts = body := by
  obtain ⟨segments, rfl⟩ := exists_segments ts
  rw [segments.spans_tokens] at h
  obtain ⟨k, hk, rfl⟩ := List.mem_mapIdx.1 h
  have hn : segments.nodes[k]? = some segments.nodes[k] := List.getElem?_eq_getElem hk
  refine ⟨_, _, _, Segments.tokens_eq hn, segments.nodes[k].solid, ?_, Segments.tokens_span hn⟩
  rw [Segments.span, Segment.tokens, ← List.append_assoc, Span.mk.injEq]
  exact ⟨rfl, List.length_append⟩

/-! ### Content -/

/-- The nodes of a comment say what their tokens say. -/
theorem contents_ofTokens (rules : Rules) (s : Segments) :
    (Tree.ofTokens rules s.tokens).contents =
      s.nodes.map fun n => some (Node.Content.ofTokens rules n.body) := by
  rw [(Tree.unedited_ofTokens rules s.tokens).contents, s.spans_tokens, List.map_map]
  apply List.ext_getElem?
  intro k
  simp only [List.getElem?_map, List.getElem?_mapIdx]
  cases h : s.nodes[k]? with
  | none => rfl
  | some n => simp [Segments.tokens_span h]

end DocComment
