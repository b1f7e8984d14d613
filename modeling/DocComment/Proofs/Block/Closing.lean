import DocComment.Proofs.Block.LineStart
import DocComment.Proofs.Block.Splice
import DocComment.Proofs.Tree.Moved

/-!
# When an edited comment is closed early

Escaping keeps the text of a node from closing the comment, but not a node that starts with a slash
and stands behind a star. A printed block is a comment again unless that happens
(`isComment_print_iff`).
-/

namespace DocComment

open Text Token

namespace Block

/-! ### The tokens of a comment -/

section

variable {raw : Text} {s : Segments}

/-- No node reaches over the closing delimiter. -/
lemma kind_ne_closing_of_mem_nodes {t : Token} (ht : t ∈ s.nodes.flatMap Segment.tokens) :
    t.kind ≠ .closing := by
  obtain ⟨n, -, ht⟩ := List.mem_flatMap.1 ht
  rcases List.mem_append.1 ht with ht | ht
  · rcases isSeparator_iff.1 (n.isSeparator t ht) with h | h <;> simp [h]
  · exact n.solid.kind_ne_closing t ht

/-- A comment that is not the shortest one. -/
lemma exists_of_isComment (hraw : IsComment raw) (hne : raw ≠ "/**/".toList) :
    ∃ w : Text, raw = '/' :: '*' :: '*' :: (w ++ ['*', '/']) ∧
      closes ('*' :: (w ++ ['*'])) = false := by
  obtain ⟨v, rfl, hhead, hlast, hv⟩ := isComment_iff.1 hraw
  obtain ⟨r, rfl⟩ := List.head?_eq_some_iff.1 hhead
  have hr : r ≠ [] := by
    rintro rfl
    exact hne rfl
  obtain ⟨w, c, rfl⟩ := (⟨_, _, (List.dropLast_append_getLast hr).symm⟩ : ∃ l c, r = l ++ [c])
  obtain rfl : c = '*' := by
    rw [← List.cons_append, List.getLast?_concat] at hlast
    exact Option.some.inj hlast
  exact ⟨w, by simp, by simpa using hv⟩

lemma scanFrom_closing {w : Text} (start : Nat) :
    scanFrom false start (w ++ ['*', '/']) =
      scanFrom false start w ++ [⟨.closing, ['*', '/'], start + byteSize w⟩] := by
  have hclosing : ∀ i, scanFrom false i ['*', '/'] = [⟨.closing, ['*', '/'], i⟩] := by
    intro i
    rw [scanFrom_cons]
    simp [next]
  cases hw : w with
  | nil => simp [hclosing]
  | cons c w' =>
    rw [← hw, scanFrom_append (by rfl) start (by simp) (by simp [startsBlank, isBlank])
      (by simp [hw]), hclosing]

/-- Text that does not close a comment has no closing token. -/
lemma kind_ne_closing_of_closes {w : Text} {start : Nat} (hw : closes w = false) {t : Token}
    (ht : t ∈ scanFrom false start w) : t.kind ≠ .closing := by
  intro hk
  obtain ⟨before, after, hsplit⟩ := List.append_of_mem ht
  have hsource : w = source before ++ (['*', '/'] ++ source after) := by
    rw [← source_scanFrom false start w, hsplit, source_append, source_cons,
      text_of_closing ht hk]
  have hcloses : closes w = true :=
    closes_iff.2 ⟨source before, source after, by simpa using hsource⟩
  rw [hw] at hcloses
  cases hcloses

/-- The tokens behind the nodes are separators up to the first that closes the comment. -/
lemma isSeparator_of_trail {seps : List Token} {last : Token} (htrail : s.trail = seps ++ [last])
    (hnone : ∀ t ∈ seps, t.kind ≠ .closing) : ∀ t ∈ seps, t.isSeparator := by
  -- The first token that were none would be a closing one.
  by_contra hsep
  have hdrop : seps.dropWhile Token.isSeparator ≠ [] := by
    rw [ne_eq, List.dropWhile_eq_nil_iff]
    exact hsep
  obtain ⟨t, ts, ht⟩ := List.exists_cons_of_ne_nil hdrop
  have hmem : t ∈ seps := (List.dropWhile_suffix _).subset (ht ▸ List.mem_cons_self)
  refine hnone t hmem (s.trail_closing t ?_)
  rw [htrail, List.dropWhile_append, ht]
  rfl

/-- A comment starts with its delimiter and ends with the other one, after separators. -/
lemma segments_of_isComment (hs : s.tokens = scan raw) (hraw : IsComment raw)
    (hne : raw ≠ "/**/".toList) :
    source s.opening = ['/', '*', '*'] ∧ ∃ seps : List Token, (∀ t ∈ seps, t.isSeparator) ∧
      source s.trail = source seps ++ ['*', '/'] ∧ (source seps ++ ['*']).head? ≠ some '/' ∧
      closes ('*' :: source (s.nodes.flatMap Segment.tokens) ++ (source seps ++ ['*']))
        = false := by
  obtain ⟨w, hw, hclosed⟩ := exists_of_isComment hraw hne
  have hscan : scan raw = ⟨.opening, ['/', '*', '*'], 0⟩ ::
      (scanFrom false 3 w ++ [⟨.closing, ['*', '/'], 3 + byteSize w⟩]) := by
    rw [hw, scan, scanFrom_closing]
  have hopening : ∃ t, s.opening = [t] ∧ t.kind = .opening := by
    rcases s.opening_cases with h | ⟨h, hhead⟩
    · exact h
    · refine absurd rfl (hhead ⟨.opening, ['/', '*', '*'], 0⟩ ?_)
      rw [Segments.tokens, h, List.nil_append] at hs
      rw [hs, hscan]
      rfl
  obtain ⟨t, ht, -⟩ := hopening
  have hsplit : t = ⟨.opening, ['/', '*', '*'], 0⟩ ∧
      s.nodes.flatMap Segment.tokens ++ s.trail =
        scanFrom false 3 w ++ [⟨.closing, ['*', '/'], 3 + byteSize w⟩] := by
    rw [Segments.tokens, ht, hscan, List.singleton_append, List.cons_append] at hs
    exact List.cons.inj hs
  have hopen : closes w = false :=
    closes_eq_false_of_isInfix ⟨['*'], ['*'], rfl⟩ hclosed
  have htrail : s.trail ≠ [] := by
    intro h
    rw [h, List.append_nil] at hsplit
    have hmem : (⟨.closing, ['*', '/'], 3 + byteSize w⟩ : Token) ∈
        s.nodes.flatMap Segment.tokens := by
      rw [hsplit.2]
      simp
    exact kind_ne_closing_of_mem_nodes hmem rfl
  obtain ⟨seps, u, hseps⟩ := (⟨_, _, (List.dropLast_append_getLast htrail).symm⟩ :
    ∃ l u, s.trail = l ++ [u])
  rw [hseps, ← List.append_assoc] at hsplit
  obtain ⟨hwtokens, hu⟩ := List.append_inj' hsplit.2 rfl
  obtain rfl : u = _ := List.singleton_inj.1 hu
  have hsep : ∀ t ∈ seps, t.isSeparator := by
    refine isSeparator_of_trail hseps fun t ht => ?_
    have hmem : t ∈ scanFrom false 3 w := by
      rw [← hwtokens]
      exact List.mem_append_right _ ht
    exact kind_ne_closing_of_closes hopen hmem
  refine ⟨by rw [ht, hsplit.1]; rfl, seps, hsep, by rw [hseps, source_append]; rfl, ?_, ?_⟩
  · by_cases hnil : seps = []
    · simp [hnil]
    · have hmem : ∀ t ∈ seps, t ∈ scan raw := by
        intro t ht
        rw [hscan, ← hwtokens]
        simp [ht]
      obtain ⟨hne, hhead⟩ := head?_source_of_isSeparator hmem hsep hnil
      rwa [List.head?_append_of_ne_nil _ hne]
  · have hsource := congrArg source hwtokens
    rw [source_append, source_scanFrom] at hsource
    rw [List.cons_append, ← List.append_assoc, hsource]
    exact hclosed

lemma source_infix_of_mem {n : Segment} (hn : n ∈ s.nodes) :
    source n.gap <:+: source (s.nodes.flatMap Segment.tokens) ∧
      source n.body <:+: source (s.nodes.flatMap Segment.tokens) := by
  obtain ⟨before, after, h⟩ := List.append_of_mem hn
  have hsource : source (s.nodes.flatMap Segment.tokens) =
      source (before.flatMap Segment.tokens) ++ (source n.gap ++ source n.body) ++
        source (after.flatMap Segment.tokens) := by
    simp [h, Segment.tokens]
  rw [hsource]
  constructor
  · exact ⟨source (before.flatMap Segment.tokens), source n.body ++ _, by simp; rfl⟩
  · exact ⟨source (before.flatMap Segment.tokens) ++ source n.gap, _, by simp; rfl⟩

/-- The shortest comment has one node, which is the slash that closes it. -/
lemma segments_of_shortest (hs : s.tokens = scan "/**/".toList) (hne : s.nodes ≠ []) :
    ∃ n, s.nodes = [n] ∧ source s.opening = ['/', '*', '*'] ∧ n.gap = [] ∧
      source n.body = ['/'] ∧ s.trail = [] := by
  have hscan : scan "/**/".toList = [⟨.opening, ['/', '*', '*'], 0⟩, ⟨.text, ['/'], 3⟩] := by
    decide +kernel
  rw [hscan] at hs
  obtain ⟨n, ns, hns⟩ := List.exists_cons_of_ne_nil hne
  have hbody := List.length_pos_iff.2 n.solid.ne_nil
  have hlength := congrArg List.length hs
  simp only [Segments.tokens, hns, List.flatMap_cons, Segment.tokens, List.length_append,
    List.length_cons, List.length_nil] at hlength
  rcases s.opening_cases with ⟨t, ht, -⟩ | ⟨h, hhead⟩
  · rw [ht] at hlength
    simp only [List.length_cons, List.length_nil] at hlength
    have hgap : n.gap = [] := List.length_eq_zero_iff.1 (by omega)
    have htrail : s.trail = [] := List.length_eq_zero_iff.1 (by omega)
    have hrest : ns.flatMap Segment.tokens = [] := List.length_eq_zero_iff.1 (by omega)
    have hnil : ns = [] := by
      cases ns with
      | nil => rfl
      | cons m ns =>
        simp only [List.flatMap_cons, List.append_eq_nil_iff, Segment.tokens] at hrest
        exact absurd hrest.1.2 m.solid.ne_nil
    simp only [Segments.tokens, hns, hnil, ht, htrail, hgap, Segment.tokens, List.flatMap_cons,
      List.flatMap_nil, List.append_nil, List.nil_append, List.singleton_append,
      List.cons.injEq] at hs
    exact ⟨n, by rw [hns, hnil], by rw [ht, hs.1]; rfl, hgap, by rw [hs.2]; rfl, htrail⟩
  · refine absurd rfl (hhead ⟨.opening, ['/', '*', '*'], 0⟩ ?_)
    rw [Segments.tokens, h, List.nil_append] at hs
    rw [hs]
    rfl

/-- The delimiter of a comment has two stars. -/
lemma source_opening_of_isComment (hs : s.tokens = scan raw) (hraw : IsComment raw)
    (hne : s.nodes ≠ []) : source s.opening = ['/', '*', '*'] := by
  by_cases hshort : raw = "/**/".toList
  · subst hshort
    obtain ⟨-, -, hopening, -⟩ := segments_of_shortest hs hne
    exact hopening
  · exact (segments_of_isComment hs hraw hshort).1

/-- A comment is written again behind the delimiter with two stars. -/
lemma openingText_eq_delimiter (hs : s.tokens = scan raw) (hraw : s.nodes ≠ [] → IsComment raw) :
    openingText s = ['/', '*', '*'] := by
  unfold openingText
  split_ifs with hnil
  · rfl
  · have hne : s.nodes ≠ [] := fun h => hnil (.inl h)
    exact source_opening_of_isComment hs (hraw hne) hne

/-- No node of a comment closes it. -/
lemma closes_body (hs : s.tokens = scan raw) (hraw : IsComment raw) {n : Segment}
    (hn : n ∈ s.nodes) : closes (source n.body) = false := by
  by_cases hne : raw = "/**/".toList
  · subst hne
    obtain ⟨m, hm, -, -, hbody, -⟩ := segments_of_shortest hs (List.ne_nil_of_mem hn)
    obtain rfl : n = m := by simpa [hm] using hn
    simp [hbody]
  · obtain ⟨-, seps, -, -, -, hclosed⟩ := segments_of_isComment hs hraw hne
    refine closes_eq_false_of_isInfix ((source_infix_of_mem hn).2.trans ?_) hclosed
    exact ⟨['*'], _, rfl⟩

end

/-! ### Printing -/

section

variable {rules : Rules} {declaration? : Option Nat} {raw : Text} {s : Segments} {b : Block}
  {indent : Text}

/-- The printed text of a node does not close the comment by itself. -/
lemma closes_splicedNode (hs : s.tokens = scan raw) (hraw : IsComment raw) {ls : Text}
    (hls : Harmless ls) (id : NodeId) :
    closes (splicedNode (read rules declaration? raw) b ls id) = false := by
  simp only [splicedNode, ← joinLines_eq_canonicalText]
  cases hk : (read rules declaration? raw).tree.top.idxOf? id with
  | none => exact closes_joinLines hls _
  | some k =>
    dsimp only
    split_ifs
    · exact closes_joinLines hls _
    · obtain ⟨hlt, -⟩ := List.idxOf?_eq_some_iff.1 hk
      rw [length_top_read rules declaration? hs] at hlt
      have hn : s.nodes[k]? = some s.nodes[k] := List.getElem?_eq_getElem hlt
      rw [slice_node hs hn]
      exact closes_body hs hraw (List.getElem_mem hlt)

/-- Nodes on lines of their own make a comment. -/
lemma isComment_on_lines {ids : List NodeId} {f : NodeId → Text}
    (hindent : ∀ c ∈ indent, isBlank c) (hf : ∀ id, closes (f id) = false) :
    IsComment (['/', '*', '*'] ++ (ids.flatMap fun id => ownLineStart {} indent ++ f id) ++
      closingLine (ownLineStart {} indent)) := by
  have hown := (isLineStart_ownLineStart hindent false).harmless
  have htrim : trimSpaces (ownLineStart {} indent) = '\n' :: indent ++ [' ', '*'] := by
    have hsplit : ownLineStart {} indent = ('\n' :: indent ++ [' ', '*']) ++ [' '] := by
      simp [ownLineStart]
    rw [hsplit]
    simp [trimSpaces, trimEndBy]
  have hline : ∀ id ∈ ids, (ownLineStart {} indent ++ f id).head? ≠ some '/' := by
    intro id _
    rw [List.head?_append_of_ne_nil _ hown.ne_nil]
    exact head?_ne_slash_of_not_mem hown.not_mem
  obtain ⟨hlines, hhead⟩ := closes_flatMap hline
  have hnot : '/' ∉ trimSpaces (ownLineStart {} indent) := fun hm =>
    hown.not_mem (mem_of_mem_trimSpaces hm)
  have hclosed : closes (['*'] ++ (ids.flatMap fun id => ownLineStart {} indent ++ f id) ++
      trimSpaces (ownLineStart {} indent)) = false := by
    rw [closes_append_eq_false, closes_append_eq_false, hlines, List.any_eq_false]
    refine ⟨⟨closes_singleton _, fun id _ => ?_, fun hseam => hhead hseam.2⟩,
      closes_eq_false_of_not_mem hnot, fun hseam => head?_ne_slash_of_not_mem hnot hseam.2⟩
    rw [Bool.not_eq_true, closes_append_eq_false]
    exact ⟨closes_eq_false_of_not_mem hown.not_mem, hf id, fun hseam => hown.getLast? hseam.1⟩
  have := (isComment_iff_closes rfl ?_).2 hclosed
  · simpa [closingLine] using this
  · have hsplit : '\n' :: indent ++ [' ', '*'] = ('\n' :: indent ++ [' ']) ++ ['*'] := by simp
    rw [htrim, hsplit, ← List.append_assoc, List.getLast?_concat]

/-- A node of `b` that starts with a slash stands directly behind a star of the text of `b₀`: the
first node behind the start of the text, or another one that was read behind what stood in front of
it. -/
def Collides (b₀ b : Block) (ls : Text) : Prop :=
  (∃ id ∈ b.tree.top.head?, ['*'] <:+ slice 0 (b₀.nodeStart 0) b₀.raw ∧
    ['/'] <+: splicedNode b₀ b ls id) ∨
  ∃ id ∈ b.tree.top.tail, ∃ k ∈ b₀.tree.top.idxOf? id,
    ['*'] <:+ slice 0 (b₀.nodeStart k) b₀.raw ∧ ['/'] <+: splicedNode b₀ b ls id

instance (b₀ b : Block) (ls : Text) : Decidable (Collides b₀ b ls) := by
  unfold Collides
  infer_instance

/-- A block prints as no comment: it stands where its text was read, and a node closes it, or is the
slash that did and is no more. -/
def Misprints (b₀ b : Block) (ls : Text) : Prop :=
  b.dirty ∧ b₀.tree.top ≠ [] ∧ ((∃ t ∈ b₀.tokens, t.kind = .lineBreak) ∨ b.tree.top.length = 1) ∧
    if b₀.raw = "/**/".toList then ∃ id ∈ b.tree.top, splicedNode b₀ b ls id ≠ ['/']
    else Collides b₀ b ls

instance (b₀ b : Block) (ls : Text) : Decidable (Misprints b₀ b ls) := by
  unfold Misprints
  infer_instance

lemma singleton_prefix_iff {c : Char} {t : Text} : [c] <+: t ↔ t.head? = some c := by
  rw [List.head?_eq_some_iff]
  exact ⟨fun ⟨r, hr⟩ => ⟨r, hr.symm⟩, fun ⟨r, hr⟩ => ⟨r, hr.symm⟩⟩

lemma singleton_suffix_iff {c : Char} {t : Text} : [c] <:+ t ↔ t.getLast? = some c := by
  rw [List.getLast?_eq_some_iff]
  exact ⟨fun ⟨r, hr⟩ => ⟨r, hr.symm⟩, fun ⟨r, hr⟩ => ⟨r, hr.symm⟩⟩

variable (rules declaration?) in
/-- The start of the text up to a node ends like the gap in front of the node. -/
lemma getLast?_slice (hs : s.tokens = scan raw) {k : Nat} {n : Segment} (hk : 0 < k)
    (hn : s.nodes[k]? = some n) :
    (slice 0 ((read rules declaration? raw).nodeStart k) (read rules declaration? raw).raw).getLast?
      = (source n.gap).getLast? := by
  rw [raw_read hs, nodeStart_read hs hn, Segments.tokens_eq hn, List.append_assoc]
  have hslice := slice_source [] (s.before k ++ n.gap) (n.body ++ s.after k)
  simp only [source_nil, byteSize_nil, List.nil_append] at hslice
  have hgap := (Segments.head?_source_gap hs hn (Segments.gap_ne_nil hk hn)).1
  rw [hslice, source_append, List.getLast?_append_of_ne_nil _ hgap]

/-- The node of the shortest comment may be changed into other text, which then closes nothing. -/
lemma isComment_print_shortest (hs : s.tokens = scan "/**/".toList)
    (h : Derives (read rules declaration? "/**/".toList) b) (hindent : ∀ c ∈ indent, isBlank c)
    (hdirty : b.dirty) (hne : s.nodes ≠ []) {id : NodeId} (htop : b.tree.top = [id]) :
    IsComment (b.print {} indent) ↔ splicedNode (read rules declaration? "/**/".toList) b
      (lineStart {} indent s.tokens) id = ['/'] := by
  obtain ⟨n, hns, hopening, hgap, -, htrail⟩ := segments_of_shortest hs hne
  have hwrap : (layoutOf {} indent b s).rewrap = false := by simp [layoutOf, htop]
  have hclosed : closes (splicedNode (read rules declaration? "/**/".toList) b
      (lineStart {} indent (scan "/**/".toList)) id) = false :=
    closes_splicedNode hs (by decide +kernel) (isLineStart_lineStart hindent _).harmless id
  rw [print_of_not_rewrap hs h hns hdirty htop hwrap, hgap, List.append_nil, hopening,
    htrail, hs]
  generalize splicedNode _ b _ id = t at hclosed ⊢
  simp only [List.flatMap_nil, List.append_nil, source_nil, List.cons_append, List.nil_append]
  constructor
  · intro hcomment
    obtain ⟨v, hv, -, hlast, -⟩ := isComment_iff.1 hcomment
    obtain ⟨u, hu⟩ := List.getLast?_eq_some_iff.1 hlast
    have ht : '*' :: t = u ++ ['*', '/'] := by simpa [hu] using hv
    cases u with
    | nil => simpa using ht
    | cons c u =>
      have ht' : t = u ++ ['*', '/'] := by simpa using (List.cons.inj ht).2
      have : closes t = true := closes_iff.2 ⟨u, [], by simp [ht']⟩
      rw [hclosed] at this
      cases this
  · rintro rfl
    exact (isComment_iff_closes (v := ['*']) rfl rfl).2 (closes_singleton _)

/-- What stands in front of a node that is not the first does not close the comment. -/
lemma closes_splicedGap (hs : s.tokens = scan raw) (hraw : IsComment raw)
    (hshort : raw ≠ "/**/".toList) (h : Derives (read rules declaration? raw) b) {ls : Text}
    (hls : Harmless ls) {first id : NodeId} {rest : List NodeId} (htop : b.tree.top = first :: rest)
    (hid : id ∈ rest) :
    closes (splicedGap (read rules declaration? raw) ls id) = false ∧
      splicedGap (read rules declaration? raw) ls id ≠ [] ∧
      (splicedGap (read rules declaration? raw) ls id).head? ≠ some '/' ∧
      ((splicedGap (read rules declaration? raw) ls id).getLast? = some '*' ↔
        ∃ k, (read rules declaration? raw).tree.top.idxOf? id = some k ∧
          ['*'] <:+ slice 0 ((read rules declaration? raw).nodeStart k)
            (read rules declaration? raw).raw) := by
  unfold splicedGap
  cases hk : (read rules declaration? raw).tree.top.idxOf? id with
  | none =>
    refine ⟨closes_eq_false_of_not_mem hls.not_mem, hls.ne_nil,
      head?_ne_slash_of_not_mem hls.not_mem, ?_⟩
    simp [hls.getLast?]
  | some k =>
    obtain ⟨hlt, he, -⟩ := List.idxOf?_eq_some_iff.1 hk
    have hpos : 0 < k := h.pos_of_mem_tail (Tree.unedited_ofTokens rules (scan raw)) htop hid
      (List.getElem?_eq_some_iff.2 ⟨hlt, he⟩)
    rw [length_top_read rules declaration? hs] at hlt
    have hn : s.nodes[k]? = some s.nodes[k] := List.getElem?_eq_getElem hlt
    obtain ⟨-, seps, -, -, -, hclosed⟩ := segments_of_isComment hs hraw hshort
    obtain ⟨hne, hhead⟩ := Segments.head?_source_gap hs hn (Segments.gap_ne_nil hpos hn)
    have hgap : closes (source s.nodes[k].gap) = false := by
      refine closes_eq_false_of_isInfix ((source_infix_of_mem (List.getElem_mem hlt)).1.trans ?_)
        hclosed
      exact ⟨['*'], _, rfl⟩
    dsimp only
    rw [slice_gap hs hpos hn]
    refine ⟨hgap, hne, hhead, ?_⟩
    rw [← getLast?_slice rules declaration? hs hpos hn]
    simp [singleton_suffix_iff]

variable (rules declaration? indent) in
/-- The nodes stand where their text was read if some were, and if the comment has lines or one node
is left. -/
lemma stays_iff (hs : s.tokens = scan raw) (htop : b.tree.top ≠ []) :
    ¬ (s.nodes = [] ∨ (layoutOf {} indent b s).rewrap) ↔
      (read rules declaration? raw).tree.top ≠ [] ∧
        ((∃ t ∈ (read rules declaration? raw).tokens, t.kind = .lineBreak) ∨
          b.tree.top.length = 1) := by
  have hbreak : s.hasBreak ↔ ∃ t ∈ (read rules declaration? raw).tokens, t.kind = .lineBreak := by
    rw [Segments.hasBreak, hs, List.any_eq_true]
    simp
    rfl
  have hnil : (read rules declaration? raw).tree.top = [] ↔ s.nodes = [] := by
    rw [← List.length_eq_zero_iff, length_top_read rules declaration? hs, List.length_eq_zero_iff]
  have hone : ¬ 1 < b.tree.top.length ↔ b.tree.top.length = 1 := by
    have := List.length_pos_iff.2 htop
    omega
  rw [not_or, ne_eq, hnil, ← hbreak, ← hone]
  simp [layoutOf, or_iff_not_imp_left]

/-- A comment that is written on lines of its own is one. -/
lemma isComment_print_on_lines (hs : s.tokens = scan raw) (hraw : IsComment raw)
    (h : Derives (read rules declaration? raw) b) (hindent : ∀ c ∈ indent, isBlank c)
    (hdirty : b.dirty) (htop : b.tree.top ≠ [])
    (hlines : s.nodes = [] ∨ (layoutOf {} indent b s).rewrap) : IsComment (b.print {} indent) := by
  rw [print_on_lines hs h hdirty htop hlines, openingText_eq_delimiter hs fun _ => hraw]
  exact isComment_on_lines hindent
    fun id => closes_splicedNode hs hraw (isLineStart_ownLineStart hindent false).harmless id

/-- Where the nodes of a comment stand where they were read, seams are all that closes it. -/
lemma isComment_print_of_not_rewrap (hs : s.tokens = scan raw) (hraw : IsComment raw)
    (h : Derives (read rules declaration? raw) b) (hindent : ∀ c ∈ indent, isBlank c)
    (hdirty : b.dirty) (hshort : raw ≠ "/**/".toList) {n : Segment} {ns : List Segment}
    (hns : s.nodes = n :: ns) {first : NodeId} {rest : List NodeId}
    (htop : b.tree.top = first :: rest) (hwrap : (layoutOf {} indent b s).rewrap = false) :
    IsComment (b.print {} indent) ↔
      ¬ Collides (read rules declaration? raw) b (lineStart {} indent s.tokens) := by
  obtain ⟨hopening, seps, -, htrail, hend, hclosed⟩ := segments_of_isComment hs hraw hshort
  have hn : s.nodes[0]? = some n := by simp [hns]
  have hls : Harmless (lineStart {} indent s.tokens) :=
    hs ▸ (isLineStart_lineStart hindent raw).harmless
  have hheader := slice_header rules declaration? hs hn
  have hgap := fun id =>
    @closes_splicedGap rules declaration? raw s b hs hraw hshort h _ hls first id
    rest htop
  have hnode : ∀ id, closes (splicedNode (read rules declaration? raw) b _ id) = false :=
    closes_splicedNode hs hraw hls
  rw [print_of_not_rewrap hs h hns hdirty htop hwrap, Collides, htop, hheader, source_append,
    hopening, htrail]
  generalize read rules declaration? raw = b₀ at hgap hnode ⊢
  generalize lineStart {} indent s.tokens = ls at hgap hnode ⊢
  -- The parts that were there before are not closed.
  have hstart : closes ('*' :: source n.gap) = false := by
    refine closes_eq_false_of_isInfix ?_ hclosed
    refine ⟨[], source n.body ++ source (ns.flatMap Segment.tokens) ++ (source seps ++ ['*']), ?_⟩
    simp [hns, Segment.tokens]
  have hlast : closes (source seps ++ ['*']) = false := (closes_append_eq_false.1 hclosed).2.1
  have hspliced := closes_spliced hstart (hnode first) hlast hend
    (fun id hid => ⟨(hgap id hid).1, (hgap id hid).2.1, (hgap id hid).2.2.1⟩)
    (fun id _ => hnode id)
  have hsplit : ['/', '*', '*'] ++ source n.gap ++ (splicedNode b₀ b ls first ++
      rest.flatMap fun id => splicedGap b₀ ls id ++ splicedNode b₀ b ls id) ++
        (source seps ++ ['*', '/']) =
      '/' :: '*' :: (('*' :: source n.gap) ++ (splicedNode b₀ b ls first ++
        rest.flatMap fun id => splicedGap b₀ ls id ++ splicedNode b₀ b ls id) ++
          (source seps ++ ['*']) ++ ['/']) := by simp
  have hstar : (['/', '*', '*'] ++ source n.gap).getLast? = ('*' :: source n.gap).getLast? :=
    List.getLast?_append_of_ne_nil ['/', '*'] (List.cons_ne_nil '*' (source n.gap))
  have hlast' (u : Text) : (u ++ (source seps ++ ['*'])).getLast? = some '*' := by
    rw [← List.append_assoc, List.getLast?_concat]
  rw [hsplit, isComment_iff_closes rfl (hlast' _), ← Bool.not_eq_true, hspliced]
  refine not_congr (or_congr ?_ ?_)
  · rw [← hstar, ← singleton_suffix_iff, ← singleton_prefix_iff]
    constructor
    · rintro ⟨hsuffix, hpre⟩
      exact ⟨first, rfl, hsuffix, hpre⟩
    · rintro ⟨id, hid, hsuffix, hpre⟩
      obtain rfl : first = id := Option.some.inj hid
      exact ⟨hsuffix, hpre⟩
  · refine exists_congr fun id => and_congr_right fun hid => ?_
    rw [(hgap id hid).2.2.2, singleton_prefix_iff]
    constructor
    · rintro ⟨⟨k, hk, hsuffix⟩, hpre⟩
      exact ⟨k, hk, hsuffix, hpre⟩
    · rintro ⟨k, hk, hsuffix, hpre⟩
      exact ⟨⟨k, hk, hsuffix⟩, hpre⟩

end

/-- An edited comment prints as nothing or as a comment, unless a node that starts with a slash
comes to stand directly behind a star. -/
theorem isComment_print_iff (rules : Rules) (declaration? : Option Nat) {raw : Text}
    (as : List Action) {indent : Text} (hraw : IsComment raw) (hindent : ∀ c ∈ indent, isBlank c) :
    let b₀ := read rules declaration? raw
    let b := b₀.act as
    (b.print {} indent = [] ∨ IsComment (b.print {} indent)) ↔
      ¬ Misprints b₀ b (lineStart {} indent b₀.tokens) := by
  obtain ⟨s, hs⟩ := exists_segments (scan raw)
  have h : Derives (read rules declaration? raw) _ :=
    derives_act (Tree.unedited_ofTokens rules (scan raw)) as
  intro b₀ b
  change Derives b₀ b at h
  by_cases hdirty : b.dirty
  swap
  · have hprint : b.print {} indent = raw := by
      rw [print, if_pos (by simpa using hdirty), h.raw]
      rfl
    rw [hprint]
    simp [hraw, Misprints, hdirty]
  by_cases htop : b.tree.top = []
  · have hprint : b.print {} indent = [] := by
      rw [print, if_neg (by simp [hdirty]), if_pos htop]
    simp [hprint, Misprints, Collides, htop]
  have hstays := stays_iff rules declaration? indent hs htop
  by_cases hlines : s.nodes = [] ∨ (layoutOf {} indent b s).rewrap
  · have hcomment := isComment_print_on_lines hs hraw h hindent hdirty htop hlines
    have hnot : ¬ Misprints b₀ b (lineStart {} indent b₀.tokens) := fun hmisprints =>
      hstays.2 ⟨hmisprints.2.1, hmisprints.2.2.1⟩ hlines
    simp [hcomment, hnot]
  · obtain ⟨hread, hplace⟩ : b₀.tree.top ≠ [] ∧
        ((∃ t ∈ b₀.tokens, t.kind = .lineBreak) ∨ b.tree.top.length = 1) := hstays.1 hlines
    obtain ⟨hne, hwrap⟩ := not_or.1 hlines
    rw [Bool.not_eq_true] at hwrap
    obtain ⟨n, ns, hns⟩ := List.exists_cons_of_ne_nil hne
    obtain ⟨first, rest, hrest⟩ := List.exists_cons_of_ne_nil htop
    have hprint : b.print {} indent ≠ [] := by
      rw [print_of_not_rewrap hs h hns hdirty hrest hwrap, source_append,
        source_opening_of_isComment hs hraw hne]
      simp
    have hraw₀ : b₀.raw = raw := rfl
    rw [Misprints, hraw₀]
    simp only [hprint, hdirty, hread, hplace, false_or, true_and, ne_eq, not_false_eq_true]
    split_ifs with hshort
    · subst hshort
      have hnone : ¬ ∃ t ∈ scan "/**/".toList, t.kind = .lineBreak := by decide +kernel
      have hone := hplace.resolve_left hnone
      have hid : b.tree.top = [first] := by
        rw [hrest, List.length_cons, Nat.add_eq_right, List.length_eq_zero_iff] at hone
        rw [hrest, hone]
      rw [isComment_print_shortest hs h hindent hdirty hne hid, hid, hs]
      simp [b₀]
      rfl
    · rw [isComment_print_of_not_rewrap hs hraw h hindent hdirty hshort hns hrest hwrap, hs]
      rfl

/-- Text that closes comments is written into a paragraph. -/
theorem isComment_print_closing_text :
    let b₀ := read Rules.standard none "/**\n * A.\n */".toList
    let b := b₀.act [.change 0 (.text "*/\n*/".toList), .edit (.markChanged 0)]
    (IsComment b₀.raw ∧ ∀ c ∈ [' '], isBlank c) ∧
      b.print {} [' '] = "/**\n * *\\/\n * *\\/\n */".toList ∧
      (b.print {} [' '] = [] ∨ IsComment (b.print {} [' '])) :=
  ⟨⟨by decide +kernel, List.forall_mem_singleton.2 rfl⟩, by decide +kernel,
    (isComment_print_iff Rules.standard none _ (by decide +kernel)
      (List.forall_mem_singleton.2 rfl)).2 (by decide +kernel)⟩

/-- With the tag in front of it gone, a slash closes the comment behind the delimiter. -/
theorem not_isComment_print_removed_tag :
    let b₀ := read Rules.standard none "/**@a\n\n/foo */".toList
    let b := b₀.act [.edit (.removeTags "a".toList)]
    IsComment b₀.raw ∧ b.print {} [] = "/**/foo */".toList ∧
      ¬ (b.print {} [] = [] ∨ IsComment (b.print {} [])) := by
  decide +kernel

end Block

end DocComment
