import DocComment.Proofs.Block.Edited
import DocComment.Proofs.Block.LineStart
import DocComment.Proofs.Block.Splice
import DocComment.Proofs.Tree.Moved

/-!
# Reading a printed block again

After edits of tags a block prints as a text that is read as the nodes of the block, in order
(`contents_reload`). Nodes that were not touched have their text, and tags that were written are
read as what they say; so what is left to see is that the text around and between them is read as
separators that part them.
-/

namespace DocComment

open Text Token

/-! ### Gaps -/

namespace Part

variable {rules : Rules} {p : Part} {ls body : Text} {c : Node.Content}

lemma Parts.isRead (h : p.Parts) (hn : IsNode rules p.body p.content) : p.IsRead rules where
  node := hn
  gap i rest := by
    obtain ⟨ts, hsep, -, hscan⟩ := h.gap 0 i rest
    exact ⟨ts, hsep, trivial, hscan⟩

/-- The start of a new line parts a tag from what stands in front of it. -/
lemma parts_lineStart (hls : IsLineStart false ls) (hbody : body.head? = some '@')
    (hmarker : ∀ i, ∃ t ∈ (scanFrom false i body).head?, t.kind = .marker) :
    Parts ⟨ls, body, c⟩ where
  stops := hls.stops_append
  gap j i rest := by
    obtain ⟨t, ht, hkind⟩ := hmarker j
    refine ⟨[⟨.lineBreak, ls, i⟩], by simp [isSeparator], ?_, hls.scanFrom ?_ i⟩
    · dsimp only
      rw [Option.mem_def.1 ht, Option.any_some]
      simp [startsNode, breaks, hkind]
    · intro d hd
      cases body with
      | nil => cases hbody
      | cons e body =>
        cases hbody
        cases hd
        decide

end Part

/-- The start of a line of the printer's own making is the same in front of any text. -/
lemma Block.isGap_ownLineStart {indent : Text} (h : ∀ c ∈ indent, isBlank c) (body : Text) :
    Part.IsGap (ownLineStart {} indent) body fun _ => True := by
  obtain ⟨bl, hbl, hown⟩ := exists_ownLineStart_eq h
  rw [hown]
  exact Part.isGap_starred (.inl rfl) hbl body

/-! ### Openings -/

namespace Token

variable {x : Text}

lemma scan_of_not_isPrefix (h : ¬ ['/', '*'] <+: x) : scan x = scanFrom false 0 x := by
  rcases scan_cases x with ⟨stars, hstars, rest, rfl, -⟩ | hx
  · refine absurd ?_ h
    rcases hstars with rfl | rfl
    · exact ⟨'*' :: rest, rfl⟩
    · exact ⟨rest, rfl⟩
  · exact hx

/-- The delimiter is the same in front of any text that adds no star to it. -/
lemma scan_opening {stars : Text} (h : stars = ['*', '*'] ∨ stars = ['*'] ∧ x.head? ≠ some '*') :
    scan ('/' :: stars ++ x) =
      [⟨.opening, '/' :: stars, 0⟩] ++ scanFrom false (1 + stars.length) x := by
  rcases h with rfl | ⟨rfl, hx⟩
  · rfl
  · cases x with
    | nil => rfl
    | cons c x =>
      have hc : c ≠ '*' := fun hc => hx (hc ▸ rfl)
      simp [scan, hc]

/-- Where a text stops another one, a slash and a star come about only as a delimiter that ends at
once. -/
lemma isPrefix_of_stops {y : Text} (hx : x ≠ []) (hy : stops y) (h : ['/', '*'] <+: x ++ y) :
    ['/', '*'] <+: x ∨ ['/', '*', '/'] <+: x ++ y := by
  obtain ⟨r, hr⟩ := h
  cases x with
  | nil => exact absurd rfl hx
  | cons c x =>
    obtain ⟨rfl, hrest⟩ := List.cons.inj hr
    cases x with
    | nil =>
      right
      rcases stops_cases hy with rfl | ⟨s, rfl⟩ | ⟨s, rfl⟩ | ⟨d, s, rfl, hd⟩
      · cases hrest
      · cases hrest
      · exact ⟨s, rfl⟩
      · obtain ⟨rfl, -⟩ := List.cons.inj hrest
        exact absurd hd (by decide)
    | cons d x =>
      obtain ⟨rfl, -⟩ := List.cons.inj hrest
      exact .inl ⟨x, rfl⟩

end Token

namespace Segments

variable {raw : Text} {s : Segments}

/-- The delimiter of a comment, and what it may stand in front of. -/
lemma opening_of_scan (hs : s.tokens = scan raw) :
    (∃ stars : Text, source s.opening = '/' :: stars ∧ (stars = ['*', '*'] ∨ stars = ['*'] ∧
      (source (s.nodes.flatMap Segment.tokens ++ s.trail)).head? ≠ some '*')) ∨
    s.opening = [] ∧ ¬ ['/', '*'] <+: raw := by
  -- A text that starts with a slash and a star has a delimiter.
  have hopening : ∀ r : Text, ∃ stars x, '/' :: '*' :: r = '/' :: stars ++ x ∧
      (stars = ['*', '*'] ∨ stars = ['*'] ∧ x.head? ≠ some '*') := by
    intro r
    by_cases hr : r.head? = some '*'
    · obtain ⟨r', rfl⟩ := List.head?_eq_some_iff.1 hr
      exact ⟨['*', '*'], r', rfl, .inl rfl⟩
    · exact ⟨['*'], r, rfl, .inr ⟨rfl, hr⟩⟩
  have htokens : s.opening ++ (s.nodes.flatMap Segment.tokens ++ s.trail) = scan raw := by
    rw [← hs, Segments.tokens, List.append_assoc]
  by_cases hraw : ['/', '*'] <+: raw
  · obtain ⟨r, rfl⟩ := hraw
    obtain ⟨stars, x, hx, hstars⟩ := hopening r
    rw [List.cons_append, List.cons_append, List.nil_append, hx, scan_opening hstars] at htokens
    rcases s.opening_cases with ⟨t, ht, -⟩ | ⟨hnil, hhead⟩
    · rw [ht, List.singleton_append, List.singleton_append] at htokens
      obtain ⟨rfl, hrest⟩ := List.cons.inj htokens
      refine .inl ⟨stars, by simp [ht], ?_⟩
      rwa [hrest, source_scanFrom]
    · rw [hnil, List.nil_append] at htokens
      exact absurd rfl (hhead ⟨.opening, '/' :: stars, 0⟩ (by simp [htokens]))
  · refine .inr ⟨?_, hraw⟩
    rcases s.opening_cases with ⟨t, ht, hkind⟩ | ⟨hnil, -⟩
    · rw [scan_of_not_isPrefix hraw, ht] at htokens
      have hmem : t ∈ scanFrom false 0 raw := by simp [← htokens]
      exact absurd hkind (kind_ne_opening hmem)
    · exact hnil

/-- In place of its first node, a text that starts like it or like a tag leaves the delimiter as it
is, unless a new one comes about. -/
lemma scan_in_place (hs : s.tokens = scan raw) {n : Segment} {ns : List Segment}
    (hns : s.nodes = n :: ns) {body y : Text} (hne : body ≠ [])
    (hbody : body.head? = (source n.body).head? ∨ body.head? = some '@')
    (hslash : raw = source n.body ++ source (ns.flatMap Segment.tokens ++ s.trail) →
      source s.opening ++ (source n.gap ++ (body ++ y)) = body ++ y → ['/', '*'] <+: body ++ y →
        ['/', '*'] <+: raw) :
    ∃ ts j, (ts = [] ∨ ∃ t, ts = [t] ∧ t.kind = .opening) ∧
      scan (source s.opening ++ (source n.gap ++ (body ++ y))) =
        ts ++ scanFrom false j (source n.gap ++ (body ++ y)) := by
  have hnodes : source (s.nodes.flatMap Segment.tokens ++ s.trail) =
      source n.gap ++ (source n.body ++ source (ns.flatMap Segment.tokens ++ s.trail)) := by
    simp [hns, Segment.tokens]
  have hraw : raw = source s.opening ++ source (s.nodes.flatMap Segment.tokens ++ s.trail) := by
    rw [← source_scan raw, ← hs, Segments.tokens, List.append_assoc, source_append]
  rcases opening_of_scan hs with ⟨stars, hstars, hcases⟩ | ⟨hnil, hnot⟩
  · rw [hstars]
    refine ⟨_, _, .inr ⟨_, rfl, rfl⟩, scan_opening (hcases.imp_right ?_)⟩
    rintro ⟨hone, hhead⟩
    refine ⟨hone, fun hstar => hhead ?_⟩
    rw [hnodes]
    by_cases hgap : source n.gap = []
    · rw [hgap, List.nil_append] at hstar ⊢
      rw [List.head?_append_of_ne_nil _ hne] at hstar
      rcases hbody with hbody | hbody
      · rw [List.head?_append, ← hbody, hstar]
        rfl
      · rw [hbody] at hstar
        cases hstar
    · rw [List.head?_append_of_ne_nil _ hgap] at hstar ⊢
      exact hstar
  · refine ⟨[], 0, .inl rfl, ?_⟩
    rw [hnil, source_nil, List.nil_append] at hslash hraw ⊢
    refine scan_of_not_isPrefix fun hpre => hnot ?_
    have hgap : n.gap = [] := by
      by_contra hgap
      obtain ⟨hne', hhead⟩ := head?_source_gap hs (k := 0) (by simp [hns]) hgap
      obtain ⟨r, hr⟩ := hpre
      have hslash := congrArg List.head? hr
      rw [List.head?_append_of_ne_nil _ hne'] at hslash
      exact hhead hslash.symm
    rw [hgap, source_nil, List.nil_append] at hpre hslash hnodes
    exact hslash (hraw.trans hnodes) rfl hpre

/-- A comment with two nodes has two lines. -/
lemma hasBreak_of_pos {k : Nat} {n : Segment} (hk : 0 < k) (hn : s.nodes[k]? = some n) :
    s.hasBreak = true := by
  have hstarts := starts_of_pos hk hn
  obtain ⟨t, us, hbody, -⟩ := n.solid.exists_cons
  rw [Segment.starts, hbody, List.head?_cons, Option.any_some] at hstarts
  have hbreaks : 0 < breaks n.gap := by
    simp only [startsNode, Bool.or_eq_true, Bool.and_eq_true, decide_eq_true_eq] at hstarts
    omega
  obtain ⟨g, hg, hkind⟩ := List.countP_pos_iff.1 hbreaks
  rw [hasBreak, List.any_eq_true]
  exact ⟨g, by simp [tokens_eq hn, hg], hkind⟩

end Segments

/-! ### Nodes -/

namespace Block

variable {rules : Rules} {declaration? : Option Nat} {raw : Text} {s : Segments} {b : Block}
  {indent ls : Text} {id : NodeId}

section

variable (hs : s.tokens = scan raw) (h : Edited (·.Reloads rules) (read rules declaration? raw) b)

include hs

omit h in
lemma content?_read {k : Nat} {n : Segment} (hn : s.nodes[k]? = some n)
    (hid : (read rules declaration? raw).tree.top[k]? = some id) :
    (read rules declaration? raw).tree.content? id =
      some (Node.Content.ofTokens rules n.body) := by
  have hcontents : (read rules declaration? raw).tree.contents =
      s.nodes.map fun n => some (Node.Content.ofTokens rules n.body) := by
    rw [← contents_ofTokens, hs]
    rfl
  have hget := congrArg (·[k]?) hcontents
  simp only [Tree.contents, List.getElem?_map, hid, hn, Option.map_some] at hget
  exact Option.some.inj hget

include h

/-- A node is one that was read, with its text, or a tag that was written. -/
lemma splicedNode_cases (hid : id ∈ b.tree.top) (ls : Text) :
    (∃ k n, s.nodes[k]? = some n ∧ (read rules declaration? raw).tree.top.idxOf? id = some k ∧
      splicedNode (read rules declaration? raw) b ls id = source n.body ∧
      b.tree.content? id = some (Node.Content.ofTokens rules n.body)) ∨
    ∃ c : Node.Content, c.Reloads rules ∧ b.tree.content? id = some c ∧
      splicedNode (read rules declaration? raw) b ls id = joinLines ls (c.write rules.types) := by
  have h₀ := Tree.unedited_ofTokens rules (scan raw)
  have hrules : b.rules = rules := h.derives.rules
  rcases h.content? id hid with ⟨hmodified, hcontent⟩ | ⟨hmodified, c, hcontent, hc⟩
  · left
    have hread : id ∈ (read rules declaration? raw).tree.top := by
      by_contra hnot
      rw [← h.derives.isSynthesized_iff h₀ hid] at hnot
      rw [isModified_of_isSynthesized hnot] at hmodified
      cases hmodified
    obtain ⟨k, hk⟩ := Option.isSome_iff_exists.1 (List.isSome_idxOf?.2 hread)
    obtain ⟨hlt, hget, -⟩ := List.idxOf?_eq_some_iff.1 hk
    have hat := List.getElem?_eq_some_iff.2 ⟨hlt, hget⟩
    obtain ⟨n, hn, -⟩ := exists_segment hs h.derives hat
    refine ⟨k, n, hn, hk, ?_, ?_⟩
    · rw [splicedNode, hk]
      dsimp only
      rw [if_neg (by simp [hmodified]), slice_node hs hn]
    · rw [hcontent, content?_read hs hn hat]
  · refine .inr ⟨c, hc, hcontent, ?_⟩
    have hwrite : b.write id = c.write rules.types := by
      rw [write, hrules, Tree.write_eq_of_content? hcontent]
    rw [splicedNode, hwrite, joinLines_eq_canonicalText]
    split
    · rw [if_pos hmodified]
    · rfl

/-- The text of a node is read as what the node says. -/
lemma isNode_splicedNode (hrules : rules.IsUsual) (hr : pairsReturns raw)
    (hls : IsLineStart false ls) (hid : id ∈ b.tree.top) : ∃ c, b.tree.content? id = some c ∧
      Part.IsNode rules (splicedNode (read rules declaration? raw) b ls id) c := by
  rcases splicedNode_cases hs h hid ls with
    ⟨k, n, hn, -, htext, hcontent⟩ | ⟨c, hc, hcontent, htext⟩
  · exact ⟨_, hcontent, htext ▸ Segments.isNode_body hs hn rules hr⟩
  · exact ⟨c, hcontent, htext ▸ hc.isNode hrules hls⟩

/-- Only the first node that is put on a line of its own may have been read. -/
lemma not_mem_read_of_on_lines {p : Printer} {first : NodeId} {rest : List NodeId}
    (hwrap : s.nodes = [] ∨ (layoutOf p indent b s).rewrap) (htop : b.tree.top = first :: rest)
    (hid : id ∈ rest) : id ∉ (read rules declaration? raw).tree.top := by
  intro hread
  obtain ⟨k, hk⟩ := List.mem_iff_getElem?.1 hread
  obtain ⟨n, hn, -⟩ := exists_segment hs h.derives hk
  have hpos := h.derives.pos_of_mem_tail (Tree.unedited_ofTokens rules (scan raw)) htop hid hk
  rcases hwrap with hnil | hwrap
  · simp [hnil] at hn
  · simp [layoutOf, Segments.hasBreak_of_pos hpos hn] at hwrap

/-- A new node starts with a marker. -/
lemma marker_of_not_mem (hid : id ∈ b.tree.top)
    (hread : id ∉ (read rules declaration? raw).tree.top) (ls : Text) :
    (splicedNode (read rules declaration? raw) b ls id).head? = some '@' ∧
      ∀ i, ∃ t ∈ (scanFrom false i (splicedNode (read rules declaration? raw) b ls id)).head?,
        t.kind = .marker := by
  rcases splicedNode_cases hs h hid ls with ⟨k, n, -, hk, -⟩ | ⟨c, hc, -, htext⟩
  · exact absurd (List.isSome_idxOf?.1 (Option.isSome_of_eq_some hk)) hread
  · rw [htext]
    exact hc.marker ls

/-- A node that was read starts as it did, or with a marker. -/
lemma start_of_read {k : Nat} {n : Segment} (hid : id ∈ b.tree.top)
    (hk : (read rules declaration? raw).tree.top.idxOf? id = some k) (hn : s.nodes[k]? = some n)
    (ls : Text) :
    ((splicedNode (read rules declaration? raw) b ls id).head? = (source n.body).head? ∨
        (splicedNode (read rules declaration? raw) b ls id).head? = some '@') ∧
      ∀ j, ∃ t ∈ (scanFrom false j (splicedNode (read rules declaration? raw) b ls id)).head?,
        t.kind ∈ n.body.head?.map Token.kind ∨ t.kind = .marker := by
  rcases splicedNode_cases hs h hid ls with ⟨k', n', hn', hk', htext, -⟩ | ⟨c, hc, -, htext⟩
  · obtain rfl : k = k' := Option.some.inj (hk.symm.trans hk')
    obtain rfl : n = n' := Option.some.inj (hn.symm.trans hn')
    rw [htext]
    refine ⟨.inl rfl, fun j => ?_⟩
    have hlex := Segments.map_lexeme_body hs hn j
    obtain ⟨t, us, hbody, -⟩ := n.solid.exists_cons
    rw [hbody] at hlex
    obtain ⟨u, vs, hscan, hkind, -⟩ := exists_of_map_lexeme_cons hlex
    rw [hbody, hscan]
    exact ⟨u, rfl, .inl (hkind ▸ rfl)⟩
  · obtain ⟨hhead, hmarker⟩ := hc.marker ls
    rw [htext]
    refine ⟨.inr hhead, fun j => ?_⟩
    obtain ⟨t, ht, hkind⟩ := hmarker j
    exact ⟨t, ht, .inr hkind⟩

/-- What stands in front of a node that is not the first parts it from the one before. -/
lemma parts_splicedGap {first : NodeId} {rest : List NodeId} (hls : IsLineStart false ls)
    (htop : b.tree.top = first :: rest) (hid : id ∈ rest) {c : Node.Content} :
    Part.Parts ⟨splicedGap (read rules declaration? raw) ls id,
      splicedNode (read rules declaration? raw) b ls id, c⟩ := by
  have hmem : id ∈ b.tree.top := htop ▸ List.mem_cons_of_mem _ hid
  cases hk : (read rules declaration? raw).tree.top.idxOf? id with
  | none =>
    rw [splicedGap, hk]
    obtain ⟨hhead, hmarker⟩ := marker_of_not_mem hs h hmem (List.idxOf?_eq_none_iff.1 hk) ls
    exact Part.parts_lineStart hls hhead hmarker
  | some k =>
    obtain ⟨hlt, hget, -⟩ := List.idxOf?_eq_some_iff.1 hk
    have hat := List.getElem?_eq_some_iff.2 ⟨hlt, hget⟩
    obtain ⟨n, hn, -⟩ := exists_segment hs h.derives hat
    have hpos := h.derives.pos_of_mem_tail (Tree.unedited_ofTokens rules (scan raw)) htop hid hat
    have hgap : splicedGap (read rules declaration? raw) ls id = source n.gap := by
      rw [splicedGap, hk]
      exact slice_gap hs hpos hn
    obtain ⟨hhead, hkind⟩ := start_of_read hs h hmem hk hn ls
    rw [hgap]
    exact Segments.parts_gap hs hn hpos hhead hkind

end

/-! ### The printed parts -/

/-- Comments on lines of their own start with a slash and one star or two. -/
lemma openingText_eq (hs : s.tokens = scan raw) :
    ∃ stars, openingText s = '/' :: stars ∧ (stars = ['*', '*'] ∨ stars = ['*']) := by
  unfold openingText
  split_ifs with hnone
  · exact ⟨_, rfl, .inl rfl⟩
  · rcases Segments.opening_of_scan hs with ⟨stars, hstars, hcases⟩ | ⟨hnil, -⟩
    · exact ⟨stars, hstars, hcases.imp_right And.left⟩
    · exact absurd (.inr hnil) hnone

/-- A node of an edited block with what stands in front of it. -/
def part (b₀ b : Block) (ls gap : Text) (id : NodeId) : Part :=
  ⟨gap, splicedNode b₀ b ls id, (b.tree.content? id).getD (.prose [])⟩

/-- The last line of a comment of the printer's own making closes it. -/
lemma closing_closingLine (hindent : ∀ c ∈ indent, isBlank c) :
    stops (closingLine (ownLineStart {} indent)) ∧ ∀ i, ∀ t ∈
      ((scanFrom false i (closingLine (ownLineStart {} indent))).dropWhile isSeparator).head?,
        t.kind = .closing := by
  obtain ⟨bl, hbl, hown⟩ := exists_ownLineStart_eq hindent
  rw [hown]
  exact closing_closingLine_starred (.inl rfl) hbl

section

variable (hs : s.tokens = scan raw) (h : Edited (·.Reloads rules) (read rules declaration? raw) b)
  (hrules : rules.IsUsual) (hr : pairsReturns raw) (hindent : ∀ c ∈ indent, isBlank c)

include hs h hrules hr

/-- What the parts of a printed block say is what its nodes say. -/
lemma node_part (hls : IsLineStart false ls) (gap : Text) (hid : id ∈ b.tree.top) :
    Part.IsNode rules (part (read rules declaration? raw) b ls gap id).body
        (part (read rules declaration? raw) b ls gap id).content ∧
      some (part (read rules declaration? raw) b ls gap id).content = b.tree.content? id := by
  obtain ⟨c, hc, hnode⟩ := isNode_splicedNode hs h hrules hr hls hid
  rw [part, hc]
  exact ⟨hnode, rfl⟩

include hindent

/-- A block whose nodes stand on lines of their own is read as its nodes. -/
lemma contents_on_lines (hdirty : b.dirty) (htop : b.tree.top ≠ [])
    (hwrap : s.nodes = [] ∨ (layoutOf {} indent b s).rewrap) :
    (Tree.ofTokens rules (scan (b.print {} indent))).contents = b.tree.contents := by
  have hown := isLineStart_ownLineStart hindent false
  let parts := b.tree.top.map fun id =>
    part (read rules declaration? raw) b (ownLineStart {} indent) (ownLineStart {} indent) id
  have hprint : b.print {} indent = openingText s ++
      (parts.flatMap Part.text ++ closingLine (ownLineStart {} indent)) := by
    rw [print_on_lines hs h.derives hdirty htop hwrap, List.flatMap_map, List.append_assoc]
    rfl
  have hcontents : b.tree.contents = parts.map fun p => some p.content := by
    rw [Tree.contents, List.map_map]
    exact List.map_congr_left fun id hid => (node_part hs h hrules hr hown _ hid).2.symm
  rw [hprint, hcontents]
  refine contents_of_parts rules ?_ ?_ ?_ (closing_closingLine hindent).1
    (closing_closingLine hindent).2
  · intro p hp
    obtain ⟨id, hid, rfl⟩ := List.mem_map.1 hp
    exact ⟨(node_part hs h hrules hr hown _ hid).1, isGap_ownLineStart hindent _⟩
  · intro p hp
    obtain ⟨first, rest, hrest⟩ := List.exists_cons_of_ne_nil htop
    have hparts : parts.tail = rest.map fun id => part (read rules declaration? raw) b
        (ownLineStart {} indent) (ownLineStart {} indent) id := by simp [parts, hrest]
    rw [hparts] at hp
    obtain ⟨id, hid, rfl⟩ := List.mem_map.1 hp
    have hmem : id ∈ b.tree.top := hrest ▸ List.mem_cons_of_mem _ hid
    have hnew := not_mem_read_of_on_lines hs h hwrap hrest hid
    obtain ⟨hhead, hmarker⟩ := marker_of_not_mem hs h hmem hnew (ownLineStart {} indent)
    exact Part.parts_lineStart hown hhead hmarker
  · obtain ⟨stars, hstars, hcases⟩ := openingText_eq hs
    have hhead : (parts.flatMap Part.text ++ closingLine (ownLineStart {} indent)).head? ≠
        some '*' := by
      obtain ⟨first, rest, hrest⟩ := List.exists_cons_of_ne_nil htop
      simp [parts, hrest, Part.text, part, ownLineStart]
    rw [hstars]
    exact ⟨_, _, .inr ⟨_, rfl, rfl⟩, scan_opening (hcases.imp_right fun hone => ⟨hone, hhead⟩)⟩

/-- A block whose first node stands where the first one was read is read as its nodes, unless its
text starts with a delimiter that it had not. -/
lemma contents_in_place {n : Segment} {ns : List Segment} {first : NodeId} {rest : List NodeId}
    (hns : s.nodes = n :: ns) (hdirty : b.dirty) (htop : b.tree.top = first :: rest)
    (hfirst : (read rules declaration? raw).tree.top.idxOf? first = some 0)
    (hwrap : (layoutOf {} indent b s).rewrap = false)
    (hstart : ['/', '*', '/'] <+: b.print {} indent → ['/', '*'] <+: raw) :
    (Tree.ofTokens rules (scan (b.print {} indent))).contents = b.tree.contents := by
  have hls : IsLineStart false (lineStart {} indent s.tokens) :=
    hs ▸ isLineStart_lineStart hindent raw
  generalize hlineStart : lineStart {} indent s.tokens = ls at hls
  have hn : s.nodes[0]? = some n := by simp [hns]
  have hmem : ∀ id ∈ rest, id ∈ b.tree.top := fun id hid => htop ▸ List.mem_cons_of_mem _ hid
  have hmem₀ : first ∈ b.tree.top := htop ▸ List.mem_cons_self
  let b₀ := read rules declaration? raw
  let parts := part b₀ b ls (source n.gap) first ::
    rest.map fun id => part b₀ b ls (splicedGap b₀ ls id) id
  have hprint : b.print {} indent =
      source s.opening ++ (parts.flatMap Part.text ++ source s.trail) := by
    rw [print_of_not_rewrap hs h.derives hns hdirty htop hwrap, hlineStart]
    simp only [parts, part, Part.text, List.flatMap_cons, List.flatMap_map, source_append,
      List.append_assoc]
    rfl
  have hcontents : b.tree.contents = parts.map fun p => some p.content := by
    rw [Tree.contents, htop, List.map_cons, List.map_cons, List.map_map]
    congr 1
    · exact (node_part hs h hrules hr hls _ hmem₀).2.symm
    · exact List.map_congr_left fun id hid => (node_part hs h hrules hr hls _ (hmem id hid)).2.symm
  have hpartsTail : ∀ p ∈ parts.tail, p.Parts := by
    intro p hp
    obtain ⟨id, hid, rfl⟩ := List.mem_map.1 hp
    exact parts_splicedGap hs h hls htop hid
  obtain ⟨hhead, hkind⟩ := start_of_read hs h hmem₀ hfirst hn ls
  have hne : splicedNode b₀ b ls first ≠ [] := by
    intro hnil
    obtain ⟨t, ht, -⟩ := hkind 0
    simp [b₀, hnil] at ht
  have hslash : ['/', '*'] <+: splicedNode b₀ b ls first → ['/', '*'] <+: source n.body := by
    rintro ⟨r, hr⟩
    rcases splicedNode_cases hs h hmem₀ ls with ⟨k, n', hn', hk, htext, -⟩ | ⟨c, hc, -, htext⟩
    · obtain rfl : 0 = k := Option.some.inj (hfirst.symm.trans hk)
      obtain rfl : n = n' := Option.some.inj (hn.symm.trans hn')
      exact ⟨r, hr.trans htext⟩
    · have hmarker := (hc.marker ls).1
      rw [← htext, ← hr] at hmarker
      cases hmarker
  have htext : parts.flatMap Part.text ++ source s.trail = source n.gap ++
      (splicedNode b₀ b ls first ++ (parts.tail.flatMap Part.text ++ source s.trail)) := by
    simp [parts, part, Part.text]
  rw [hprint, hcontents]
  refine contents_of_parts rules ?_ hpartsTail ?_ (Segments.stops_trail hs)
    (Segments.head_scanFrom_trail hs (by simp [hns]))
  · intro p hp
    rcases List.mem_cons.1 hp with rfl | hp
    · refine ⟨(node_part hs h hrules hr hls _ hmem₀).1, fun i rest => ?_⟩
      obtain ⟨ts, hsep, -, hscan⟩ := Segments.isGap_gap hs hn hne hhead i rest
      exact ⟨ts, hsep, trivial, hscan⟩
    · obtain ⟨id, hid, rfl⟩ := List.mem_map.1 hp
      exact (hpartsTail _ hp).isRead (node_part hs h hrules hr hls _ (hmem id hid)).1
  · rw [htext] at hprint ⊢
    refine Segments.scan_in_place hs hns hne hhead fun hraw hwhole hpre => ?_
    have hstops := Part.stops_flatMap (fun p hp => hpartsTail p (List.mem_of_mem_head? hp))
      (Segments.stops_trail hs)
    rcases isPrefix_of_stops hne hstops hpre with hb | hall
    · rw [hraw]
      exact (hslash hb).trans (List.prefix_append _ _)
    · exact hstart (by rwa [hprint, hwhole])

end

/-- A block that is not dirty has the nodes that were read. -/
lemma contents_of_clean {b₀ : Block} {spans : List Span} {cs : List Node.Content}
    {good : Node.Content → Prop} (h₀ : b₀.tree.Unedited spans cs) (ha : Accounts b₀ b)
    (h : Edited good b₀ b) (hclean : b.dirty = false) : b.tree.contents = b₀.tree.contents := by
  have hnot : ¬ (b.removedRead ∨ ∃ id ∈ b.tree.top, b.tree.isModified id) := by
    rw [← ha.dirty, hclean]
    simp
  obtain ⟨hremoved, hmodified⟩ := not_or.1 hnot
  rw [ha.removedRead] at hremoved
  obtain ⟨kept, new, htop, hsub, -, hnew⟩ := ha.derives.top
  have hnil : new = [] := by
    refine List.eq_nil_iff_forall_not_mem.2 fun id hid => hmodified ⟨id, by simp [htop, hid], ?_⟩
    exact isModified_of_isSynthesized (hnew id hid).2.2
  have hkept : kept = b₀.tree.top := by
    refine hsub.eq_of_length_le (List.subperm_of_subset ?_ fun id hid => ?_).length_le
    · exact h₀.sorted.imp Nat.ne_of_lt
    · by_contra hid'
      exact hremoved ⟨id, hid, by simpa [htop, hnil] using hid'⟩
  have hsame : b.tree.top = b₀.tree.top := by rw [htop, hnil, List.append_nil, hkept]
  rw [Tree.contents, Tree.contents, hsame]
  refine List.map_congr_left fun id hid => ?_
  rcases h.content? id (hsame ▸ hid) with ⟨-, hcontent⟩ | ⟨hid', -⟩
  · exact hcontent
  · exact absurd ⟨id, hsame ▸ hid, hid'⟩ hmodified

section

variable (hs : s.tokens = scan raw) (h : Edited (·.Reloads rules) (read rules declaration? raw) b)

include hs h

/-- Where a node was read, the first one that was is first again if it is left. -/
lemma idxOf?_first {first : NodeId} {rest : List NodeId} (hne : s.nodes ≠ [])
    (htop : b.tree.top = first :: rest)
    (hfirst : ∀ id ∈ (read rules declaration? raw).tree.top.head?, id ∈ b.tree.top) :
    (read rules declaration? raw).tree.top.idxOf? first = some 0 := by
  have hread : (read rules declaration? raw).tree.top ≠ [] := by
    rw [← List.length_pos_iff, length_top_read rules declaration? hs]
    exact List.length_pos_iff.2 hne
  obtain ⟨id, ids, hids⟩ := List.exists_cons_of_ne_nil hread
  have hid : id ∈ b.tree.top := hfirst id (by simp [hids])
  rw [htop, List.mem_cons] at hid
  rcases hid with rfl | hid
  · simp [hids, List.idxOf?_cons]
  · have hpos := h.derives.pos_of_mem_tail (k := 0) (Tree.unedited_ofTokens rules (scan raw))
      htop hid
      (by simp [hids])
    exact absurd hpos (Nat.lt_irrefl 0)

/-- However a block prints, it is read as its nodes. -/
lemma contents_print (ha : Accounts (read rules declaration? raw) b) (hrules : rules.IsUsual)
    (hr : pairsReturns raw) (hindent : ∀ c ∈ indent, isBlank c)
    (hfirst : ∀ id ∈ (read rules declaration? raw).tree.top.head?, id ∈ b.tree.top)
    (hstart : ['/', '*', '/'] <+: b.print {} indent → ['/', '*'] <+: raw) :
    (Tree.ofTokens rules (scan (b.print {} indent))).contents = b.tree.contents := by
  by_cases hdirty : b.dirty
  · cases htop : b.tree.top with
    | nil =>
      rw [print, hdirty, if_neg (by simp), if_pos htop, Tree.contents, Tree.contents, htop]
      simp [scan, Tree.ofTokens, Token.spans, afterOpening, indexed, contentIndexes, Span.group,
        Tree.lastPosition?]
    | cons first rest =>
      by_cases hwrap : s.nodes = [] ∨ (layoutOf {} indent b s).rewrap
      · exact contents_on_lines hs h hrules hr hindent hdirty (by simp [htop]) hwrap
      · obtain ⟨hne, hwrap⟩ := not_or.1 hwrap
        obtain ⟨n, ns, hns⟩ := List.exists_cons_of_ne_nil hne
        exact contents_in_place hs h hrules hr hindent hns hdirty htop
          (idxOf?_first hs h hne htop hfirst) (by simpa using hwrap) hstart
  · have hclean : b.dirty = false := by simpa using hdirty
    rw [contents_of_clean (Tree.unedited_ofTokens rules (scan raw)) ha h hclean, print, hclean,
      if_pos (by simp), h.derives.raw]
    rfl

end

/-- Save and reload keeps every tag. After adding, replacing and removing tags whose names and
payloads fit on lines of a comment, a block prints as a text that is read as its nodes, in order, if
the first node that was read is left and the text starts with no delimiter that was not there. -/
theorem contents_reload {rules : Rules} (declaration? : Option Nat) {raw? : Option Text}
    {os : List Operation} {indent : Text}
    (hrules : (∃ types, rules = .empty types) ∨ rules = .standard ∧ ∀ o ∈ os, o.IsStable rules)
    (hr : pairsReturns (raw?.getD [])) (hos : ∀ o ∈ os, o.EditsTags)
    (hindent : ∀ c ∈ indent, isBlank c) :
    let b₀ := ofComment rules declaration? raw?
    let b := b₀.run os
    (∀ id ∈ b₀.tree.top.head?, id ∈ b.tree.top) →
    (['/', '*', '/'] <+: b.print {} indent → ['/', '*'] <+: raw?.getD []) →
    (read rules declaration? (b.print {} indent)).tree.contents = b.tree.contents := by
  intro b₀ b hfirst hstart
  have husual : rules.IsUsual := hrules.imp_right And.left
  have hstable : ∀ o ∈ os, o.IsStable rules := by
    rcases hrules with ⟨types, rfl⟩ | ⟨-, hstable⟩
    · exact fun o _ => Operation.isStable_empty types o
    · exact hstable
  have hread : b₀ = read rules declaration? (raw?.getD []) :=
    ofComment_eq_read rules declaration? raw?
  rw [hread] at hfirst
  obtain ⟨s, hs⟩ := exists_segments (scan (raw?.getD []))
  have h₀ := Tree.unedited_ofTokens rules (scan (raw?.getD []))
  have h := edited_run husual declaration? (raw?.getD []) hos hstable
  have ha := accounts_run (b := read rules declaration? (raw?.getD [])) h₀ rfl rfl os
  rw [← hread] at h ha
  exact contents_print hs (hread ▸ h) (hread ▸ ha) husual hr hindent hfirst hstart

/-- A comment on one line gets more lines, and a method that is added is read again. -/
theorem contents_reload_method :
    let b₀ := ofComment Rules.standard none (some "/** A. */".toList)
    let os : List Operation := [.addTag "x".toList "1".toList,
      .addTag "method".toList "static int f(int $a, $b)  one\ntwo".toList, .removeTags "x".toList]
    let b := b₀.run os
    ((∀ o ∈ os, o.IsStable Rules.standard) ∧ pairsReturns "/** A. */".toList ∧
      (∀ o ∈ os, o.EditsTags) ∧ (∀ c ∈ ['\t'], isBlank c) ∧
      (∀ id ∈ b₀.tree.top.head?, id ∈ b.tree.top) ∧
      (['/', '*', '/'] <+: b.print {} ['\t'] → ['/', '*'] <+: "/** A. */".toList)) ∧
      b.print {} ['\t'] =
        "/**\n\t * A.\n\t * @method static int f(int $a, $b) one\n\t * two\n\t */".toList ∧
      (read Rules.standard none (b.print {} ['\t'])).tree.contents = b.tree.contents :=
  ⟨⟨by decide +kernel, by decide +kernel, by decide +kernel, List.forall_mem_singleton.2 rfl,
      by decide +kernel, by decide +kernel⟩, by decide +kernel,
    contents_reload none (.inr ⟨rfl, by decide +kernel⟩) (by decide +kernel) (by decide +kernel)
      (List.forall_mem_singleton.2 rfl) (by decide +kernel) (by decide +kernel)⟩

/-- The slash of the first node and the end of the comment make a delimiter once the tag between
them is gone. -/
theorem not_contents_reload_split_delimiter :
    let b₀ := ofComment Rules.standard none (some "/\n@a*/foo".toList)
    let os : List Operation := [.removeTags "a".toList]
    let b := b₀.run os
    (∀ o ∈ os, o.IsStable Rules.standard) ∧ pairsReturns "/\n@a*/foo".toList ∧
      (∀ o ∈ os, o.EditsTags) ∧ (∀ id ∈ b₀.tree.top.head?, id ∈ b.tree.top) ∧
      b.print {} [] = "/*/foo".toList ∧ b.tree.contents = [some (.prose ['/'])] ∧
      (read Rules.standard none (b.print {} [])).tree.contents = [some (.prose "/foo".toList)] ∧
      (read Rules.standard none (b.print {} [])).tree.contents ≠ b.tree.contents := by
  decide +kernel

end Block

end DocComment
