import DocComment.Proofs.Block.LineStart

/-!
# Printing splices the original text

A block that was edited prints as the text that it was read from, with other text in the places of
the nodes that were changed, removed or added (`print_eq_splice`). The places are given by the bytes
that the nodes were read from; all other bytes are printed as they were. What is written anew is put
on lines that start like those of the comment (`IsLinePrefix`), character by character
(`canonicalText`).
-/

namespace DocComment

open Text Token

/-! ### The bytes of nodes -/

/-- The bytes from the start of the first token of a span up to the end of its last. -/
def Span.bytes? (ts : List Token) (s : Span) : Option (Nat × Nat) := do
  let first ← ts[s.start]?
  let last ← ts[s.stop - 1]?
  return (first.start, last.stop)

namespace Block

/-- The bytes that the top nodes were read from, in order. -/
def nodeBytes (b : Block) : List (Nat × Nat) :=
  b.tree.top.filterMap fun id => (b.tree.attributes.span? id).bind (·.bytes? b.tokens)

/-- The byte at which the node with this index starts. -/
def nodeStart (b : Block) (k : Nat) : Nat := (b.nodeBytes[k]?.map (·.1)).getD 0

/-- The byte at which the node with this index ends. -/
def nodeStop (b : Block) (k : Nat) : Nat := (b.nodeBytes[k]?.map (·.2)).getD 0

/-! ### Splicing -/

/-- What stands for a node of `b`: its bytes in the text of `b₀` if it was read from there and not
touched, or else its written form, on lines that start with `lineStart`. -/
def splicedNode (b₀ b : Block) (lineStart : Text) (id : NodeId) : Text :=
  match b₀.tree.top.idxOf? id with
  | some k =>
    if b.tree.isModified id then canonicalText lineStart (b.write id)
    else slice (b₀.nodeStart k) (b₀.nodeStop k) b₀.raw
  | none => canonicalText lineStart (b.write id)

/-- What stands in front of a node: the bytes between it and the node before it in the text of `b₀`
if it was read from there, or else the start of a line. -/
def splicedGap (b₀ : Block) (lineStart : Text) (id : NodeId) : Text :=
  match b₀.tree.top.idxOf? id with
  | some k => slice (b₀.nodeStop (k - 1)) (b₀.nodeStart k) b₀.raw
  | none => lineStart

/-- The text of `b₀` with the nodes of `b` in place of its own. -/
def splice (b₀ b : Block) (lineStart : Text) : Text :=
  slice 0 (b₀.nodeStart 0) b₀.raw ++
    (match b.tree.top with
      | [] => []
      | first :: rest =>
        splicedNode b₀ b lineStart first ++
          rest.flatMap fun id => splicedGap b₀ lineStart id ++ splicedNode b₀ b lineStart id)
    ++ slice (b₀.nodeStop (b₀.nodeBytes.length - 1)) (byteSize b₀.raw) b₀.raw

end Block

/-! ### Bytes and segments -/

namespace Segments

variable {s : Segments} {k : Nat} {n : Segment}

lemma bytes?_span (h : Consecutive 0 s.tokens) (hn : s.nodes[k]? = some n) :
    (s.span k n).bytes? s.tokens = some (byteSize (source (s.before k ++ n.gap)),
      byteSize (source (s.before k ++ n.tokens))) := by
  obtain ⟨t, us, hcons, -⟩ := n.solid.exists_cons
  obtain ⟨vs, u, happend, -⟩ := n.solid.exists_append
  have hfirst : s.tokens = (s.before k ++ n.gap) ++ t :: (us ++ s.after k) := by
    rw [tokens_eq hn, hcons, List.append_assoc, List.cons_append]
  have hlast : s.tokens = (s.before k ++ n.gap ++ vs) ++ u :: s.after k := by
    rw [tokens_eq hn, happend]
    simp
  have hstart : s.tokens[(s.span k n).start]? = some t := by
    rw [hfirst, span, List.getElem?_append_right (Nat.le_refl _), Nat.sub_self]
    rfl
  have hstop : s.tokens[(s.span k n).stop - 1]? = some u := by
    have hindex : (s.span k n).stop - 1 = (s.before k ++ n.gap ++ vs).length := by
      simp [span, Segment.tokens, happend, ← Nat.add_assoc]
    rw [hindex, hlast, List.getElem?_append_right (Nat.le_refl _), Nat.sub_self]
    rfl
  have h₁ : t.start = byteSize (source (s.before k ++ n.gap)) := by
    rw [hfirst] at h
    rw [h.start_eq, Nat.zero_add]
  have h₂ : u.stop = byteSize (source (s.before k ++ n.tokens)) := by
    rw [hlast] at h
    rw [h.stop_eq, Nat.zero_add, Segment.tokens, happend]
    simp
  simp [Span.bytes?, hstart, hstop, h₁, h₂]

end Segments

namespace Block

variable {rules : Rules} {declaration? : Option Nat} {raw : Text} {s : Segments}

section

variable (hs : s.tokens = scan raw)

include hs

lemma nodeBytes_read : (read rules declaration? raw).nodeBytes =
    s.nodes.mapIdx fun k n => (byteSize (source (s.before k ++ n.gap)),
      byteSize (source (s.before k ++ n.tokens))) := by
  have htree : (read rules declaration? raw).tree = Tree.ofTokens rules s.tokens := by
    rw [hs]
    rfl
  have htokens : (read rules declaration? raw).tokens = s.tokens := hs.symm
  have hspans := (Tree.unedited_ofTokens rules s.tokens).spans
  rw [s.spans_tokens] at hspans
  have hbytes : (s.nodes.mapIdx s.span).map (Span.bytes? s.tokens) =
      (s.nodes.mapIdx fun k n => (byteSize (source (s.before k ++ n.gap)),
        byteSize (source (s.before k ++ n.tokens)))).map some := by
    apply List.ext_getElem?
    intro k
    simp only [List.getElem?_map, List.getElem?_mapIdx]
    cases hn : s.nodes[k]? with
    | none => rfl
    | some n => simp [Segments.bytes?_span (hs ▸ consecutive_scan raw) hn]
  calc (read rules declaration? raw).nodeBytes
      = ((Tree.ofTokens rules s.tokens).top.map
          (Tree.ofTokens rules s.tokens).attributes.span?).filterMap
            fun s? => s?.bind (Span.bytes? s.tokens) := by
        rw [nodeBytes, htree, htokens, List.filterMap_map]
        rfl
    _ = ((s.nodes.mapIdx s.span).map (Span.bytes? s.tokens)).filterMap id := by
        rw [hspans, List.filterMap_map, List.filterMap_map]
        rfl
    _ = s.nodes.mapIdx fun k n => (byteSize (source (s.before k ++ n.gap)),
          byteSize (source (s.before k ++ n.tokens))) := by
        rw [hbytes, List.filterMap_map]
        simp

variable (rules declaration?) in
lemma length_top_read : (read rules declaration? raw).tree.top.length = s.nodes.length := by
  have hspans := (Tree.unedited_ofTokens rules s.tokens).spans
  rw [s.spans_tokens] at hspans
  have hlength := congrArg List.length hspans
  simp only [List.length_map, List.length_mapIdx, hs] at hlength
  exact hlength

lemma nodeStart_read {k : Nat} {n : Segment} (hn : s.nodes[k]? = some n) :
    (read rules declaration? raw).nodeStart k = byteSize (source (s.before k ++ n.gap)) := by
  simp [nodeStart, nodeBytes_read hs, hn]

lemma nodeStop_read {k : Nat} {n : Segment} (hn : s.nodes[k]? = some n) :
    (read rules declaration? raw).nodeStop k = byteSize (source (s.before (k + 1))) := by
  simp [nodeStop, nodeBytes_read hs, hn, Segments.before_succ hn, Segment.tokens]

lemma raw_read : (read rules declaration? raw).raw = source s.tokens := by
  rw [hs, source_scan]
  rfl

variable (rules declaration?) in
lemma slice_header {n : Segment} (hn : s.nodes[0]? = some n) :
    slice 0 ((read rules declaration? raw).nodeStart 0) (read rules declaration? raw).raw
      = source (s.opening ++ n.gap) := by
  have hbefore : s.before 0 = s.opening := by simp [Segments.before]
  rw [raw_read hs, nodeStart_read hs hn, Segments.tokens_eq hn, List.append_assoc, hbefore]
  exact slice_source [] (s.opening ++ n.gap) _

lemma slice_gap {k : Nat} {n : Segment} (hk : 0 < k) (hn : s.nodes[k]? = some n) :
    slice ((read rules declaration? raw).nodeStop (k - 1))
      ((read rules declaration? raw).nodeStart k) (read rules declaration? raw).raw
        = source n.gap := by
  obtain ⟨j, rfl⟩ : ∃ j, k = j + 1 := ⟨k - 1, by omega⟩
  have hj : j < s.nodes.length := Nat.lt_of_succ_lt (List.getElem?_eq_some_iff.1 hn).1
  have hm : s.nodes[j]? = some s.nodes[j] := List.getElem?_eq_getElem hj
  rw [raw_read hs, nodeStart_read hs hn, Nat.add_sub_cancel, nodeStop_read hs hm,
    Segments.tokens_eq hn, List.append_assoc]
  exact slice_source _ _ _

lemma slice_node {k : Nat} {n : Segment} (hn : s.nodes[k]? = some n) :
    slice ((read rules declaration? raw).nodeStart k) ((read rules declaration? raw).nodeStop k)
      (read rules declaration? raw).raw = source n.body := by
  rw [raw_read hs, nodeStart_read hs hn, nodeStop_read hs hn, Segments.before_succ hn,
    Segments.tokens_eq hn]
  exact slice_source _ _ _

lemma slice_trailer (hne : s.nodes ≠ []) :
    slice ((read rules declaration? raw).nodeStop
        ((read rules declaration? raw).nodeBytes.length - 1))
      (byteSize (read rules declaration? raw).raw) (read rules declaration? raw).raw
        = source s.trail := by
  have hlt : s.nodes.length - 1 < s.nodes.length := Nat.sub_one_lt (by simpa using hne)
  have hn : s.nodes[s.nodes.length - 1]? = some s.nodes[s.nodes.length - 1] :=
    List.getElem?_eq_getElem hlt
  have hbefore : s.before (s.nodes.length - 1 + 1) =
      s.opening ++ s.nodes.flatMap Segment.tokens := by
    rw [Nat.sub_add_cancel (Nat.pos_of_ne_zero (by simpa using hne)), Segments.before,
      List.take_length]
  rw [nodeBytes_read hs, List.length_mapIdx, nodeStop_read hs hn, hbefore, raw_read hs,
    Segments.tokens]
  simpa using slice_source (s.opening ++ s.nodes.flatMap Segment.tokens) s.trail []

end

/-! ### What stands for nodes that were read -/

lemma idxOf?_top_read {k : Nat} {id : NodeId}
    (hid : (read rules declaration? raw).tree.top[k]? = some id) :
    (read rules declaration? raw).tree.top.idxOf? id = some k := by
  have hsorted := (Tree.unedited_ofTokens rules (scan raw)).sorted
  obtain ⟨hk, rfl⟩ := List.getElem?_eq_some_iff.1 hid
  refine List.idxOf?_eq_some_iff.2 ⟨hk, rfl, fun j hj => ?_⟩
  have hlt := List.pairwise_iff_getElem.1 hsorted j k (hj.trans hk) hk hj
  exact Nat.ne_of_lt hlt

section

variable (hs : s.tokens = scan raw)

include hs

lemma splicedGap_read {k : Nat} {n : Segment} {id : NodeId}
    (hid : (read rules declaration? raw).tree.top[k]? = some id) (hn : s.nodes[k]? = some n)
    (hk : 0 < k) (ls : Text) :
    splicedGap (read rules declaration? raw) ls id = source n.gap := by
  rw [splicedGap, idxOf?_top_read hid]
  exact slice_gap hs hk hn

/-- Behind the first node every one that was read stands behind its own gap. -/
lemma flatMap_spliced {b : Block} {first : NodeId} {rest : List NodeId} {n : Segment}
    {ns : List Segment} (htop : (read rules declaration? raw).tree.top = first :: rest)
    (hns : s.nodes = n :: ns) (ls : Text) {f : Segment → Text}
    (hf : ∀ {k : Nat} {m : Segment} {id : NodeId}, s.nodes[k]? = some m →
      (read rules declaration? raw).tree.top[k]? = some id →
        splicedNode (read rules declaration? raw) b ls id = f m) :
    (rest.flatMap fun id => splicedGap (read rules declaration? raw) ls id ++
        splicedNode (read rules declaration? raw) b ls id) =
      ns.flatMap fun m => source m.gap ++ f m := by
  have hlength := length_top_read rules declaration? hs
  rw [htop, hns, List.length_cons, List.length_cons, Nat.succ_inj] at hlength
  rw [List.flatMap_def, List.flatMap_def]
  congr 1
  refine List.ext_getElem (by simpa using hlength) fun k hk hk' => ?_
  have hrest : k < rest.length := by simpa using hk
  have hns' : k < ns.length := hlength ▸ hrest
  have hid : (read rules declaration? raw).tree.top[k + 1]? = some rest[k] := by simp [htop]
  have hn : s.nodes[k + 1]? = some ns[k] := by simp [hns]
  rw [List.getElem_map, List.getElem_map, splicedGap_read hs hid hn k.succ_pos, hf hn hid]

end

section

variable {b : Block} (hs : s.tokens = scan raw) (h : Derives (read rules declaration? raw) b)

include hs h

lemma nodeText_eq_splicedNode {l : Layout} {id : NodeId} (hid : id ∈ b.tree.top) :
    b.nodeText l id = splicedNode (read rules declaration? raw) b l.lineStart id := by
  unfold splicedNode
  cases hk : (read rules declaration? raw).tree.top.idxOf? id with
  | none =>
    rw [List.idxOf?_eq_none_iff] at hk
    rw [nodeText, h.span?_eq_none_of_not_mem (Tree.unedited_ofTokens rules (scan raw)) hid hk]
    exact joinLines_eq_canonicalText _ _
  | some k =>
    obtain ⟨hlt, he, -⟩ := List.idxOf?_eq_some_iff.1 hk
    obtain ⟨n, hn, hspan⟩ := exists_segment hs h (List.getElem?_eq_some_iff.2 ⟨hlt, he⟩)
    dsimp only
    rw [nodeText_of_read hs h hn hspan, slice_node hs hn, joinLines_eq_canonicalText]

lemma separatorText_eq_splicedGap {p : Printer} {indent : Text} {first id : NodeId}
    {rest : List NodeId} (htop : b.tree.top = first :: rest) (hid : id ∈ rest)
    (hwrap : (layoutOf p indent b s).rewrap = false) :
    b.separatorText (layoutOf p indent b s) id =
      splicedGap (read rules declaration? raw) (layoutOf p indent b s).lineStart id := by
  unfold splicedGap
  have hmem : id ∈ b.tree.top := by simp [htop, hid]
  cases hk : (read rules declaration? raw).tree.top.idxOf? id with
  | none =>
    rw [List.idxOf?_eq_none_iff] at hk
    rw [separatorText, h.span?_eq_none_of_not_mem (Tree.unedited_ofTokens rules (scan raw)) hmem hk]
  | some k =>
    obtain ⟨hlt, he, -⟩ := List.idxOf?_eq_some_iff.1 hk
    have hget := List.getElem?_eq_some_iff.2 ⟨hlt, he⟩
    obtain ⟨n, hn, hspan⟩ := exists_segment hs h hget
    have hpos : 0 < k := h.pos_of_mem_tail (Tree.unedited_ofTokens rules (scan raw)) htop hid hget
    dsimp only
    rw [separatorText_of_read hs h hwrap hpos hn hspan, slice_gap hs hpos hn]

/-- A block that is not put on more lines keeps what stands around its nodes. -/
lemma print_of_not_rewrap {p : Printer} {indent : Text} {n : Segment} {ns : List Segment}
    {first : NodeId} {rest : List NodeId} (hns : s.nodes = n :: ns) (hdirty : b.dirty)
    (htop : b.tree.top = first :: rest) (hwrap : (layoutOf p indent b s).rewrap = false) :
    b.print p indent = source (s.opening ++ n.gap) ++
      (splicedNode (read rules declaration? raw) b (lineStart p indent s.tokens) first ++
        rest.flatMap fun id =>
          splicedGap (read rules declaration? raw) (lineStart p indent s.tokens) id ++
            splicedNode (read rules declaration? raw) b (lineStart p indent s.tokens) id) ++
      source s.trail := by
  have hne : s.nodes ≠ [] := by simp [hns]
  have hnode : ∀ id ∈ b.tree.top, b.nodeText (layoutOf p indent b s) id =
      splicedNode (read rules declaration? raw) b (lineStart p indent s.tokens) id :=
    fun id hid => nodeText_eq_splicedNode hs h hid
  rw [print, hdirty, if_neg (by simp), if_neg (by simp [htop]), layout?_eq hs h hne]
  dsimp only
  rw [printLaidOut, headerText_eq hs h hwrap, trailerText_eq hs h hwrap, htop, hns]
  congr 2
  dsimp only
  rw [hnode first (by simp [htop])]
  congr 1
  refine List.flatMap_congr fun id hid => ?_
  rw [hnode id (by simp [htop, hid]), separatorText_eq_splicedGap hs h htop hid hwrap]
  rfl

/-- The delimiter of a comment that is put on lines of its own. -/
def openingText (s : Segments) : Text :=
  if s.nodes = [] ∨ s.opening = [] then ['/', '*', '*'] else source s.opening

/-- A block from whose text no node was read, or that is put on more lines, has all nodes on lines
of their own. -/
lemma print_on_lines {p : Printer} {indent : Text} (hdirty : b.dirty) (htop : b.tree.top ≠ [])
    (hwrap : s.nodes = [] ∨ (layoutOf p indent b s).rewrap) :
    b.print p indent = openingText s ++
      (b.tree.top.flatMap fun id => ownLineStart p indent ++
        splicedNode (read rules declaration? raw) b (ownLineStart p indent) id) ++
      closingLine (ownLineStart p indent) := by
  obtain ⟨first, rest, hrest⟩ := List.exists_cons_of_ne_nil htop
  by_cases hne : s.nodes = []
  · have hnil : (read rules declaration? raw).tree.top = [] := by
      rw [← List.length_eq_zero_iff, length_top_read rules declaration? hs, hne]
      rfl
    rw [print, hdirty, if_neg (by simp), if_neg htop, layout?_eq_none hs h hne]
    dsimp only
    rw [printCanonical, openingText, if_pos (.inl hne)]
    congr 2
    refine List.flatMap_congr fun id hid => ?_
    simp [splicedNode, hnil, joinLines_eq_canonicalText]
  · have hwrap' : (layoutOf p indent b s).rewrap = true := hwrap.resolve_left hne
    have hbreak : s.hasBreak = false := by
      simp only [layoutOf, Bool.and_eq_true, Bool.not_eq_true'] at hwrap'
      exact hwrap'.1
    have hown : (layoutOf p indent b s).lineStart = ownLineStart p indent :=
      lineStart_of_hasBreak_eq_false hbreak
    have hheader : b.headerText (layoutOf p indent b s) =
        openingText s ++ ownLineStart p indent := by
      rw [headerText, hwrap', if_pos rfl, tokens_eq_of_derives hs h, hown, openingText]
      congr 1
      rcases s.opening_cases with ⟨t, ht, hkind⟩ | ⟨hnil, hhead⟩
      · simp [Segments.tokens, ht, hkind, hne]
      · rw [if_pos (.inr hnil), Segments.tokens, hnil, List.nil_append]
        cases hts : s.nodes.flatMap Segment.tokens ++ s.trail with
        | nil => rfl
        | cons t ts => simp [hhead t (by simp [hts])]
    have hsep : ∀ id, b.separatorText (layoutOf p indent b s) id = ownLineStart p indent := by
      intro id
      rw [separatorText, hown]
      split
      · rfl
      · simp [hwrap']
    have hnode : ∀ id ∈ b.tree.top, b.nodeText (layoutOf p indent b s) id =
        splicedNode (read rules declaration? raw) b (ownLineStart p indent) id := by
      intro id hid
      rw [nodeText_eq_splicedNode hs h hid, hown]
    rw [print, hdirty, if_neg (by simp), if_neg htop, layout?_eq hs h hne]
    dsimp only
    rw [printLaidOut, hheader, trailerText, hwrap', if_pos rfl, hown, hrest, List.flatMap_cons,
      List.append_assoc (openingText s), List.append_assoc (ownLineStart p indent)]
    dsimp only
    rw [hnode first (by simp [hrest])]
    congr 4
    refine List.flatMap_congr fun id hid => ?_
    rw [hsep, hnode id (by simp [hrest, hid])]

lemma print_eq_splice_of_derives {p : Printer} {indent : Text} (hne : s.nodes ≠ [])
    (hdirty : b.dirty) (htop : b.tree.top ≠ []) (hwrap : (layoutOf p indent b s).rewrap = false) :
    b.print p indent =
      splice (read rules declaration? raw) b (lineStart p indent s.tokens) := by
  obtain ⟨n, ns, hns⟩ := List.exists_cons_of_ne_nil hne
  have hn : s.nodes[0]? = some n := by simp [hns]
  obtain ⟨first, rest, hrest⟩ := List.exists_cons_of_ne_nil htop
  rw [print_of_not_rewrap hs h hns hdirty hrest hwrap, splice,
    slice_header rules declaration? hs hn, slice_trailer hs hne, hrest]

end

section

variable (hs : s.tokens = scan raw)

include hs

/-- The bytes of the nodes are cut at characters, in order. -/
lemma bytes_read {k : Nat} {n : Segment} (hn : s.nodes[k]? = some n) :
    let b₀ := read rules declaration? raw
    isBoundary (b₀.nodeStart k) raw ∧ isBoundary (b₀.nodeStop k) raw ∧
      b₀.nodeStart k ≤ b₀.nodeStop k ∧ (0 < k → b₀.nodeStop (k - 1) ≤ b₀.nodeStart k) := by
  have hraw : raw = source s.tokens := by rw [hs, source_scan]
  have hsplit := Segments.tokens_eq hn
  intro b₀
  refine ⟨?_, ?_, ?_, fun hk => ?_⟩
  · rw [nodeStart_read hs hn, hraw, hsplit, List.append_assoc, source_append _ (n.body ++ _)]
    exact isBoundary_byteSize_append _ _
  · rw [nodeStop_read hs hn, hraw, hsplit, Segments.before_succ hn, source_append _ (s.after k)]
    exact isBoundary_byteSize_append _ _
  · rw [nodeStart_read hs hn, nodeStop_read hs hn, Segments.before_succ hn, source_append _ n.body,
      byteSize_append]
    exact Nat.le_add_right _ _
  · obtain ⟨j, rfl⟩ : ∃ j, k = j + 1 := ⟨k - 1, by omega⟩
    have hj : j < s.nodes.length := Nat.lt_of_succ_lt (List.getElem?_eq_some_iff.1 hn).1
    rw [Nat.add_sub_cancel, nodeStop_read hs (List.getElem?_eq_getElem hj), nodeStart_read hs hn,
      source_append, byteSize_append]
    exact Nat.le_add_right _ _

end

/-- A dirty block that is not put on more lines than before prints as its text, spliced: what stood
around and between the nodes that were read and are left, the bytes of those that were not touched,
and the canonical text of all others, on lines that start like those of the comment. -/
theorem print_eq_splice (rules : Rules) (declaration? : Option Nat) (raw : Text)
    (as : List Action) (p : Printer) (indent : Text)
    (hread : (read rules declaration? raw).tree.top ≠ [])
    (hdirty : ((read rules declaration? raw).act as).dirty)
    (htop : ((read rules declaration? raw).act as).tree.top ≠ [])
    (hlines : (∃ t ∈ scan raw, t.kind = .lineBreak) ∨
      ((read rules declaration? raw).act as).tree.top.length = 1) :
    let b₀ := read rules declaration? raw
    let b := b₀.act as
    (∃ ls, IsLinePrefix p indent b₀.tokens ls ∧ b.print p indent = splice b₀ b ls) ∧
      (∃ kept new : List NodeId, b.tree.top = kept ++ new ∧ kept.Sublist b₀.tree.top ∧
        ∀ id ∈ new, id ∉ b₀.tree.top) ∧
      b₀.nodeBytes.length = b₀.tree.top.length ∧
      ∀ k < b₀.tree.top.length, isBoundary (b₀.nodeStart k) raw ∧ isBoundary (b₀.nodeStop k) raw ∧
        b₀.nodeStart k ≤ b₀.nodeStop k ∧ (0 < k → b₀.nodeStop (k - 1) ≤ b₀.nodeStart k) := by
  obtain ⟨s, hs⟩ := exists_segments (scan raw)
  have h₀ := Tree.unedited_ofTokens rules (scan raw)
  have h : Derives (read rules declaration? raw) _ := derives_act h₀ as
  have hlength := length_top_read rules declaration? hs
  have hne : s.nodes ≠ [] := by
    rw [← List.length_pos_iff, ← hlength]
    exact List.length_pos_iff.2 hread
  refine ⟨⟨_, isLinePrefix_iff.2 rfl, ?_⟩, ?_, ?_, fun k hk => ?_⟩
  · have hwrap : (layoutOf p indent ((read rules declaration? raw).act as) s).rewrap = false := by
      rcases hlines with ⟨t, ht, hkind⟩ | hone
      · have hbreak : s.hasBreak := by
          rw [Segments.hasBreak, hs, List.any_eq_true]
          exact ⟨t, ht, by simpa using hkind⟩
        simp [layoutOf, hbreak]
      · simp [layoutOf, hone]
    rw [print_eq_splice_of_derives hs h hne hdirty htop hwrap, hs]
    rfl
  · obtain ⟨kept, new, hkn, hsub, -, hnew⟩ := h.top
    refine ⟨kept, new, hkn, hsub, fun id hid hid' => ?_⟩
    exact Nat.not_lt.2 (hnew id hid).1 (h₀.forest.lt_size_of_mem_top hid')
  · rw [nodeBytes_read hs, List.length_mapIdx, hlength]
  · exact bytes_read hs (List.getElem?_eq_getElem (hlength ▸ hk))

/-- A tag in the middle is removed, the one after it gets a typed value in place of the payload that
was kept as it is, and one is added. -/
theorem print_eq_splice_removed_tag :
    let b₀ := read Rules.standard none "/**\n * A.\n * @x 1\n *\n * @y 2\n */".toList
    let b := b₀.act [.edit (.removeTags "x".toList),
      .change 2 (.value (.typed ⟨.name "int".toList, none, "p\n\nq */ r".toList⟩)),
      .edit (.markChanged 2), .edit (.addTag "return".toList "int".toList)]
    (b₀.tree.top ≠ [] ∧ b.dirty ∧ b.tree.top ≠ [] ∧ ∃ t ∈ scan b₀.raw, t.kind = .lineBreak) ∧
      (∃ ls, IsLinePrefix {} [] b₀.tokens ls ∧ b.print {} [] = splice b₀ b ls) ∧
      b.print {} [] =
        "/**\n * A.\n *\n * @y int p\n *\n * q *\\/ r\n * @return int\n */".toList :=
  ⟨by decide +kernel,
    (print_eq_splice _ _ _ _ _ _ (by decide +kernel) (by decide +kernel) (by decide +kernel)
      (by decide +kernel)).1,
    by decide +kernel⟩

end Block

end DocComment
