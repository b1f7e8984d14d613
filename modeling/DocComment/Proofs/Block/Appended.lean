import DocComment.Proofs.Block.Named
import DocComment.Proofs.Block.Reload
import DocComment.Proofs.Tree.Continued

/-!
# Blocks with one more node

A node that is added to a comment prints on a line of its own behind all others, which print as
they were read (`exists_frame`). A line is not an empty line, so a paragraph that is added goes on
with the node in front of it, and is a node of its own only in a comment without nodes
(`contents_reload_addProse`). A tag parts itself from what is in front of it, if its name is one
that tags have (`tagsNamed_reload_addTag_iff`).
-/

namespace DocComment

open Text Token

/-! ### Comments with room for one more line -/

/-- A comment whose last line may hold any text. -/
structure Frame (rules : Rules) where
  opening : Text
  /-- The nodes in front of the last line. -/
  parts : List Part
  lineStart : Text
  trail : Text
  isRead : ∀ p ∈ parts, p.IsRead rules
  parts_tail : ∀ p ∈ parts.tail, p.Parts
  isLineStart : IsLineStart false lineStart
  stops_trail : stops trail
  closing_trail : ∀ i, ∀ t ∈ ((scanFrom false i trail).dropWhile Token.isSeparator).head?,
    t.kind = .closing
  exists_scan : ∀ y, ∃ ts j, (ts = [] ∨ ∃ t, ts = [t] ∧ t.kind = .opening) ∧
    scan (opening ++ (parts.flatMap Part.text ++ (lineStart ++ y))) =
      ts ++ scanFrom false j (parts.flatMap Part.text ++ (lineStart ++ y))

namespace Frame

variable {rules : Rules} (f : Frame rules)

/-- The comment with this text on its last line. -/
def text (line : Text) : Text :=
  f.opening ++ (f.parts.flatMap Part.text ++ (f.lineStart ++ (line ++ f.trail)))

/-- What the nodes in front of the last line say. -/
def contents : List Node.Content := f.parts.map Part.content

/-- A node on the last line is read behind the others if the start of its line parts it from
them. -/
lemma contents_text {body : Text} {c : Node.Content}
    (hread : Part.IsRead rules ⟨f.lineStart, body, c⟩)
    (hparts : f.parts ≠ [] → Part.Parts ⟨f.lineStart, body, c⟩) :
    (Tree.ofTokens rules (scan (f.text body))).contents = (f.contents ++ [c]).map some := by
  let p : Part := ⟨f.lineStart, body, c⟩
  have htext : f.text body = f.opening ++ ((f.parts ++ [p]).flatMap Part.text ++ f.trail) := by
    simp [text, p, Part.text]
  rw [htext, contents_of_parts rules ?_ ?_ ?_ f.stops_trail f.closing_trail]
  · simp [contents, p]
  · intro p hp
    rcases List.mem_append.1 hp with hp | hp
    · exact f.isRead p hp
    · rw [List.mem_singleton.1 hp]
      exact hread
  · intro p hp
    cases hps : f.parts with
    | nil => simp [hps] at hp
    | cons q qs =>
      rw [hps, List.cons_append, List.tail_cons, List.mem_append] at hp
      rcases hp with hp | hp
      · exact f.parts_tail p (by simp [hps, hp])
      · rw [List.mem_singleton.1 hp]
        exact hparts (by simp [hps])
  · obtain ⟨ts, j, hts, hscan⟩ := f.exists_scan (body ++ f.trail)
    refine ⟨ts, j, hts, ?_⟩
    simpa [p, Part.text] using hscan

/-- A line of prose goes on with the node in front of it. -/
lemma contents_text_of_prose {cs : List Node.Content} {c : Node.Content} {line : Text}
    (hcs : f.contents = cs ++ [c]) (hline : IsProseLine line) :
    ∃ c', Node.Content.GoesOn rules line c c' ∧
      (Tree.ofTokens rules (scan (f.text line))).contents = (cs ++ [c']).map some := by
  obtain ⟨ps, q, hparts, rfl, rfl⟩ : ∃ ps q, f.parts = ps ++ [q] ∧ ps.map Part.content = cs ∧
      q.content = c := by
    obtain ⟨ps, qs, hparts, hps, hqs⟩ := List.map_eq_append_iff.1 hcs
    obtain ⟨q, rfl, hq⟩ := List.map_eq_singleton_iff.1 hqs
    exact ⟨ps, q, hparts, hps, hq⟩
  have hq : q.IsRead rules := f.isRead q (by simp [hparts])
  obtain ⟨c', hgoesOn, hnode⟩ := hq.node.exists_goesOn hline f.isLineStart
  refine ⟨c', hgoesOn, ?_⟩
  let q' : Part := ⟨q.gap, q.body ++ (f.lineStart ++ line), c'⟩
  have hall : ∀ y, (ps ++ [q']).flatMap Part.text ++ y =
      f.parts.flatMap Part.text ++ (f.lineStart ++ (line ++ y)) := by
    intro y
    simp [hparts, q', Part.text]
  rw [text, ← hall, contents_of_parts rules ?_ ?_ ?_ f.stops_trail f.closing_trail]
  · simp [q']
  · intro p hp
    rcases List.mem_append.1 hp with hp | hp
    · exact f.isRead p (by simp [hparts, hp])
    · rw [List.mem_singleton.1 hp]
      refine ⟨hnode, fun i rest => ?_⟩
      have hgap := hq.gap i (f.lineStart ++ line ++ rest)
      rwa [← List.append_assoc q.body] at hgap
  · intro p hp
    cases ps with
    | nil => simp at hp
    | cons p₀ ps =>
      rw [List.cons_append, List.tail_cons, List.mem_append] at hp
      rcases hp with hp | hp
      · exact f.parts_tail p (by simp [hparts, hp])
      · rw [List.mem_singleton.1 hp]
        have hq' : Part.Parts ⟨q.gap, q.body, q.content⟩ := f.parts_tail q (by simp [hparts])
        refine hq'.goesOn fun j => ?_
        obtain ⟨t, k, -, hscan⟩ := hq.node.scanFrom_goesOn f.isLineStart hline j
        rw [hscan, List.head?_append_of_ne_nil _ (hq.node.solid j).ne_nil]
  · obtain ⟨ts, j, hts, hscan⟩ := f.exists_scan (line ++ f.trail)
    exact ⟨ts, j, hts, by rwa [hall]⟩

end Frame

/-! ### Parts of a comment where they stand -/

namespace Segments

variable {raw : Text} {s : Segments} {k : Nat} {n : Segment} (hs : s.tokens = scan raw)
  (hn : s.nodes[k]? = some n)

include hs hn

lemma isRead_part (rules : Rules) (hr : pairsReturns raw) : (n.part rules).IsRead rules where
  node := isNode_body hs hn rules hr
  gap i rest := by
    obtain ⟨ts, hsep, -, hscan⟩ := isGap_gap hs hn (isNode_body hs hn rules hr).ne_nil (.inl rfl) i
      rest
    exact ⟨ts, hsep, trivial, hscan⟩

lemma parts_part (rules : Rules) (hk : 0 < k) : (n.part rules).Parts := by
  refine parts_gap hs hn hk (.inl rfl) fun j => ?_
  obtain ⟨t, us, hbody, -⟩ := n.solid.exists_cons
  obtain ⟨u, vs, hu, hkind, -⟩ :=
    exists_of_map_lexeme_cons ((map_lexeme_body hs hn j).trans (congrArg _ hbody))
  exact ⟨u, by simp [hu], .inl (by simp [hbody, hkind])⟩

end Segments

namespace Segments

variable {rules : Rules} {raw ls y : Text} {s : Segments} {n : Segment} {ns : List Segment}

/-- Where lines are added at the end, a slash and a star come about behind the delimiter only if
they stood there. -/
lemma isPrefix_behind_first (hs : s.tokens = scan raw) (hns : s.nodes = n :: ns)
    (hls : IsLineStart false ls) {body : Text} (hne : body ≠ [])
    (h : ['/', '*'] <+: body ++ ((ns.map (Segment.part rules)).flatMap Part.text ++ (ls ++ y))) :
    ['/', '*'] <+: body ++ source (ns.flatMap Segment.tokens ++ s.trail) := by
  cases ns with
  | nil =>
    have hhead : ∀ c ∈ (ls ++ y).head?, c ∉ ['/', '*'] := by
      cases hls with
      | starred hnl _ => rcases hnl with rfl | rfl <;> simp
      | bare hnl _ => rcases hnl with rfl | rfl <;> simp
    exact ((Folds.isPrefix_append_iff hhead).1 h).trans (List.prefix_append _ _)
  | cons m ms =>
    have hm : s.nodes[1]? = some m := by simp [hns]
    have hgap := (head?_source_gap hs hm (gap_ne_nil Nat.one_pos hm)).1
    refine isPrefix_delimiter_congr hne ?_ h
    simp only [List.map_cons, List.flatMap_cons, Part.text, Segment.part, Segment.tokens,
      List.append_assoc, source_append]
    rw [List.head?_append_of_ne_nil _ hgap, List.head?_append_of_ne_nil _ hgap]

end Segments

/-! ### Blocks with one more node -/

namespace Block

variable {b₀ b : Block}

/-- A block with one more node behind all others, which stay as they were read. -/
structure Appends (b₀ b : Block) (id : NodeId) : Prop where
  derives : Derives b₀ b
  dirty : b.dirty
  top : b.tree.top = b₀.tree.top ++ [id]
  not_mem : id ∉ b₀.tree.top
  isModified : ∀ i ∈ b₀.tree.top, b.tree.isModified i = false

section

variable {spans : List Span} {cs : List Node.Content} (h₀ : b₀.tree.Unedited spans cs)

include h₀

lemma isModified_of_keeps {id : NodeId} (h : Keeps b₀ b id) : b.tree.isModified id = false := by
  rw [h.isModified]
  simp [Tree.isModified, h₀.isChanged, h₀.isSynthesized]

lemma appends_pushTag (name : Text) (r : Reading) :
    Appends b₀ (b₀.pushTag name r).1 (b₀.pushTag name r).2 where
  derives := (Derives.refl h₀.isSynthesized).step (Step.pushTag (p := fun _ => True) b₀ name r)
  dirty := rfl
  top := by simp [pushTag]
  not_mem hmem := Nat.not_lt.2 (Tree.size_le_makeTag_snd b₀.tree name r)
    (h₀.forest.lt_size_of_mem_top hmem)
  isModified _ hi := isModified_of_keeps h₀ (keeps_pushTag name r h₀.forest.layered hi)

lemma appends_pushProse (text : Text) :
    Appends b₀ (b₀.pushProse text).1 (b₀.pushProse text).2 where
  derives := (Derives.refl h₀.isSynthesized).step (Step.pushProse (p := fun _ => True) b₀ text)
  dirty := rfl
  top := by simp [pushProse]
  not_mem hmem := Nat.lt_irrefl _ (h₀.forest.lt_size_of_mem_top hmem)
  isModified _ hi := isModified_of_keeps h₀ (keeps_pushProse h₀.forest.layered hi text)

end

section

variable {rules : Rules} {declaration? : Option Nat} {raw indent : Text} {s : Segments}
  {id : NodeId} (hs : s.tokens = scan raw) (h : Appends (read rules declaration? raw) b id)

include hs h

lemma splicedNode_of_appends {k : Nat} {n : Segment} {i : NodeId} (hn : s.nodes[k]? = some n)
    (hi : (read rules declaration? raw).tree.top[k]? = some i) (ls : Text) :
    splicedNode (read rules declaration? raw) b ls i = source n.body := by
  rw [splicedNode, idxOf?_top_read hi]
  dsimp only
  rw [if_neg (by simp [h.isModified i (List.mem_of_getElem? hi)]), slice_node hs hn]

omit hs in
lemma splicedNode_added (ls : Text) :
    splicedNode (read rules declaration? raw) b ls id = joinLines ls (b.write id) := by
  rw [splicedNode, List.idxOf?_eq_none_iff.2 h.not_mem, joinLines_eq_canonicalText]

/-- The nodes of a comment that is put on lines of its own, which are none or one. -/
lemma exists_frame_on_lines (hr : pairsReturns raw) (hindent : ∀ c ∈ indent, isBlank c)
    (hwrap : s.nodes = [] ∨ (layoutOf {} indent b s).rewrap) : ∃ f : Frame rules,
      b.print {} indent = f.text (joinLines f.lineStart (b.write id)) ∧
        f.contents = s.nodes.map fun n => Node.Content.ofTokens rules n.body := by
  have hown := isLineStart_ownLineStart hindent false
  have hone : s.nodes.tail = [] := by
    rcases hwrap with hnil | hwrap
    · rw [hnil]
      rfl
    · by_contra htail
      obtain ⟨n, hn⟩ := List.exists_mem_of_ne_nil _ htail
      obtain ⟨k, hk⟩ := List.mem_iff_getElem?.1 hn
      rw [List.getElem?_tail] at hk
      simp [layoutOf, Segments.hasBreak_of_pos k.succ_pos hk] at hwrap
  let part (n : Segment) : Part :=
    ⟨ownLineStart {} indent, source n.body, Node.Content.ofTokens rules n.body⟩
  have hnodes : ((read rules declaration? raw).tree.top.flatMap fun i => ownLineStart {} indent ++
      splicedNode (read rules declaration? raw) b (ownLineStart {} indent) i) =
        (s.nodes.map part).flatMap Part.text := by
    have hlength := length_top_read rules declaration? hs
    rw [List.flatMap_map, List.flatMap_def, List.flatMap_def]
    congr 1
    refine List.ext_getElem (by simpa using hlength) fun k hk hk' => ?_
    rw [List.getElem_map, List.getElem_map, splicedNode_of_appends hs h
      (List.getElem?_eq_getElem (by simpa using hk'))
      (List.getElem?_eq_getElem (by simpa using hk))]
    rfl
  obtain ⟨stars, hstars, hcases⟩ := openingText_eq hs
  have hclosing := closing_closingLine hindent
  refine ⟨⟨openingText s, s.nodes.map part, ownLineStart {} indent,
    closingLine (ownLineStart {} indent), fun p hp => ?_, fun p hp => ?_, hown, hclosing.1,
    hclosing.2, fun y => ?_⟩, ?_, ?_⟩
  · obtain ⟨n, hn, rfl⟩ := List.mem_map.1 hp
    obtain ⟨k, hk⟩ := List.mem_iff_getElem?.1 hn
    exact ⟨Segments.isNode_body hs hk rules hr, isGap_ownLineStart hindent _⟩
  · rw [← List.map_tail, hone] at hp
    cases hp
  · have hhead : ((s.nodes.map part).flatMap Part.text ++ (ownLineStart {} indent ++ y)).head? ≠
        some '*' := by
      cases s.nodes with
      | nil => simp [ownLineStart]
      | cons n ns => simp [part, Part.text, ownLineStart]
    rw [hstars]
    exact ⟨_, _, .inr ⟨_, rfl, rfl⟩, scan_opening (hcases.imp_right fun hone => ⟨hone, hhead⟩)⟩
  · rw [print_on_lines hs h.derives h.dirty (by simp [h.top]) hwrap, h.top, List.flatMap_append,
      hnodes, List.flatMap_singleton, splicedNode_added h]
    simp [Frame.text]
  · simp [Frame.contents, part]

/-- The nodes of a comment that stay where they were read. -/
lemma exists_frame_in_place (hr : pairsReturns raw) (hindent : ∀ c ∈ indent, isBlank c)
    (hne : s.nodes ≠ []) (hwrap : (layoutOf {} indent b s).rewrap = false) : ∃ f : Frame rules,
      b.print {} indent = f.text (joinLines f.lineStart (b.write id)) ∧
        f.contents = s.nodes.map fun n => Node.Content.ofTokens rules n.body := by
  obtain ⟨n, ns, hns⟩ := List.exists_cons_of_ne_nil hne
  have hlength := length_top_read rules declaration? hs
  obtain ⟨first, rest, hread⟩ : ∃ first rest, (read rules declaration? raw).tree.top =
      first :: rest := by
    refine List.exists_cons_of_ne_nil fun hnil => hne ?_
    rw [← List.length_eq_zero_iff, ← hlength, hnil]
    rfl
  have hn : s.nodes[0]? = some n := by simp [hns]
  have hls : IsLineStart false (lineStart {} indent s.tokens) :=
    hs ▸ isLineStart_lineStart hindent raw
  generalize hlineStart : lineStart {} indent s.tokens = ls at hls
  have hfirst : splicedNode (read rules declaration? raw) b ls first = source n.body :=
    splicedNode_of_appends hs h hn (by simp [hread]) ls
  have hrest := flatMap_spliced hs hread hns ls fun hm hi => splicedNode_of_appends hs h hm hi ls
  have hlast : splicedGap (read rules declaration? raw) ls id = ls := by
    rw [splicedGap, List.idxOf?_eq_none_iff.2 h.not_mem]
  have htop : b.tree.top = first :: (rest ++ [id]) := by rw [h.top, hread, List.cons_append]
  refine ⟨⟨source s.opening, s.nodes.map (Segment.part rules), ls, source s.trail, fun p hp => ?_,
    fun p hp => ?_, hls, Segments.stops_trail hs, Segments.head_scanFrom_trail hs hne, fun y => ?_⟩,
    ?_, ?_⟩
  · obtain ⟨m, hm, rfl⟩ := List.mem_map.1 hp
    obtain ⟨k, hk⟩ := List.mem_iff_getElem?.1 hm
    exact Segments.isRead_part hs hk rules hr
  · rw [← List.map_tail] at hp
    obtain ⟨m, hm, rfl⟩ := List.mem_map.1 hp
    obtain ⟨k, hk⟩ := List.mem_iff_getElem?.1 hm
    rw [List.getElem?_tail] at hk
    exact Segments.parts_part hs hk rules k.succ_pos
  · have hbody := (Segments.isNode_body hs hn rules hr).ne_nil
    have htext : (s.nodes.map (Segment.part rules)).flatMap Part.text ++ (ls ++ y) =
        source n.gap ++ (source n.body ++
          ((ns.map (Segment.part rules)).flatMap Part.text ++ (ls ++ y))) := by
      simp [hns, Part.text, Segment.part]
    rw [htext]
    refine Segments.scan_in_place hs hns hbody (.inl rfl) fun hraw _ hslash => ?_
    rw [hraw]
    exact Segments.isPrefix_behind_first hs hns hls hbody hslash
  · rw [print_of_not_rewrap hs h.derives hns h.dirty htop hwrap, hlineStart, hfirst,
      List.flatMap_append, hrest, List.flatMap_singleton, hlast, splicedNode_added h]
    simp [Frame.text, hns, List.flatMap_map, Part.text, Segment.part]
  · simp [Frame.contents, Segment.part]

/-- A node that is added prints on a line of its own behind the nodes that were read. -/
theorem exists_frame (hr : pairsReturns raw) (hindent : ∀ c ∈ indent, isBlank c) :
    ∃ f : Frame rules, b.print {} indent = f.text (joinLines f.lineStart (b.write id)) ∧
      f.contents = s.nodes.map fun n => Node.Content.ofTokens rules n.body := by
  by_cases hwrap : s.nodes = [] ∨ (layoutOf {} indent b s).rewrap
  · exact exists_frame_on_lines hs h hr hindent hwrap
  · obtain ⟨hne, hwrap⟩ := not_or.1 hwrap
    exact exists_frame_in_place hs h hr hindent hne (by simpa using hwrap)

end

/-! ### Paragraphs -/

lemma write_pushProse (b : Block) (text : Text) :
    (b.pushProse text).1.write (b.pushProse text).2 = text := by
  simp [write, pushProse, Tree.write, Tree.writePayload, Node.tagName?, Tree.node?_make]

/-- A text that is accepted as a paragraph is a line of prose if it is one line that starts no tag
and no decoration. -/
lemma isProseLine_trim {text : Text} (hne : trim text ≠ []) (hcheck : checkContent text = .ok ())
    (hreturn : '\r' ∉ trim text) (hline : '\n' ∉ trim text) (htag : startsTag (trim text) = false)
    (hstar : (trim text).head? ≠ some '*') : IsProseLine (trim text) := by
  obtain ⟨-, -, -, hhead, hlast⟩ := exists_trim text
  refine ⟨⟨hline, hreturn, closes_trim hcheck⟩, ?_,
    fun c hc => isBlank_of_isWhiteSpace (hlast c hc)⟩
  obtain ⟨c, s, hs⟩ := List.exists_cons_of_ne_nil hne
  have hsolid : isBlank c = false := isBlank_of_isWhiteSpace (hhead c (by simp [hs]))
  refine continues_iff.2 ⟨⟨c, by simp [hs], hsolid, ?_, ?_⟩, htag⟩
  · exact fun hn => hline (by simp [hs, hn])
  · exact fun _ hc => hstar (by simp [hs, hc])

/-- A paragraph that is added is read again as a node of its own just where no node stands in front
of it; otherwise the node in front goes on with it. -/
theorem contents_reload_addProse (rules : Rules) (declaration? : Option Nat)
    {raw text indent : Text} {id : NodeId} (hr : pairsReturns raw)
    (hindent : ∀ c ∈ indent, isBlank c)
    (haccepted : (outcome (addProse text) (read rules declaration? raw)).1 = .ok id)
    (hreturn : '\r' ∉ trim text) (hline : '\n' ∉ trim text) (htag : startsTag (trim text) = false)
    (hstar : (trim text).head? ≠ some '*') :
    let b₀ := read rules declaration? raw
    let b := (outcome (addProse text) b₀).2
    let b₁ := read rules declaration? (b.print {} indent)
    (b₁.tree.contents = b₀.tree.contents ++ [some (.prose (trim text))] ↔ b₀.tree.top = []) ∧
      ∀ cs c, b₀.tree.contents = cs ++ [some c] →
        ∃ c', Node.Content.GoesOn rules (trim text) c c' ∧ b₁.tree.contents = cs ++ [some c'] := by
  intro b₀ b b₁
  obtain ⟨hne, hcheck, hb⟩ : trim text ≠ [] ∧ checkContent text = .ok () ∧
      b = (b₀.pushProse (trim text)).1 := by
    have hout : outcome (addProse text) b₀ = (.ok id, b) := Prod.ext haccepted rfl
    obtain ⟨hne, hcheck, hpush⟩ := pushProse_of_addProse hout
    exact ⟨hne, hcheck, (congrArg Prod.fst hpush).symm⟩
  have hprose := isProseLine_trim hne hcheck hreturn hline htag hstar
  obtain ⟨s, hs⟩ := exists_segments (scan raw)
  have h₀ := Tree.unedited_ofTokens rules (scan raw)
  have happends : Appends b₀ b (b₀.pushProse (trim text)).2 :=
    hb ▸ @appends_pushProse b₀ _ _ h₀ (trim text)
  obtain ⟨f, hprint, hcontents⟩ := exists_frame hs happends hr hindent
  have hwrite : b.write (b₀.pushProse (trim text)).2 = trim text := hb ▸ write_pushProse b₀ _
  rw [hwrite, hprose.joinLines_eq] at hprint
  have hread : b₀.tree.contents = f.contents.map some := by
    rw [hcontents, List.map_map]
    exact (hs ▸ contents_ofTokens rules s :)
  have hreload : b₁.tree.contents = (Tree.ofTokens rules (scan (f.text (trim text)))).contents := by
    rw [← hprint]
    rfl
  have hgoesOn : ∀ cs c, b₀.tree.contents = cs ++ [some c] →
      ∃ c', Node.Content.GoesOn rules (trim text) c c' ∧ b₁.tree.contents = cs ++ [some c'] := by
    intro cs c hcs
    obtain ⟨cs', cs'', hsplit, rfl, hlast⟩ := List.map_eq_append_iff.1 (hread.symm.trans hcs)
    obtain ⟨c₀, rfl, hc⟩ := List.map_eq_singleton_iff.1 hlast
    obtain rfl := Option.some.inj hc
    obtain ⟨c', hc', htext⟩ := f.contents_text_of_prose hsplit hprose
    exact ⟨c', hc', by simp [hreload, htext]⟩
  refine ⟨⟨fun hsame => ?_, fun htop => ?_⟩, hgoesOn⟩
  · -- Otherwise there are only as many nodes as before.
    by_contra htop
    have hne' : b₀.tree.contents ≠ [] := by simpa [Tree.contents] using htop
    rw [hread] at hne'
    obtain ⟨cs, c, hcs⟩ := (List.eq_nil_or_concat' f.contents).resolve_left (by simpa using hne')
    obtain ⟨c', -, hc'⟩ := hgoesOn (cs.map some) c (by simp [hread, hcs])
    have hlength := congrArg List.length (hsame.symm.trans hc')
    simp [hread, hcs] at hlength
  · have hnil : f.contents = [] := by simpa [hread, Tree.contents, htop] using hread.symm
    have hparts : f.parts = [] := List.map_eq_nil_iff.1 hnil
    have hpart : Part.IsRead rules ⟨f.lineStart, trim text, .prose (trim text)⟩ :=
      ⟨Part.isNode_prose rules hprose, Part.isGap_prose f.isLineStart hprose⟩
    rw [hreload, f.contents_text hpart fun hne => absurd hparts hne, hread, List.map_append,
      List.map_singleton]

/-- A paragraph behind a tag becomes its description. -/
theorem contents_reload_addProse_description :
    let b₀ := read Rules.standard none "/**\n * A.\n *\n * @return int\n */".toList
    let b := (outcome (addProse " B. ".toList) b₀).2
    let b₁ := read Rules.standard none (b.print {} [' '])
    (pairsReturns "/**\n * A.\n *\n * @return int\n */".toList ∧ (∀ c ∈ [' '], isBlank c) ∧
      (outcome (addProse " B. ".toList) b₀).1 = .ok 2 ∧ '\r' ∉ trim " B. ".toList ∧
      '\n' ∉ trim " B. ".toList ∧ startsTag (trim " B. ".toList) = false ∧
      (trim " B. ".toList).head? ≠ some '*') ∧
    ((b₁.tree.contents = b₀.tree.contents ++ [some (.prose (trim " B. ".toList))] ↔
        b₀.tree.top = []) ∧
      ∀ cs c, b₀.tree.contents = cs ++ [some c] → ∃ c',
        Node.Content.GoesOn Rules.standard (trim " B. ".toList) c c' ∧
          b₁.tree.contents = cs ++ [some c']) ∧
    b₁.tree.contents = [some (.prose "A.".toList), some (.tag "return".toList
      (.typed ⟨.name "int".toList, none, "B.".toList⟩))] :=
  ⟨⟨by decide +kernel, List.forall_mem_singleton.2 rfl, by decide +kernel, by decide +kernel,
      by decide +kernel, by decide +kernel, by decide +kernel⟩,
    @contents_reload_addProse Rules.standard none _ _ _ 2 (by decide +kernel)
      (List.forall_mem_singleton.2 rfl) (by decide +kernel) (by decide +kernel) (by decide +kernel)
      (by decide +kernel) (by decide +kernel),
    by decide +kernel⟩

/-- A paragraph behind another one becomes its second line. -/
theorem not_contents_reload_addProse_paragraph :
    let b₀ := read Rules.standard none "/**\n * A.\n */".toList
    let b := (outcome (addProse "B.".toList) b₀).2
    let b₁ := read Rules.standard none (b.print {} [])
    (pairsReturns "/**\n * A.\n */".toList ∧ (outcome (addProse "B.".toList) b₀).1 = .ok 1 ∧
      '\r' ∉ trim "B.".toList ∧ '\n' ∉ "B.".toList ∧
      (trim "B.".toList).head? ≠ some '@' ∧ (trim "B.".toList).head? ≠ some '*') ∧
    b.print {} [] = "/**\n * A.\n * B.\n */".toList ∧
      b₁.tree.contents = [some (.prose "A.\nB.".toList)] ∧
      b₁.tree.contents ≠ b₀.tree.contents ++ [some (.prose (trim "B.".toList))] := by
  decide +kernel

/-! ### Tags -/

lemma write_pushTag (b : Block) (name : Text) (r : Reading) :
    (b.pushTag name r).1.write (b.pushTag name r).2 =
      '@' :: name ++ afterBlank (r.write b.rules.types) := by
  have hcontent : (b.pushTag name r).1.tree.content? (b.pushTag name r).2 =
      some (r.content name) :=
    (Tree.content?_congr fun _ _ => rfl).trans (Tree.content?_makeTag b.tree name r)
  rw [write, Tree.write_eq_of_content? hcontent, Reading.write_content]
  rfl

/-- A payload on one line fits on the lines of a comment. -/
lemma isPayload_of_line {payload : Text} (hreturn : '\r' ∉ payload) (hline : '\n' ∉ payload) :
    IsPayload payload := by
  by_cases hnil : payload = []
  · exact .inl hnil
  · rw [IsPayload, splitOn_of_not_mem hline]
    exact .inr ⟨hreturn, by simpa using hnil, by simp⟩

/-- A tag that is written on a line of its own is read behind the other nodes. -/
lemma exists_contents_text_of_tag {rules : Rules} (f : Frame rules) {name payload : Text}
    (hname : IsTagName name) (h : Writable false payload) : ∃ c : Node.Content,
      c.tagName? = some name ∧ (Tree.ofTokens rules (scan (f.text
        (joinLines f.lineStart ('@' :: name ++ afterBlank payload))))).contents =
          (f.contents ++ [c]).map some := by
  obtain ⟨hhead, hmarker⟩ := marker_written f.lineStart hname h
  obtain ⟨j, htokens⟩ := ofTokens_written f.isLineStart rules hname h 0
  have hparts := Part.parts_lineStart (c := Node.Content.ofPayload rules name
    (scanFrom false j (reline f.lineStart payload))) f.isLineStart hhead hmarker
  refine ⟨_, Node.Content.tagName?_ofPayload rules name _,
    f.contents_text (hparts.isRead ⟨?_, fun i => ?_, ?_⟩) fun _ => hparts⟩
  · exact solid_written f.isLineStart hname h
  · dsimp only
    rw [← htokens]
    exact Node.Content.ofTokens_congr rules (map_lexeme_scanFrom false i 0 _)
  · exact getLast?_written hname h

/-- A tag that is added is read again as one more node of its name just if the characters of its
name are those of tag names. -/
theorem tagsNamed_reload_addTag_iff {rules : Rules} (hrules : rules.IsUsual)
    (declaration? : Option Nat) {raw name payload indent : Text} {id : NodeId}
    (hr : pairsReturns raw) (hindent : ∀ c ∈ indent, isBlank c)
    (haccepted : (outcome (addTag name payload) (read rules declaration? raw)).1 = .ok id)
    (hreturn : '\r' ∉ trim payload) (hline : '\n' ∉ trim payload) :
    let b₀ := read rules declaration? raw
    let b := (outcome (addTag name payload) b₀).2
    let b₁ := read rules declaration? (b.print {} indent)
    (b₁.tree.top.length = b₀.tree.top.length + 1 ∧
        (b₁.tagsNamed name).getLast? = b₁.tree.top.getLast?) ↔ IsTagName (bareName name) := by
  intro b₀ b b₁
  constructor
  · -- No tag of another name is ever read.
    rintro ⟨hlength, hlast⟩
    obtain ⟨i, hi⟩ : ∃ i, b₁.tree.top.getLast? = some i :=
      Option.isSome_iff_exists.1 (List.getLast?_isSome.2 (List.ne_nil_of_length_pos (by omega)))
    obtain ⟨htop, n, hn, hname⟩ := mem_tagsNamed (List.mem_of_getLast? (hlast.trans hi))
    have hc : b₁.tree.content? i = some (b₁.tree.contentOf n) := by rw [Tree.content?, hn]; rfl
    refine isTagName_of_content?_read htop hc ?_
    rw [← Tree.isTagNamed_iff hc, hn]
    simpa [isTagNamed] using hname
  · intro hname
    obtain ⟨hpayload, hb⟩ : checkContent payload = .ok () ∧
        b = (b₀.pushTag (bareName name) (rules.resolve (bareName name) (trim payload))).1 := by
      have hout : outcome (addTag name payload) b₀ = (.ok id, b) := Prod.ext haccepted rfl
      obtain ⟨-, hpayload, hpush⟩ := pushTag_of_addTag hout
      exact ⟨hpayload, (congrArg Prod.fst hpush).symm⟩
    obtain ⟨s, hs⟩ := exists_segments (scan raw)
    have h₀ := Tree.unedited_ofTokens rules (scan raw)
    have happends := @appends_pushTag b₀ _ _ h₀ (bareName name)
      (rules.resolve (bareName name) (trim payload))
    rw [← hb] at happends
    obtain ⟨f, hprint, hcontents⟩ := exists_frame hs happends hr hindent
    have hwritable := hrules.writable_write (bareName name)
      (writable_trim (isPayload_of_line hreturn hline) hpayload)
    obtain ⟨c, hc, htext⟩ := exists_contents_text_of_tag f hname hwritable
    have hwrite := write_pushTag b₀ (bareName name) (rules.resolve (bareName name) (trim payload))
    rw [← hb] at hwrite
    rw [hwrite] at hprint
    have hreload : b₁.tree.contents = (f.contents ++ [c]).map some := by
      rw [← htext]
      exact congrArg (fun x => (Tree.ofTokens rules (scan x)).contents) hprint
    have hlength : f.contents.length = b₀.tree.top.length := by
      rw [hcontents, List.length_map, ← length_top_read rules declaration? hs]
    rw [List.map_append, List.map_singleton] at hreload
    obtain ⟨ids, ids', htop, hids, hlast⟩ := List.map_eq_append_iff.1 hreload
    obtain ⟨i, rfl, hi⟩ := List.map_eq_singleton_iff.1 hlast
    refine ⟨?_, ?_⟩
    · rw [htop, List.length_append, ← List.length_map (f := b₁.tree.content?), hids,
        List.length_map, hlength]
      rfl
    · have hnamed := (Tree.isTagNamed_iff hi (bareName name)).2 hc
      have hone : [i].filter (fun i => (b₁.tree.node? i).any (isTagNamed (bareName name))) = [i] :=
        List.filter_cons_of_pos hnamed
      rw [tagsNamed_eq_filter, htop, List.filter_append, hone, List.getLast?_concat,
        List.getLast?_concat]

/-- A tag whose payload is read as a type. -/
theorem tagsNamed_reload_addTag_return :
    let b₀ := read Rules.standard none "/** A. */".toList
    let b := (outcome (addTag "@return".toList "int|null  b".toList) b₀).2
    let b₁ := read Rules.standard none (b.print {} ['\t'])
    (pairsReturns "/** A. */".toList ∧ (∀ c ∈ ['\t'], isBlank c) ∧
      (outcome (addTag "@return".toList "int|null  b".toList) b₀).1 = .ok 1 ∧
      '\r' ∉ trim "int|null  b".toList ∧ '\n' ∉ trim "int|null  b".toList) ∧
    ((b₁.tree.top.length = b₀.tree.top.length + 1 ∧
        (b₁.tagsNamed "@return".toList).getLast? = b₁.tree.top.getLast?) ↔
      IsTagName (bareName "@return".toList)) ∧
    IsTagName (bareName "@return".toList) ∧ b₁.tagsNamed "@return".toList = [1] :=
  ⟨⟨by decide +kernel, List.forall_mem_singleton.2 rfl, by decide +kernel, by decide +kernel,
      by decide +kernel⟩,
    @tagsNamed_reload_addTag_iff Rules.standard (.inr rfl) none _ _ _ _ 1 (by decide +kernel)
      (List.forall_mem_singleton.2 rfl) (by decide +kernel) (by decide +kernel) (by decide +kernel),
    by decide +kernel, by decide +kernel⟩

/-- A tag whose name has a letter that tag names have not goes on with the paragraph in front of
it. -/
theorem not_tagsNamed_reload_addTag_letter :
    let b₀ := read Rules.standard none "/**\n * A.\n */".toList
    let b := (outcome (addTag "é".toList "x".toList) b₀).2
    let b₁ := read Rules.standard none (b.print {} [])
    (pairsReturns "/**\n * A.\n */".toList ∧ b₀.tree.top ≠ [] ∧
      (outcome (addTag "é".toList "x".toList) b₀).1 = .ok 1) ∧
    b.print {} [] = "/**\n * A.\n * @é x\n */".toList ∧
      b₁.tree.contents = [some (.prose "A.\n@é x".toList)] ∧
      b₁.tree.top.length ≠ b₀.tree.top.length + 1 ∧ b₁.tagsNamed "é".toList = [] := by
  decide +kernel

end Block

end DocComment
