import DocComment.Proofs.Block.Reload
import DocComment.Proofs.Tree.Rewritten

/-!
# Printing all nodes anew

A block all of whose nodes are marked as changed prints its canonical form: the text that it was
read from with every node written anew where it stood (`print_markAll`). That is read as just as
many nodes, which are written alike (`Segments.exists_segments_rewrite`). So printing it once more
changes at most the starts of lines: those of the printed text may be found to be others, where the
line that they are taken from is no more (`print_markAll_idempotent_iff`).
-/

namespace DocComment

open Text Token

/-! ### Marking all nodes -/

namespace Block

/-- The block with all of its nodes marked as changed. -/
def markAll (b : Block) : Block := b.run (b.tree.top.map .markChanged)

section

variable {b : Block} {ids : List NodeId}

lemma run_markChanged (h : ∀ id ∈ ids, id ∈ b.tree.top) :
    b.run (ids.map .markChanged) = ids.foldl withMark b := by
  induction ids generalizing b with
  | nil => rfl
  | cons id ids ih =>
    obtain ⟨hid, hids⟩ := List.forall_mem_cons.1 h
    have hstep : ((Operation.markChanged id).apply b).2 = b.withMark id := by
      rw [Operation.apply, Operation.edit, outcome_map, outcome_markChanged,
        if_pos (contains_of_mem_top hid)]
    have hrest : (b.withMark id).run (ids.map .markChanged) = ids.foldl withMark (b.withMark id) :=
      ih hids
    rw [List.foldl_cons, ← hrest, ← hstep]
    rfl

variable (b ids)

lemma foldl_withMark :
    (ids.foldl withMark b).tree.nodes = b.tree.nodes ∧
      (ids.foldl withMark b).tree.top = b.tree.top ∧
      (ids.foldl withMark b).dirty = (b.dirty || !ids.isEmpty) ∧
      ∀ id, (ids.foldl withMark b).tree.attributes.isChanged id =
        (decide (id ∈ ids) || b.tree.attributes.isChanged id) := by
  induction ids generalizing b with
  | nil => simp
  | cons id ids ih =>
    obtain ⟨hnodes, htop, hdirty, hchanged⟩ := ih (b.withMark id)
    refine ⟨hnodes, htop, ?_, fun id' => ?_⟩
    · rw [List.foldl_cons, hdirty]
      simp [withMark]
    · rw [List.foldl_cons, hchanged]
      simp [withMark, Tree.markChanged, Bool.or_assoc, Bool.or_left_comm]

lemma markAll_eq : b.markAll = b.tree.top.foldl withMark b := run_markChanged fun _ h => h

lemma top_markAll : b.markAll.tree.top = b.tree.top := by
  rw [markAll_eq]
  exact (foldl_withMark b _).2.1

lemma dirty_markAll : b.markAll.dirty = (b.dirty || !b.tree.top.isEmpty) := by
  rw [markAll_eq]
  exact (foldl_withMark b _).2.2.1

lemma content?_markAll (id : NodeId) : b.markAll.tree.content? id = b.tree.content? id := by
  have hnodes : b.markAll.tree.nodes = b.tree.nodes := by
    rw [markAll_eq]
    exact (foldl_withMark b _).1
  exact Tree.content?_congr fun i _ => by rw [Tree.node?, Tree.node?, hnodes]

variable {b} in
lemma isModified_markAll {id : NodeId} (h : id ∈ b.tree.top) : b.markAll.tree.isModified id := by
  have hchanged : b.markAll.tree.attributes.isChanged id := by
    rw [markAll_eq, (foldl_withMark b _).2.2.2]
    simp [h]
  simp [Tree.isModified, hchanged]

end

end Block

/-! ### The canonical form -/

/-- The parts of a comment, one for every node. -/
def Segments.parts (rules : Rules) (s : Segments) : List Part := s.nodes.map (Segment.part rules)

/-- The part with its node written anew, as it is read again. -/
def Part.rewrite (rules : Rules) (ls : Text) (p : Part) : Part :=
  let body := joinLines ls (p.content.write rules.types)
  ⟨p.gap, body, Node.Content.ofTokens rules (scanFrom false 0 body)⟩

namespace Block

variable {rules : Rules} {declaration? : Option Nat} {raw : Text} {s : Segments}
  (hs : s.tokens = scan raw)

variable (rules declaration? raw) in
lemma derives_markAll :
    Derives (read rules declaration? raw) (read rules declaration? raw).markAll := by
  rw [markAll, run_eq_act]
  exact derives_act (Tree.unedited_ofTokens rules (scan raw)) _

include hs

lemma splicedNode_markAll {k : Nat} {n : Segment} {id : NodeId} (hn : s.nodes[k]? = some n)
    (hid : (read rules declaration? raw).tree.top[k]? = some id) (ls : Text) :
    splicedNode (read rules declaration? raw) (read rules declaration? raw).markAll ls id =
      ((n.part rules).rewrite rules ls).body := by
  have hcontent : (read rules declaration? raw).markAll.tree.content? id =
      some (Node.Content.ofTokens rules n.body) := by
    rw [content?_markAll, content?_read hs hn hid]
  have hrules : (read rules declaration? raw).markAll.rules = rules :=
    (derives_markAll rules declaration? raw).rules
  rw [splicedNode, idxOf?_top_read hid]
  dsimp only
  rw [if_pos (isModified_markAll (List.mem_of_getElem? hid)), write, hrules,
    Tree.write_eq_of_content? hcontent, ← joinLines_eq_canonicalText]
  rfl

/-- All nodes marked as changed print as they are written, between what stands between them. -/
theorem print_markAll (rules : Rules) (declaration? : Option Nat) (p : Printer) (indent : Text) :
    (read rules declaration? raw).markAll.print p indent = source s.opening ++
      (((s.parts rules).map (Part.rewrite rules (lineStart p indent s.tokens))).flatMap Part.text ++
        source s.trail) := by
  have hlength := length_top_read rules declaration? hs
  have h := derives_markAll rules declaration? raw
  cases hns : s.nodes with
  | nil =>
    have htop : (read rules declaration? raw).tree.top = [] := by
      rw [← List.length_eq_zero_iff, hlength, hns]
      rfl
    have hraw : (read rules declaration? raw).raw = source s.opening ++ source s.trail := by
      rw [raw_read hs, Segments.tokens, hns]
      simp
    rw [print, if_pos (by simp [dirty_markAll, htop]; rfl), h.raw, hraw, Segments.parts, hns]
    rfl
  | cons n ns =>
    obtain ⟨first, rest, htop⟩ :
        ∃ first rest, (read rules declaration? raw).tree.top = first :: rest := by
      refine List.exists_cons_of_ne_nil fun hnil => ?_
      rw [hnil, hns] at hlength
      cases hlength
    have hdirty : (read rules declaration? raw).markAll.dirty := by simp [dirty_markAll, htop]
    have htop' : (read rules declaration? raw).markAll.tree.top = first :: rest :=
      (top_markAll _).trans htop
    have hwrap : (layoutOf p indent (read rules declaration? raw).markAll s).rewrap = false := by
      rw [htop, hns, List.length_cons, List.length_cons, Nat.succ_inj] at hlength
      cases ns with
      | nil => simp [layoutOf, htop', hlength]
      | cons m ns =>
        have hm : s.nodes[1]? = some m := by simp [hns]
        have hbreak := Segments.hasBreak_of_pos Nat.one_pos hm
        simp [layoutOf, hbreak]
    have hfirst : splicedNode (read rules declaration? raw) (read rules declaration? raw).markAll
        (lineStart p indent s.tokens) first =
          ((n.part rules).rewrite rules (lineStart p indent s.tokens)).body :=
      splicedNode_markAll hs (k := 0) (by simp [hns]) (by simp [htop]) _
    have htext : ((n.part rules).rewrite rules (lineStart p indent s.tokens)).text =
        source n.gap ++ ((n.part rules).rewrite rules (lineStart p indent s.tokens)).body := rfl
    rw [print_of_not_rewrap hs h hns hdirty htop' hwrap, hfirst,
      flatMap_spliced hs htop hns _ fun hn hid => splicedNode_markAll hs hn hid _, Segments.parts,
      hns, List.map_cons, List.map_cons, List.flatMap_cons, htext, List.map_map, List.flatMap_map,
      source_append]
    simp only [List.append_assoc]
    rfl

end Block

/-! ### Reading the canonical form -/

namespace Segments

variable {raw ls : Text} {s : Segments} {stars : Bool} (hs : s.tokens = scan raw)
  (hr : pairsReturns raw)
  (hstars : stars = false → ∀ t ∈ scan raw, t.kind = .lineBreak → '*' ∉ t.text)

include hs hr

lemma pairsReturns_body {k : Nat} {n : Segment} (hn : s.nodes[k]? = some n) :
    pairsReturns (source n.body) := by
  have hraw : source (s.before k ++ n.gap) ++ (source n.body ++ source (s.after k)) = raw := by
    rw [← source_scan raw, ← hs, tokens_eq hn]
    simp
  exact pairsReturns_of_append (pairsReturns_of_suffix ⟨_, hraw⟩ hr) (getLast?_body hs hn hr)

include hstars

/-- A node that is written anew is read as one that is written alike. -/
lemma isNode_rewrite {k : Nat} {n : Segment} (hn : s.nodes[k]? = some n) :
    let p := n.part .standard
    Text.keepsLines stars (p.content.write .standard) ∧ ∀ ls, IsLineStart stars ls →
      (p.rewrite .standard ls).content.write .standard = p.content.write .standard ∧
        Part.IsNode .standard (p.rewrite .standard ls).body (p.rewrite .standard ls).content ∧
        Part.StartsLike p.body (p.rewrite .standard ls).body := by
  intro p
  have hlex := map_lexeme_body hs hn 0
  have hbreaks : stars = false →
      ∀ t ∈ scanFrom false 0 (source n.body), t.kind = .lineBreak → '*' ∉ t.text := by
    intro hfalse t ht hk
    have hmem : lexeme t ∈ n.body.map lexeme := hlex ▸ List.mem_map_of_mem ht
    obtain ⟨u, hu, hlexeme⟩ := List.mem_map.1 hmem
    obtain ⟨hkind, htext⟩ := Prod.mk.inj hlexeme
    rw [← htext]
    refine hstars hfalse u ?_ (hkind.trans hk)
    rw [← hs, tokens_eq hn]
    simp [hu]
  obtain ⟨hkeeps, hrewrite⟩ := (isNode_body hs hn .standard hr).exists_rewritten
    (pairsReturns_body hs hr hn) hbreaks
  refine ⟨hkeeps, fun ls hls => ?_⟩
  obtain ⟨c', hwrite, hnode, hlike⟩ := hrewrite ls hls
  obtain rfl : (p.rewrite .standard ls).content = c' := hnode.content 0
  exact ⟨hwrite, hnode, hlike⟩

variable (hls : IsLineStart stars ls)

include hls

/-- What stands in front of a node does so in front of the node that is written anew. -/
lemma isRead_rewrite {k : Nat} {n : Segment} (hn : s.nodes[k]? = some n) :
    ((n.part .standard).rewrite .standard ls).IsRead .standard ∧
      (0 < k → ((n.part .standard).rewrite .standard ls).Parts) := by
  obtain ⟨-, hnode, hlike⟩ := (isNode_rewrite hs hr hstars hn).2 ls hls
  have hhead : ((n.part .standard).rewrite .standard ls).body.head? = (source n.body).head? :=
    hlike.head?
  refine ⟨⟨hnode, fun i rest => ?_⟩, fun hk => parts_gap hs hn hk (.inl hhead) fun j => ?_⟩
  · have hne : ((n.part .standard).rewrite .standard ls).body ≠ [] := hnode.ne_nil
    obtain ⟨ts, hsep, -, hscan⟩ := isGap_gap hs hn hne (.inl hhead) i rest
    exact ⟨ts, hsep, trivial, hscan⟩
  · obtain ⟨t, us, hbody, -⟩ := n.solid.exists_cons
    obtain ⟨u, vs, hu, hkind, -⟩ := exists_of_map_lexeme_cons ((map_lexeme_body hs hn 0).trans
      (congrArg _ hbody))
    have hkinds := hlike.kind 0 j
    change _ = (scanFrom false 0 (source n.body)).head?.map kind at hkinds
    rw [hu, List.head?_cons, Option.map_some, hkind, Option.map_eq_some_iff] at hkinds
    obtain ⟨v, hv, hvkind⟩ := hkinds
    exact ⟨v, hv, .inl (by rw [hbody, hvkind]; rfl)⟩

omit hls hr hstars in
/-- Behind the first node stands what stood there. -/
lemma head?_behind_first (ls : Text) {n : Segment} {ns : List Segment} (hns : s.nodes = n :: ns) :
    (((ns.map (Segment.part .standard)).map (Part.rewrite .standard ls)).flatMap Part.text ++
      source s.trail).head? = (source (ns.flatMap Segment.tokens ++ s.trail)).head? := by
  cases ns with
  | nil => rfl
  | cons m ms =>
    have hm : s.nodes[1]? = some m := by simp [hns]
    have hgap := (head?_source_gap hs hm (gap_ne_nil Nat.one_pos hm)).1
    rw [List.map_cons, List.map_cons, List.flatMap_cons, Part.text, List.flatMap_cons,
      Segment.tokens]
    simp only [List.append_assoc, source_append]
    rw [List.head?_append_of_ne_nil _ hgap, ← List.head?_append_of_ne_nil _ hgap]
    rfl

/-- A comment whose nodes are written anew has the same parts, written anew. -/
theorem exists_segments_rewrite : ∃ s' : Segments,
    s'.tokens = scan (source s.opening ++ (((s.parts .standard).map
      (Part.rewrite .standard ls)).flatMap Part.text ++ source s.trail)) ∧
      source s'.opening = source s.opening ∧
      s'.parts .standard = (s.parts .standard).map (Part.rewrite .standard ls) ∧
      source s'.trail = source s.trail := by
  cases hns : s.nodes with
  | nil =>
    have hraw : source s.opening ++ source s.trail = raw := by
      rw [← source_scan raw, ← hs, Segments.tokens, hns]
      simp
    refine ⟨s, ?_, rfl, by rw [Segments.parts, hns]; rfl, rfl⟩
    rw [Segments.parts, hns, List.map_nil, List.map_nil, List.flatMap_nil, List.nil_append,
      hraw, hs]
  | cons n ns =>
    have hn : s.nodes[0]? = some n := by simp [hns]
    have hparts : (s.parts .standard).map (Part.rewrite .standard ls) =
        (n.part .standard).rewrite .standard ls ::
          (ns.map (Segment.part .standard)).map (Part.rewrite .standard ls) := by
      rw [Segments.parts, hns, List.map_cons, List.map_cons]
    have hrest : ∀ p ∈ (ns.map (Segment.part .standard)).map (Part.rewrite .standard ls),
        p.IsRead .standard ∧ p.Parts := by
      intro p hp
      obtain ⟨q, hq, rfl⟩ := List.mem_map.1 hp
      obtain ⟨m, hm, rfl⟩ := List.mem_map.1 hq
      obtain ⟨k, hk⟩ := List.mem_iff_getElem?.1 hm
      have hm : s.nodes[k + 1]? = some m := by simp [hns, hk]
      obtain ⟨hread, hpart⟩ := isRead_rewrite hs hr hstars hls hm
      exact ⟨hread, hpart (Nat.succ_pos k)⟩
    have hfirst := (isRead_rewrite hs hr hstars hls hn).1
    have hlike := ((isNode_rewrite hs hr hstars hn).2 ls hls).2.2
    have hbehind := head?_behind_first hs ls hns
    rw [hparts]
    generalize (ns.map (Segment.part .standard)).map (Part.rewrite .standard ls) = rest
      at hrest hbehind ⊢
    refine exists_segments_of_parts .standard ?_ (fun p hp => (hrest p hp).2) ?_ (stops_trail hs)
      (head_scanFrom_trail hs (by simp [hns]))
    · exact List.forall_mem_cons.2 ⟨hfirst, fun p hp => (hrest p hp).1⟩
    have htext : ((n.part .standard).rewrite .standard ls :: rest).flatMap Part.text ++
        source s.trail = source n.gap ++ (((n.part .standard).rewrite .standard ls).body ++
          (rest.flatMap Part.text ++ source s.trail)) := by
      rw [List.flatMap_cons, Part.text]
      simp only [List.append_assoc]
      rfl
    rw [htext]
    refine scan_in_place hs hns hfirst.node.ne_nil (.inl hlike.head?) fun hraw _ hslash => ?_
    rw [hraw]
    exact hlike.isPrefix _ _ hbehind hslash

end Segments

/-! ### The starts of lines -/

namespace Text

variable {ls ls' s : Text} {cs : List (Option Char)}

/-- The text with `ls` in every place that is left open. -/
def fill (ls : Text) (cs : List (Option Char)) : Text := cs.flatMap (·.elim ls ([·]))

lemma fill_cons (ls : Text) (c? : Option Char) (cs : List (Option Char)) :
    fill ls (c? :: cs) = c?.elim ls ([·]) ++ fill ls cs := List.flatMap_cons

lemma fill_append (ls : Text) (cs cs' : List (Option Char)) :
    fill ls (cs ++ cs') = fill ls cs ++ fill ls cs' := List.flatMap_append

lemma fill_flatMap {α : Type} (ls : Text) (f : α → List (Option Char)) (as : List α) :
    fill ls (as.flatMap f) = as.flatMap fun a => fill ls (f a) := List.flatMap_assoc

lemma fill_map_some (ls s : Text) : fill ls (s.map some) = s := by
  induction s with
  | nil => rfl
  | cons c s ih =>
    rw [List.map_cons, fill_cons, ih]
    rfl

/-- The text with its line feeds left open. -/
def openLines (s : Text) : List (Option Char) := s.map fun c => if c = '\n' then none else some c

lemma fill_openLines (ls s : Text) : fill ls (openLines s) = reline ls s := by
  rw [fill, openLines, List.flatMap_map, reline]
  refine List.flatMap_congr fun c _ => ?_
  split_ifs <;> rfl

lemma none_mem_openLines : none ∈ openLines s ↔ '\n' ∈ s := by
  simp [openLines]

lemma length_fill (ls : Text) (cs : List (Option Char)) :
    (fill ls cs).length + cs.count none = cs.length + cs.count none * ls.length := by
  induction cs with
  | nil => simp [fill]
  | cons c? cs ih =>
    rw [fill_cons, List.length_append, List.length_cons]
    cases c? with
    | none =>
      rw [List.count_cons_self, Nat.add_mul, Nat.one_mul, Option.elim_none]
      omega
    | some c =>
      rw [List.count_cons_of_ne (by simp)]
      simp only [Option.elim_some, List.length_singleton]
      omega

/-- What stands in an open place is seen in the text. -/
lemma fill_eq_fill_iff : fill ls cs = fill ls' cs ↔ ls = ls' ∨ none ∉ cs := by
  refine ⟨fun h => ?_, ?_⟩
  · by_contra hne
    rw [not_or, not_not] at hne
    obtain ⟨hne, hmem⟩ := hne
    have hcount : 0 < cs.count none := List.count_pos_iff.2 hmem
    have hlength : ls.length = ls'.length := by
      have h₁ := length_fill ls cs
      have h₂ := length_fill ls' cs
      rw [h] at h₁
      exact Nat.eq_of_mul_eq_mul_left hcount (by omega)
    clear hcount
    induction cs with
    | nil => cases hmem
    | cons c? cs ih =>
      rw [fill_cons, fill_cons] at h
      cases c? with
      | none => exact hne (List.append_inj_left h hlength)
      | some c => exact ih (List.cons.inj h).2 (by simpa using hmem)
  · rintro (rfl | hmem)
    · rfl
    · refine List.flatMap_congr fun c? hc? => ?_
      cases c? with
      | none => exact absurd hc? hmem
      | some c => rfl

end Text

namespace Block

variable {rules : Rules} {declaration? : Option Nat} {raw : Text} {s : Segments}

lemma map_write_read (rules : Rules) (declaration? : Option Nat) (hs : s.tokens = scan raw) :
    (read rules declaration? raw).tree.top.map (read rules declaration? raw).write =
      (s.parts rules).map (·.content.write rules.types) := by
  have hlength := length_top_read rules declaration? hs
  refine List.ext_getElem (by simpa [Segments.parts] using hlength) fun k hk hk' => ?_
  have htop : k < (read rules declaration? raw).tree.top.length := by simpa using hk
  have hn : k < s.nodes.length := hlength ▸ htop
  simp only [List.getElem_map, Segments.parts]
  exact Tree.write_eq_of_content? (content?_read hs (List.getElem?_eq_getElem hn)
    (List.getElem?_eq_getElem htop))

/-- A node is on one line if what is written for it has no open place. -/
lemma forall_mem_top_read_iff (rules : Rules) (declaration? : Option Nat)
    (hs : s.tokens = scan raw) :
    (∀ id ∈ (read rules declaration? raw).tree.top, '\n' ∉ (read rules declaration? raw).write id) ↔
      none ∉ (s.parts rules).flatMap fun p =>
        p.gap.map some ++ openLines (p.content.write rules.types) := by
  have hwrite := map_write_read rules declaration? hs
  calc (∀ id ∈ (read rules declaration? raw).tree.top,
        '\n' ∉ (read rules declaration? raw).write id)
      ↔ ∀ w ∈ (read rules declaration? raw).tree.top.map (read rules declaration? raw).write,
          '\n' ∉ w := by rw [List.forall_mem_map]
    _ ↔ ∀ p ∈ s.parts rules, '\n' ∉ p.content.write rules.types := by
      rw [hwrite, List.forall_mem_map]
    _ ↔ _ := by simp [none_mem_openLines]

/-- Nodes that keep their lines stand in the canonical form with its line starts left open. -/
lemma flatMap_text_rewrite (rules : Rules) {ps : List Part} (ls : Text) {stars : Bool}
    (h : ∀ p ∈ ps, Text.keepsLines stars (p.content.write rules.types)) :
    (ps.map (Part.rewrite rules ls)).flatMap Part.text =
      fill ls (ps.flatMap fun p => p.gap.map some ++ openLines (p.content.write rules.types)) := by
  rw [fill_flatMap, List.flatMap_map]
  refine List.flatMap_congr fun p hp => ?_
  rw [fill_append, fill_map_some, fill_openLines, ← joinLines_eq ls (h p hp)]
  rfl

/-- Printing all nodes anew keeps their number, and a second time it changes nothing, exactly if the
lines of the printed text are found to start as those of the comment do, or no node has another
line. -/
theorem print_markAll_idempotent_iff (declaration? : Option Nat) {raw indent : Text}
    (hr : pairsReturns raw) (hindent : ∀ c ∈ indent, isBlank c) :
    let b₀ := read .standard declaration? raw
    let printed := b₀.markAll.print {} indent
    let b₁ := read .standard declaration? printed
    b₁.tree.top.length = b₀.tree.top.length ∧
      (b₁.markAll.print {} indent = printed ↔
        lineStart {} indent b₁.tokens = lineStart {} indent b₀.tokens ∨
          ∀ id ∈ b₀.tree.top, '\n' ∉ b₀.write id) := by
  intro b₀ printed b₁
  obtain ⟨s, hs⟩ := exists_segments (scan raw)
  obtain ⟨stars, hls, hstars⟩ := exists_isLineStart_lineStart hindent raw
  rw [← hs] at hls
  have hprinted : printed = _ := print_markAll hs .standard declaration? {} indent
  obtain ⟨s', hs', hopening, hparts, htrail⟩ := Segments.exists_segments_rewrite hs hr hstars hls
  rw [← hprinted] at hs'
  have hagain : b₁.markAll.print {} indent = _ := print_markAll hs' .standard declaration? {} indent
  have hnode : ∀ p ∈ s.parts .standard, Text.keepsLines stars (p.content.write .standard) ∧
      (p.rewrite .standard (lineStart {} indent s.tokens)).content.write .standard =
        p.content.write .standard := by
    intro p hp
    obtain ⟨n, hn, rfl⟩ := List.mem_map.1 hp
    obtain ⟨k, hk⟩ := List.mem_iff_getElem?.1 hn
    obtain ⟨hkeeps, hrewrite⟩ := Segments.isNode_rewrite hs hr hstars hk
    exact ⟨hkeeps, (hrewrite _ hls).1⟩
  have htwice : ∀ ls', ((s'.parts .standard).map (Part.rewrite .standard ls')).flatMap Part.text =
      ((s.parts .standard).map (Part.rewrite .standard ls')).flatMap Part.text := by
    intro ls'
    rw [hparts, List.map_map, List.flatMap_map, List.flatMap_map]
    refine List.flatMap_congr fun p hp => ?_
    change p.gap ++ joinLines ls' (Node.Content.write .standard _) = p.gap ++ joinLines ls' _
    rw [(hnode p hp).2]
    rfl
  refine ⟨?_, ?_⟩
  · have hlength := congrArg List.length hparts
    simp only [Segments.parts, List.length_map] at hlength
    exact (length_top_read .standard declaration? hs').trans
      (hlength.trans (length_top_read .standard declaration? hs).symm)
  · have hfill := fun ls => flatMap_text_rewrite .standard ls fun p hp => (hnode p hp).1
    rw [hagain, hprinted, hopening, htrail, htwice, hfill, hfill, List.append_cancel_left_eq,
      List.append_cancel_right_eq, fill_eq_fill_iff,
      forall_mem_top_read_iff .standard declaration? hs, hs', hs]
    rfl

/-- A type and a method get their canonical forms, and a description stays on its lines. -/
theorem print_markAll_idempotent_tags :
    let raw := "/**\n * @param (int)|A  $a  one\n *  two\n * @method f( $a,$b )\n */".toList
    let b₀ := read Rules.standard none raw
    let printed := b₀.markAll.print {} ['\t']
    let b₁ := read Rules.standard none printed
    (pairsReturns raw ∧ ∀ c ∈ ['\t'], isBlank c) ∧
      printed = "/**\n * @param int|A $a one\n * two\n * @method f($a, $b)\n */".toList ∧
      b₁.tree.top.length = b₀.tree.top.length ∧ b₁.markAll.print {} ['\t'] = printed :=
  have h := print_markAll_idempotent_iff none (by decide +kernel) (List.forall_mem_singleton.2 rfl)
  ⟨⟨by decide +kernel, List.forall_mem_singleton.2 rfl⟩, by decide +kernel, h.1,
    h.2.2 (.inl (by decide +kernel))⟩

/-- The line that the starts of lines were taken from is joined to the one in front of it. In the
printed text the next such line has another start. -/
theorem not_print_markAll_idempotent_joined_line :
    let raw := "/** @return int\n * foo\n   * @see a\n   * b */".toList
    let b₀ := read Rules.standard none raw
    let printed := b₀.markAll.print {} []
    let b₁ := read Rules.standard none printed
    pairsReturns raw ∧ printed = "/** @return int foo\n   * @see a\n * b */".toList ∧
      b₁.markAll.print {} [] = "/** @return int foo\n   * @see a\n   * b */".toList ∧
      b₁.markAll.print {} [] ≠ printed := by
  decide +kernel

end Block

end DocComment
