import DocComment.Proofs.Token.Part

/-!
# Comments that are put together of nodes

Where a gap is read as separators and the text behind it as one node, a part of a comment can be put
behind others if the gap parts it from them (`Part.IsRead`, `Part.Parts`). A comment that is put
together of such parts is cut into them again (`exists_segments_of_parts`), so it is read as their
nodes, in order (`contents_of_parts`).
-/

namespace DocComment

open Text Token

/-- The text of a node with what stands in front of it, and what the node says. -/
structure Part where
  gap : Text
  body : Text
  content : Node.Content

/-- The part of a comment that a node takes. -/
def Segment.part (rules : Rules) (n : Segment) : Part :=
  ⟨source n.gap, source n.body, Node.Content.ofTokens rules n.body⟩

namespace Part

def text (p : Part) : Text := p.gap ++ p.body

/-- A text is read as one node, which says `c`. -/
structure IsNode (rules : Rules) (body : Text) (c : Node.Content) : Prop where
  solid : ∀ i, Solid (scanFrom false i body)
  content : ∀ i, Node.Content.ofTokens rules (scanFrom false i body) = c
  getLast? : body.getLast? ≠ some '\r'

/-- In front of the text a gap is read as separators that have the property `q`. -/
def IsGap (gap body : Text) (q : List Token → Prop) : Prop :=
  ∀ i rest, ∃ ts, (∀ t ∈ ts, t.isSeparator) ∧ q ts ∧ scanFrom false i (gap ++ (body ++ rest)) =
    ts ++ scanFrom false (i + byteSize gap) (body ++ rest)

/-- The gap is read as separators, and the text behind it as the node. -/
structure IsRead (rules : Rules) (p : Part) : Prop where
  node : IsNode rules p.body p.content
  gap : IsGap p.gap p.body fun _ => True

/-- The gap parts the node from the one in front of it. -/
structure Parts (p : Part) : Prop where
  stops : ∀ y, stops (p.gap ++ y)
  gap : ∀ j, IsGap p.gap p.body fun ts => (scanFrom false j p.body).head?.any (startsNode ts)

variable {rules : Rules} {p : Part} {ps : List Part} {y : Text}

lemma IsNode.ne_nil {body : Text} {c : Node.Content} (h : IsNode rules body c) : body ≠ [] := by
  rintro rfl
  have hsolid := h.solid 0
  rw [scanFrom_nil] at hsolid
  exact hsolid.ne_nil rfl

/-- The start of a line with a star is the same in front of any text. -/
lemma isGap_starred {nl bl : Text} (hnl : IsNewline nl) (hbl : ∀ c ∈ bl, isBlank c) (body : Text) :
    IsGap (nl ++ bl ++ ['*', ' ']) body fun _ => True := by
  intro i rest
  refine ⟨[⟨.lineBreak, nl ++ bl ++ ['*', ' '], i⟩], by simp [isSeparator], trivial, ?_⟩
  rw [List.append_assoc nl]
  exact scanFrom_newline hnl (decoration_starred hbl (body ++ rest)) i

/-- In front of a text that stops it a part is read as one node. -/
lemma IsRead.exists_node (h : p.IsRead rules) (hy : Token.stops y) (i : Nat) :
    ∃ n : Segment, scanFrom false i (p.text ++ y) =
        n.tokens ++ scanFrom false (i + byteSize p.text) y ∧
      n.part rules = p ∧ (p.Parts → n.starts) := by
  obtain ⟨ts, hsep, -, hgap⟩ := h.gap i y
  have hsolid := h.node.solid (i + byteSize p.gap)
  have hstarts : p.Parts → Segment.starts ⟨ts, scanFrom false (i + byteSize p.gap) p.body, hsep,
      hsolid⟩ := by
    intro hp
    obtain ⟨ts', -, hstarts, hgap'⟩ := hp.gap (i + byteSize p.gap) i y
    obtain rfl : ts' = ts := List.append_cancel_right (hgap'.symm.trans hgap)
    exact hstarts
  have hsource : source ts = p.gap := by
    have hcut := congrArg source hgap
    rw [source_scanFrom, source_append, source_scanFrom] at hcut
    exact (List.append_cancel_right hcut).symm
  refine ⟨⟨ts, scanFrom false (i + byteSize p.gap) p.body, hsep, hsolid⟩, ?_, ?_, hstarts⟩
  swap
  · rw [Segment.part, hsource, source_scanFrom, h.node.content]
  have hlast : ∀ t ∈ (scanFrom false (i + byteSize p.gap) p.body).getLast?,
      t.isSeparator → startsBlank y = false := by
    intro t ht hsep
    rw [hsolid.isSeparator_getLast t ht] at hsep
    cases hsep
  rw [text, List.append_assoc, hgap,
    scanFrom_append hy _ (fun hr => absurd hr h.node.getLast?) hlast h.node.ne_nil,
    byteSize_append, Nat.add_assoc, Segment.tokens, List.append_assoc]

lemma stops_flatMap (hparts : ∀ p ∈ ps.head?, p.Parts) (hy : Token.stops y) :
    Token.stops (ps.flatMap text ++ y) := by
  cases ps with
  | nil => exact hy
  | cons p ps =>
    rw [List.flatMap_cons, text, List.append_assoc, List.append_assoc]
    exact (hparts p rfl).stops _

/-- Parts that are parted from what stands in front of them are read as nodes that start there. -/
lemma exists_nodes (h : ∀ p ∈ ps, p.IsRead rules) (hparts : ∀ p ∈ ps, p.Parts)
    (hy : Token.stops y) (i : Nat) :
    ∃ nodes : List Segment, scanFrom false i (ps.flatMap text ++ y) =
        nodes.flatMap Segment.tokens ++ scanFrom false (i + byteSize (ps.flatMap text)) y ∧
      nodes.map (Segment.part rules) = ps ∧ ∀ n ∈ nodes, n.starts := by
  induction ps generalizing i with
  | nil => exact ⟨[], by simp, rfl, by simp⟩
  | cons p ps ih =>
    have hps : ∀ p ∈ ps, p.Parts := fun p hp => hparts p (List.mem_cons_of_mem _ hp)
    have hstops : Token.stops (ps.flatMap text ++ y) :=
      stops_flatMap (fun p hp => hps p (List.mem_of_mem_head? hp)) hy
    obtain ⟨n, hn, hc, hstarts⟩ := (h p List.mem_cons_self).exists_node hstops i
    obtain ⟨nodes, hnodes, hcs, hall⟩ := ih (fun p hp => h p (List.mem_cons_of_mem _ hp)) hps
      (i + byteSize p.text)
    refine ⟨n :: nodes, ?_, by simp [hc, hcs], ?_⟩
    · rw [List.flatMap_cons, List.append_assoc, hn, hnodes, List.flatMap_cons, byteSize_append,
        Nat.add_assoc, List.append_assoc]
    · intro m hm
      rcases List.mem_cons.1 hm with rfl | hm
      · exact hstarts (hparts p List.mem_cons_self)
      · exact hall m hm

end Part

section

variable (rules : Rules) {opening trail : Text} {ps : List Part}
  (hread : ∀ p ∈ ps, p.IsRead rules) (hparts : ∀ p ∈ ps.tail, p.Parts)
  (hopening : ∃ ts j, (ts = [] ∨ ∃ t, ts = [t] ∧ t.kind = .opening) ∧
    scan (opening ++ (ps.flatMap Part.text ++ trail)) =
      ts ++ scanFrom false j (ps.flatMap Part.text ++ trail))
  (hstops : stops trail) (hclosing : ∀ i, ∀ t ∈
    ((scanFrom false i trail).dropWhile Token.isSeparator).head?, t.kind = .closing)

include hread hparts hopening hstops hclosing

/-- A comment that is put together of parts is cut into them. -/
theorem exists_segments_of_parts : ∃ s : Segments,
    s.tokens = scan (opening ++ (ps.flatMap Part.text ++ trail)) ∧ source s.opening = opening ∧
      s.nodes.map (Segment.part rules) = ps ∧ source s.trail = trail := by
  obtain ⟨ts, j, hts, hscan⟩ := hopening
  obtain ⟨nodes, k, hnodes, hps, hstarts⟩ : ∃ (nodes : List Segment) (k : Nat),
      scanFrom false j (ps.flatMap Part.text ++ trail) =
        nodes.flatMap Segment.tokens ++ scanFrom false k trail ∧
      nodes.map (Segment.part rules) = ps ∧ ∀ n ∈ nodes.tail, n.starts := by
    cases ps with
    | nil => exact ⟨[], j, by simp, rfl, by simp⟩
    | cons p ps =>
      have hps : ∀ p ∈ ps, p.Parts := hparts
      have hrest : stops (ps.flatMap Part.text ++ trail) :=
        Part.stops_flatMap (fun p hp => hps p (List.mem_of_mem_head? hp)) hstops
      obtain ⟨n, hn, hc, -⟩ := (hread p List.mem_cons_self).exists_node hrest j
      obtain ⟨nodes, hnodes, hcs, hall⟩ := Part.exists_nodes
        (fun p hp => hread p (List.mem_cons_of_mem _ hp)) hps hstops (j + byteSize p.text)
      refine ⟨n :: nodes, j + byteSize p.text + byteSize (ps.flatMap Part.text), ?_,
        by rw [List.map_cons, hc, hcs], hall⟩
      rw [List.flatMap_cons, List.append_assoc, hn, hnodes, List.flatMap_cons, List.append_assoc]
  have hcases : (∃ t, ts = [t] ∧ t.kind = .opening) ∨ ts = [] ∧
      ∀ t ∈ (nodes.flatMap Segment.tokens ++ scanFrom false k trail).head?, t.kind ≠ .opening := by
    refine hts.symm.imp_right fun hnil => ⟨hnil, fun t ht => ?_⟩
    rw [← hnodes] at ht
    exact kind_ne_opening (List.mem_of_mem_head? ht)
  refine ⟨⟨ts, nodes, scanFrom false k trail, hcases, hstarts, hclosing k⟩, ?_, ?_, hps,
    source_scanFrom false k trail⟩
  · rw [hscan, hnodes, ← List.append_assoc]
    rfl
  · have hcut := congrArg source hscan
    rw [source_scan, source_append, source_scanFrom] at hcut
    exact (List.append_cancel_right hcut).symm

/-- A comment that is put together of parts is read as their nodes. -/
theorem contents_of_parts :
    (Tree.ofTokens rules (scan (opening ++ (ps.flatMap Part.text ++ trail)))).contents =
      ps.map fun p => some p.content := by
  obtain ⟨s, hs, -, hps, -⟩ := exists_segments_of_parts rules hread hparts hopening hstops hclosing
  rw [← hs, contents_ofTokens, ← hps, List.map_map]
  rfl

end

end DocComment
