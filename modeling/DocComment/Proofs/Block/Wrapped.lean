import DocComment.Proofs.Block.Closing
import DocComment.Proofs.Block.State
import DocComment.Proofs.Text.Lines
import DocComment.Proofs.Text.Trim

/-!
# Comments on lines of their own

Where all nodes are put on lines of their own, every line starts with the printer's marker, and the
closing line is the marker less the spaces at its end. For a marker with one star that is a comment
unless a tab stands behind the star, so that the last line does not close it, or nothing does, so
that a line that starts with a slash closes it early (`isComment_print_wrapped_iff`).
-/

namespace DocComment

open Text Token

namespace Text

variable {ls : Text}

/-! ### Lines behind a star -/

/-- The texts of several nodes on lines that start like this. -/
lemma closes_flatMap_joinLines {α : Type} (hne : ls ≠ []) (hls : '/' ∉ ls) (as : List α)
    (f : α → Text) :
    (closes (as.flatMap fun a => ls ++ joinLines ls (f a)) ↔ ls.getLast? = some '*' ∧
      ∃ a ∈ as, ∃ line ∈ splitOn '\n' (f a), line.head? = some '/') ∧
      (as.flatMap fun a => ls ++ joinLines ls (f a)).head? ≠ some '/' := by
  obtain ⟨hany, hhead⟩ := closes_flatMap fun a (_ : a ∈ as) =>
    (closes_append_joinLines hne hls (f a)).2
  refine ⟨?_, hhead⟩
  rw [hany, List.any_eq_true]
  simp only [(closes_append_joinLines hne hls _).1, exists_mem_and_left]

/-- Nodes on lines that start with a marker of one star make a comment, if the closing line ends
with the star and no line starts with a slash directly behind it. -/
lemma isComment_on_marked_lines {α : Type} (hstar : '*' ∈ ls) (hls : '/' ∉ ls) (as : List α)
    (f : α → Text) :
    IsComment (['/', '*', '*'] ++ (as.flatMap fun a => ls ++ joinLines ls (f a)) ++
        closingLine ls) ↔
      (trimSpaces ls).getLast? = some '*' ∧ (ls.getLast? = some '*' →
        ∀ a ∈ as, ∀ line ∈ splitOn '\n' (f a), line.head? ≠ some '/') := by
  obtain ⟨hlines, hhead⟩ := closes_flatMap_joinLines (List.ne_nil_of_mem hstar) hls as f
  generalize as.flatMap (fun a => ls ++ joinLines ls (f a)) = t at hlines hhead
  have htrim : trimSpaces ls ≠ [] := by
    intro hnil
    obtain ⟨r, hr, hspaces, -⟩ := exists_trimEndBy (· = ' ') ls
    rw [show trimEndBy (· = ' ') ls = [] from hnil, List.nil_append] at hr
    exact absurd (hspaces _ (hr ▸ hstar)) (by decide)
  have hnot : '/' ∉ trimSpaces ls := fun hm => hls (mem_of_mem_trimSpaces hm)
  have hsplit : ['/', '*', '*'] ++ t ++ closingLine ls =
      '/' :: '*' :: (('*' :: t ++ trimSpaces ls) ++ ['/']) := by simp [closingLine]
  have hlast : ('*' :: t ++ trimSpaces ls).getLast? = (trimSpaces ls).getLast? :=
    List.getLast?_append_of_ne_nil _ htrim
  have hclosed : closes ('*' :: t ++ trimSpaces ls) = closes t := by
    rw [closes_append, closes_eq_false_of_not_mem hnot, closes]
    simp [hhead, head?_ne_slash_of_not_mem hnot]
  rw [hsplit]
  constructor
  · intro hcomment
    obtain ⟨v, hv, -, hstar, hclosed'⟩ := isComment_iff.1 hcomment
    obtain rfl : '*' :: t ++ trimSpaces ls = v := List.append_cancel_right (by simpa using hv)
    refine ⟨hlast ▸ hstar, fun h a ha line hline hslash => ?_⟩
    rw [hclosed] at hclosed'
    have := hlines.2 ⟨h, a, ha, line, hline, hslash⟩
    rw [hclosed'] at this
    cases this
  · rintro ⟨hend, hnone⟩
    rw [isComment_iff_closes rfl (hlast.trans hend), hclosed, Bool.eq_false_iff, ne_eq, hlines]
    rintro ⟨h, a, ha, line, hline, hslash⟩
    exact hnone h a ha line hline hslash

/-- Less its spaces at the end, a marker with one star ends with the star if no tab stands behind
it. -/
lemma getLast?_trimSpaces_append {r : Text} (hr : ∀ c ∈ r, isBlank c) (s : Text) :
    (trimSpaces (s ++ '*' :: r)).getLast? = some '*' ↔ '\t' ∉ r := by
  have h (t u : Text) (ht : ∀ c ∈ t, isBlank c) :
      ((t ++ '*' :: u).dropWhile (· = ' ')).head? = some '*' ↔ '\t' ∉ t := by
    induction t with
    | nil => simp
    | cons c t ih =>
      rw [List.forall_mem_cons] at ht
      rcases blank_cases ht.1 with rfl | rfl
      · simpa using ih ht.2
      · simp
  rw [trimSpaces, trimEndBy, List.getLast?_reverse]
  simpa using h r.reverse s.reverse (by simpa using hr)

lemma getLast?_append_star {r : Text} (hr : ∀ c ∈ r, isBlank c) (s : Text) :
    (s ++ '*' :: r).getLast? = some '*' ↔ r = [] := by
  rw [List.getLast?_append_of_ne_nil _ (List.cons_ne_nil _ _)]
  constructor
  · intro hstar
    by_contra hne
    rw [List.getLast?_cons_of_ne_nil hne] at hstar
    exact absurd (hr '*' (List.mem_of_getLast? hstar)) (by decide)
  · rintro rfl
    rfl

end Text

namespace Block

/-- What a node of `b` says before its lines are joined: its bytes in the text of `b₀` if it was
read from there and not touched, or else its written form. -/
def givenText (b₀ b : Block) (id : NodeId) : Text :=
  match b₀.tree.top.idxOf? id with
  | some k =>
    if b.tree.isModified id then b.write id
    else slice (b₀.nodeStart k) (b₀.nodeStop k) b₀.raw
  | none => b.write id

/-- Whether an operation adds a node. -/
def Operation.isAddition : Operation → Bool
  | .addTag _ _ | .addProse _ => true
  | _ => false

lemma apply_addition {o : Operation} (ho : o.isAddition) (b : Block) :
    (o.apply b).2 = b ∨
      (o.apply b).2.dirty ∧ b.tree.top.length < (o.apply b).2.tree.top.length := by
  cases o with
  | addTag name payload =>
    rw [Operation.apply, Operation.edit, outcome_map, outcome_addTag]
    cases checkTag name payload with
    | error f => exact .inl rfl
    | ok n => exact .inr ⟨rfl, by simp [pushTag]⟩
  | addProse text =>
    rw [Operation.apply, Operation.edit, outcome_map, outcome_addProse]
    split_ifs
    · exact .inl rfl
    · cases checkContent text with
      | error f => exact .inl rfl
      | ok u => exact .inr ⟨rfl, by simp [pushProse]⟩
  | _ => cases ho

/-- Additions that are accepted leave a dirty block with more nodes. -/
lemma run_additions {os : List Operation} (hos : ∀ o ∈ os, o.isAddition) (b : Block) :
    b.run os = b ∨ (b.run os).dirty ∧ b.tree.top.length < (b.run os).tree.top.length := by
  induction os generalizing b with
  | nil => exact .inl rfl
  | cons o os ih =>
    rw [List.forall_mem_cons] at hos
    have hrest := ih hos.2 (o.apply b).2
    change (o.apply b).2.run os = b ∨
      ((o.apply b).2.run os).dirty ∧ b.tree.top.length < ((o.apply b).2.run os).tree.top.length
    rcases apply_addition hos.1 b with h | ⟨hdirty, hlt⟩
    · rw [h] at hrest ⊢
      exact hrest
    · rcases hrest with h | ⟨hdirty', hlt'⟩
      · rw [h]
        exact .inr ⟨hdirty, hlt⟩
      · exact .inr ⟨hdirty', hlt.trans hlt'⟩

section

variable {rules : Rules} {declaration? : Option Nat} {raw : Text} {s : Segments} {b : Block}

/-- A text without line feeds is read as one line. -/
lemma hasBreak_eq_false (hs : s.tokens = scan raw) (hline : '\n' ∉ raw) : s.hasBreak = false := by
  rw [Segments.hasBreak, hs, List.any_eq_false]
  intro t ht hk
  obtain ⟨nl, bl, hnl, -, htext⟩ := text_of_mem_lineBreak ht (by simpa using hk)
  have hmem : '\n' ∈ t.text := by
    rcases hnl with rfl | rfl <;> rcases htext with h | h | h <;> simp [h]
  refine hline ?_
  rw [← source_scan raw]
  exact List.mem_flatMap.2 ⟨t, ht, hmem⟩

lemma isComment_of_nodes (hs : s.tokens = scan raw) (hraw : raw = [] ∨ IsComment raw)
    (hne : s.nodes ≠ []) : IsComment raw := by
  refine hraw.resolve_left ?_
  rintro rfl
  obtain ⟨n, ns, hns⟩ := List.exists_cons_of_ne_nil hne
  simp [Segments.tokens, hns, Segment.tokens, n.solid.ne_nil, scan] at hs

/-- The text of one line stands for itself, and other text is joined. -/
lemma splicedNode_eq_joinLines (hs : s.tokens = scan raw) (hraw : raw = [] ∨ IsComment raw)
    (hline : '\n' ∉ raw) (ls : Text) (id : NodeId) :
    splicedNode (read rules declaration? raw) b ls id =
      joinLines ls (givenText (read rules declaration? raw) b id) := by
  simp only [splicedNode, givenText, ← joinLines_eq_canonicalText]
  cases hk : (read rules declaration? raw).tree.top.idxOf? id with
  | none => rfl
  | some k =>
    dsimp only
    split_ifs
    · rfl
    obtain ⟨hlt, -⟩ := List.idxOf?_eq_some_iff.1 hk
    rw [length_top_read rules declaration? hs] at hlt
    have hn : s.nodes[k]? = some s.nodes[k] := List.getElem?_eq_getElem hlt
    have hmem : s.nodes[k] ∈ s.nodes := List.getElem_mem hlt
    have hcomment := isComment_of_nodes hs hraw (List.ne_nil_of_mem hmem)
    have hnot : '\n' ∉ source s.nodes[k].body := by
      intro hm
      refine hline ?_
      rw [← source_scan raw, ← hs, Segments.tokens_eq hn]
      simp [hm]
    rw [slice_node hs hn, joinLines_of_splitOn (splitOn_of_not_mem hnot),
      escapeClosing_eq (closes_body hs hcomment hmem), List.flatMap_nil, List.append_nil]

/-- A block with more nodes than were read from its one line has all of them on lines of their
own. -/
lemma print_on_own_lines (hs : s.tokens = scan raw) (hraw : raw = [] ∨ IsComment raw)
    (hline : '\n' ∉ raw) (h : Derives (read rules declaration? raw) b) (hdirty : b.dirty)
    (hlength : (read rules declaration? raw).tree.top.length < b.tree.top.length) (p : Printer)
    (indent : Text) :
    b.print p indent = ['/', '*', '*'] ++
      (b.tree.top.flatMap fun id => ownLineStart p indent ++
        joinLines (ownLineStart p indent) (givenText (read rules declaration? raw) b id)) ++
      closingLine (ownLineStart p indent) := by
  have htop : b.tree.top ≠ [] := List.ne_nil_of_length_pos (Nat.zero_lt_of_lt hlength)
  have hwrap : s.nodes = [] ∨ (layoutOf p indent b s).rewrap := by
    by_cases hnil : s.nodes = []
    · exact .inl hnil
    · have hpos := List.length_pos_iff.2 hnil
      rw [length_top_read rules declaration? hs] at hlength
      have hlt : 1 < b.tree.top.length := by omega
      exact .inr (by simp [layoutOf, hasBreak_eq_false hs hline, hlt])
  have hopening := openingText_eq_delimiter hs (isComment_of_nodes hs hraw)
  rw [print_on_lines hs h hdirty htop hwrap, hopening]
  congr 2
  exact List.flatMap_congr fun id _ => by rw [splicedNode_eq_joinLines hs hraw hline]

end

/-- A block that starts empty or from a comment on one line, and to which nodes are added, is put on
lines of its own. With a marker of one star it is a comment just when no tab stands behind the star
of the marker, and some space does or no line starts with a slash. -/
theorem isComment_print_wrapped_iff (rules : Rules) (declaration? : Option Nat)
    {raw? : Option Text} {os : List Operation} {l r indent : Text}
    (hraw : ∀ raw ∈ raw?, IsComment raw ∧ '\n' ∉ raw) (hos : ∀ o ∈ os, o.isAddition)
    (hl : ∀ c ∈ l, isBlank c) (hr : ∀ c ∈ r, isBlank c) (hindent : ∀ c ∈ indent, isBlank c) :
    let b₀ := ofComment rules declaration? raw?
    let b := b₀.run os
    let p : Printer := ⟨l ++ '*' :: r⟩
    ('\n' ∈ b.print p indent ↔ b.dirty) ∧
      ('\n' ∈ b.print p indent → (IsComment (b.print p indent) ↔
        '\t' ∉ r ∧ (r = [] → ∀ id ∈ b.tree.top, ∀ line ∈ splitOn '\n' (givenText b₀ b id),
          line.head? ≠ some '/'))) := by
  intro b₀ b p
  obtain ⟨raw, hraw?⟩ : ∃ raw, raw?.getD [] = raw := ⟨_, rfl⟩
  have hb₀ : b₀ = read rules declaration? raw := hraw? ▸ ofComment_eq_read rules declaration? raw?
  obtain ⟨hcomment, hline⟩ : (raw = [] ∨ IsComment raw) ∧ '\n' ∉ raw := by
    cases raw? with
    | none => exact ⟨.inl hraw?.symm, by simp [← hraw?]⟩
    | some raw' => exact hraw? ▸ (hraw raw' rfl).imp_left .inr
  obtain ⟨s, hs⟩ := exists_segments (scan raw)
  have h : Derives (read rules declaration? raw) b := by
    rw [← hb₀, show b = b₀.act (os.map .edit) from run_eq_act b₀ os, hb₀]
    exact derives_act (Tree.unedited_ofTokens rules (scan raw)) _
  by_cases hdirty : b.dirty
  swap
  · have hprint : b.print p indent = raw := by
      rw [print, if_pos (by simpa using hdirty), h.raw]
      rfl
    rw [hprint]
    simp [hline, hdirty]
  have hlength : b₀.tree.top.length < b.tree.top.length := by
    rcases run_additions hos b₀ with hsame | ⟨-, hlt⟩
    · rw [show b = b₀ from hsame, hb₀] at hdirty
      cases hdirty
    · exact hlt
  have hprint := print_on_own_lines hs hcomment hline h hdirty (hb₀ ▸ hlength) p indent
  rw [← hb₀] at hprint
  have hls : ownLineStart p indent = ('\n' :: indent ++ l) ++ '*' :: r := by simp [ownLineStart, p]
  have hblank {t : Text} (ht : ∀ c ∈ t, isBlank c) : '/' ∉ t :=
    fun hm => absurd (ht '/' hm) (by decide)
  have hslash : '/' ∉ ownLineStart p indent := by
    simp [hls, hblank hindent, hblank hl, hblank hr]
  have hfeed : '\n' ∈ b.print p indent := by
    obtain ⟨id, ids, hids⟩ := List.exists_cons_of_length_pos (Nat.zero_lt_of_lt hlength)
    simp [hprint, hids, hls]
  refine ⟨iff_of_true hfeed hdirty, fun _ => ?_⟩
  rw [hprint, isComment_on_marked_lines (by simp [hls]) hslash, hls, getLast?_append_star hr,
    getLast?_trimSpaces_append hr]

/-- Slashes within lines do no harm behind a bare star. -/
theorem isComment_print_wrapped_slashes :
    let b₀ := ofComment Rules.standard none (some "/** a/b */".toList)
    let os : List Operation := [.addProse " x\ny/z ".toList, .addTag "@a b".toList "*/".toList,
      .addTag "@return".toList "int|null /".toList]
    let b := b₀.run os
    let p : Printer := ⟨['\t'] ++ '*' :: []⟩
    ((∀ raw ∈ some "/** a/b */".toList, IsComment raw ∧ '\n' ∉ raw) ∧ (∀ o ∈ os, o.isAddition) ∧
      (∀ c ∈ ['\t'], isBlank c) ∧ (∀ c ∈ ([] : Text), isBlank c) ∧ (∀ c ∈ [' '], isBlank c) ∧
      '\n' ∈ b.print p [' ']) ∧
      b.print p [' '] = "/**\n \t*a/b\n \t*x\n \t*y/z\n \t*@return int|null /\n \t*/".toList ∧
      IsComment (b.print p [' ']) := by
  have hraw : ∀ raw ∈ some "/** a/b */".toList, IsComment raw ∧ '\n' ∉ raw := by decide +kernel
  have htab : ∀ c ∈ ['\t'], isBlank c := List.forall_mem_singleton.2 rfl
  have hspace : ∀ c ∈ [' '], isBlank c := List.forall_mem_singleton.2 rfl
  intro b₀ os b p
  have hos : ∀ o ∈ os, o.isAddition := by decide
  have hnil : ∀ c ∈ ([] : Text), isBlank c := fun _ hc => by cases hc
  have hfeed : '\n' ∈ b.print p [' '] := by decide +kernel
  refine ⟨⟨hraw, hos, htab, hnil, hspace, hfeed⟩, by decide +kernel, ?_⟩
  exact ((isComment_print_wrapped_iff Rules.standard none hraw hos htab hnil hspace).2 hfeed).2
    (by decide +kernel)

/-- A slash at the start of a line closes the comment behind a bare star, and a tab behind the star
of the marker leaves it open. -/
theorem not_isComment_print_wrapped :
    let b₀ := ofComment Rules.standard none none
    let b := b₀.run [.addProse "/foo".toList]
    let b' := b₀.run [.addProse "foo".toList]
    (b.print ⟨"*".toList⟩ [] = "/**\n*/foo\n*/".toList ∧ ¬ IsComment (b.print ⟨"*".toList⟩ [])) ∧
      b'.print ⟨" *\t".toList⟩ [] = "/**\n *\tfoo\n *\t/".toList ∧
      ¬ IsComment (b'.print ⟨" *\t".toList⟩ []) := by
  decide +kernel

end Block

end DocComment
