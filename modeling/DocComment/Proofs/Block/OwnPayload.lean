import DocComment.Proofs.Block.Denoted
import DocComment.Proofs.Tag.Accepted
import DocComment.Proofs.Tag.Restored
import DocComment.Proofs.Tree.Payloads

/-!
# Tags that are replaced by their own payload

The payload of a tag that was read does not close the comment, so the tag may be replaced by it.
Nothing changes then if the payload has no white space around it, the type in it is read back from
its text, and no fragments are read from it; a tag with fragments is always made anew
(`replaceTag_writePayload`).
-/

namespace DocComment

open Text Token

/-! ### Payloads that were read -/

/-- Folding the lines of a text brings no end of the comment about. -/
lemma Token.closes_foldedFrom {ts : List Token} (hne : ∀ t ∈ ts, t.text ≠ [])
    (h : closes (source ts) = false) (b : Bool) : closes (foldedFrom b ts) = false := by
  induction ts generalizing b with
  | nil => rfl
  | cons t ts ih =>
    obtain ⟨-, hne'⟩ := List.forall_mem_cons.1 hne
    rw [source_cons, closes_append_eq_false] at h
    obtain ⟨ht, hts, hseam⟩ := h
    by_cases hbreak : t.kind = .lineBreak
    · rw [foldedFrom_lineBreak b hbreak]
      have hline := closes_append_cons (c := '\n') (by decide) (by decide) [] (foldedFrom true ts)
      rw [List.nil_append] at hline
      rw [hline, ih hne' hts]
      rfl
    by_cases hkeeps : keepsText b t
    · rw [foldedFrom_cons hkeeps, closes_append_eq_false]
      refine ⟨ht, ih hne' hts false, fun hslash => hseam ⟨hslash.1, ?_⟩⟩
      -- The slash stands in the next token, which is kept too.
      obtain ⟨hstar, hhead⟩ := hslash
      cases ts with
      | nil => cases hhead
      | cons u us =>
        by_cases hk : u.kind = .lineBreak
        · rw [folded_eq_foldedFrom, foldedFrom_lineBreak false hk] at hhead
          cases hhead
        · have hu := hne' u List.mem_cons_self
          rw [folded_eq_foldedFrom, foldedFrom_cons (by simp [keepsText, hk]),
            List.head?_append_of_ne_nil _ hu] at hhead
          rw [source_cons, List.head?_append_of_ne_nil _ hu, hhead]
    · obtain ⟨rfl, hblank⟩ : b = true ∧ t.kind = .blank := by simpa [keepsText, hbreak] using hkeeps
      rw [foldedFrom_blank hblank]
      exact ih hne' hts true

lemma Token.IsTagName.head?_ne_marker {name : Text} (h : IsTagName name) :
    name.head? ≠ some '@' := by
  obtain ⟨c, hc, hstart⟩ := h.head?
  intro hat
  obtain rfl : c = '@' := Option.some.inj (hc.symm.trans hat)
  exact absurd hstart (by decide)

/-- The fragments that a payload was read with. -/
def Reading.params : Reading → List Fragment
  | .value _ => []
  | .method m => m.params

namespace Node.Content

/-- A payload is read by the rules, or kept as it is although they find fragments in it. -/
lemma ofPayload_eq (rules : Rules) (name : Text) (ts : List Token) :
    ofPayload rules name ts = (rules.resolve name (folded ts)).content name ∨
      ofPayload rules name ts = .tag name (.generic (folded ts)) ∧
        (rules.resolve name (folded ts)).params ≠ [] := by
  rw [ofPayload]
  cases rules.resolve name (folded ts) with
  | value v => exact .inl rfl
  | method m =>
    dsimp only
    split_ifs with hplaced
    · exact .inl rfl
    · refine .inr ⟨rfl, fun hnil => hplaced ?_⟩
      change m.params = [] at hnil
      rw [hnil]
      rfl

end Node.Content

namespace Block

variable {rules : Rules} {declaration? : Option Nat} {raw : Text} {b : Block} {name : Text}
  {id : NodeId} {r : Reading}

/-- A tag that was read says what its payload is read as, which does not close the comment, or keeps
it as it is although there are fragments in it. -/
lemma exists_payload_of_content? {c : Node.Content}
    (hid : id ∈ (read rules declaration? raw).tree.top)
    (hc : (read rules declaration? raw).tree.content? id = some c)
    (hname : c.tagName? = some name) :
    ∃ payload, closes payload = false ∧ (c = (rules.resolve name payload).content name ∨
      c = .tag name (.generic payload) ∧ (rules.resolve name payload).params ≠ []) := by
  obtain ⟨x, hsolid, rfl⟩ := exists_body_of_content? hid hc
  by_cases hmarker : ∀ t ∈ (scanFrom false 0 x).head?, t.kind ≠ .marker
  · rw [Node.Content.ofTokens_of_kind_ne rules hmarker] at hname
    cases hname
  · push Not at hmarker
    obtain ⟨t, ht, hk⟩ := hmarker
    obtain ⟨name', gap, j, z, -, hscan, hgap, hz⟩ := exists_scanFrom_tag ht hk
    have htag := Node.Content.ofTokens_tag rules 0 1 name' hgap hz j
    rw [hscan, htag, Node.Content.tagName?_ofPayload] at hname
    obtain rfl := Option.some.inj hname
    have hx : x = '@' :: name' ++ source gap ++ z := by
      rw [← source_scanFrom false 0 x, hscan]
      simp
    have hclosed : closes (source (scanFrom false j z)) = false := by
      rw [source_scanFrom]
      exact closes_eq_false_of_isInfix ⟨_, [], by rw [hx, List.append_nil]⟩
        (closes_eq_false_of_kind hsolid.kind_ne_closing)
    refine ⟨folded (scanFrom false j z),
      closes_foldedFrom (fun t ht => text_ne_nil_of_mem_scanFrom ht) hclosed false, ?_⟩
    rw [hscan, htag]
    exact Node.Content.ofPayload_eq rules name' _

/-- What a tag that was read is written as is read as what the tag says, if its type is read back
and no fragments are found. -/
lemma exists_reading (h : id ∈ (read .standard declaration? raw).tagsNamed name) :
    IsTagName (bareName name) ∧ ∃ r : Reading,
      (read .standard declaration? raw).tree.content? id = some (r.content (bareName name)) ∧
      closes (r.write .standard) = false ∧
      ((∀ t ∈ r.type?, t.IsRestored) →
        (Rules.standard.resolve (bareName name) (r.write .standard)).params = [] →
          (Rules.standard.resolve (bareName name) (r.write .standard)).content (bareName name) =
            r.content (bareName name)) := by
  obtain ⟨htop, n, hn, -⟩ := mem_tagsNamed h
  have hc : (read .standard declaration? raw).tree.content? id =
      some ((read .standard declaration? raw).tree.contentOf n) := by
    rw [Tree.content?, hn]
    rfl
  have hname := (Tree.isTagNamed_iff hc _).1 (mem_tagsNamed_iff.1 h).2
  refine ⟨isTagName_of_content?_read htop hc hname, ?_⟩
  obtain ⟨payload, hclosed, hcontent⟩ := exists_payload_of_content? htop hc hname
  rcases hcontent with hcontent | ⟨hcontent, hparams⟩
  · exact ⟨_, hc.trans (congrArg some hcontent), Rules.IsUsual.closes_write (.inr rfl) _ hclosed,
      fun htypes _ => Rules.content_resolve_write htypes⟩
  · exact ⟨.value (.generic payload), hc.trans (congrArg some hcontent), hclosed,
      fun _ hnone => absurd hnone hparams⟩

/-! ### Tags that are read anew -/

/-- A tag that says already what is read, and has no fragments, is left as it is. -/
lemma rereadTag_eq_self (hc : b.tree.content? id = some (r.content name)) (hr : r.params = []) :
    b.rereadTag id name r = b := by
  have hsame : b.tree.node? id = some (b.tree.makeFragments name r).2 ∧
      (b.tree.makeFragments name r).2.fragments = [] := by
    cases r with
    | value v => exact ⟨Tree.node?_of_content?_value hc, rfl⟩
    | method m =>
      change m.params = [] at hr
      obtain ⟨fragments, hnode, hfragments⟩ := Tree.exists_node?_of_content?_method hc
      obtain rfl : fragments = [] := by simpa [hr] using hfragments
      have hmake : (b.tree.makeFragments name (.method m)).2 =
          .container name m.signature [] m.description := by
        simp [Tree.makeFragments, hr]
      rw [hmake]
      exact ⟨hnode, rfl⟩
  rw [rereadTag]
  dsimp only
  rw [if_pos ⟨hsame.2, hsame.1⟩]

/-- A tag with fragments is always made anew. -/
lemma dirty_rereadTag (hr : r.params ≠ []) : (b.rereadTag id name r).dirty = true := by
  cases r with
  | value v => exact absurd rfl hr
  | method m =>
    change m.params ≠ [] at hr
    rw [rereadTag]
    dsimp only
    rw [if_neg]
    rintro ⟨hnil, -⟩
    change List.range' b.tree.nodes.size m.params.length = [] at hnil
    rw [List.range'_eq_nil_iff, List.length_eq_zero_iff] at hnil
    exact hr hnil

/-! ### The own payload -/

/-- The only tag of a name that was read can be replaced by its own payload, and no other node
changes. Nothing changes at all if the payload has no white space around it, its type is read back
from its text, and no fragments are read from it. With fragments the tag is made anew. -/
theorem replaceTag_writePayload (declaration? : Option Nat) (raw : Text) {name : Text} {id : NodeId}
    (hsole : (read .standard declaration? raw).tagsNamed name = [id]) :
    let b := read .standard declaration? raw
    let payload := b.writePayload id
    let r := Rules.standard.resolve (bareName name) (trim payload)
    ∃ b', outcome (replaceTag name payload) b = (.ok id, b') ∧ b'.tree.top = b.tree.top ∧
      (∀ i ∈ b.tree.top, i ≠ id → Keeps b b' i) ∧
      (trim payload = payload → (∀ t ∈ (b.tree.node? id).bind Node.type?, t.IsRestored) →
        r.params = [] → b' = b ∧ ∀ p indent, b'.print p indent = raw) ∧
      (r.params ≠ [] → b'.dirty = true) := by
  intro b payload r
  have h₀ : b.tree.Unedited _ _ := Tree.unedited_ofTokens .standard (scan raw)
  have hmem : id ∈ b.tagsNamed name := hsole ▸ List.mem_singleton_self id
  have htop := (mem_tagsNamed hmem).1
  obtain ⟨hname, r₀, hcontent, hclosed, hagain⟩ := exists_reading hmem
  have hpayload : payload = r₀.write .standard := Tree.writePayload_of_content? .standard hcontent
  rcases replaceTag_cases (checkName_of_isTagName hname) hname.head?_ne_marker
    (checkContent_of_closes (hpayload ▸ hclosed)) b with ⟨only, honly, -, hout⟩ | ⟨hmade, -⟩
  · obtain rfl : id = only := (List.cons.inj (hsole.symm.trans honly)).1
    refine ⟨_, hout, top_rereadTag _ _ _ _,
      fun i hi hne => keeps_rereadTag _ _ h₀.forest.layered htop hi hne,
      fun htrim htypes hparams => ?_, dirty_rereadTag⟩
    have hsame : b.rereadTag id (bareName name) r = b := by
      rw [Tree.type?_of_content? hcontent] at htypes
      have hr : r = Rules.standard.resolve (bareName name) (r₀.write .standard) := by
        rw [← hpayload, ← htrim]
      refine rereadTag_eq_self ?_ hparams
      rw [hr, hagain htypes (hr ▸ hparams)]
      exact hcontent
    change b.rereadTag id (bareName name) r = b ∧
      ∀ p indent, (b.rereadTag id (bareName name) r).print p indent = raw
    rw [hsame]
    exact ⟨rfl, fun _ _ => rfl⟩
  · have hread := h₀.isSynthesized id
    rw [hmade id hsole] at hread
    cases hread

/-- Blanks between the parts of a payload do not matter. -/
theorem replaceTag_writePayload_blanks :
    let raw := "/**\n * @return   int   The sum.\n */".toList
    let b := read .standard none raw
    b.tagsNamed "return".toList = [0] ∧ b.writePayload 0 = "int The sum.".toList ∧
      outcome (replaceTag "return".toList "int The sum.".toList) b = (.ok 0, b) := by
  intro raw b
  have hsole : b.tagsNamed "return".toList = [0] := by decide +kernel
  have hpayload : b.writePayload 0 = "int The sum.".toList := by decide +kernel
  have htype : (b.tree.node? 0).bind Node.type? = some (.name "int".toList) := by decide +kernel
  have htypes : ∀ t ∈ (b.tree.node? 0).bind Node.type?, t.IsRestored := by
    rw [htype]
    rintro t ⟨⟩
    decide +kernel
  obtain ⟨b', hout, -, -, hsame, -⟩ := replaceTag_writePayload none raw hsole
  change outcome (replaceTag "return".toList (b.writePayload 0)) b = _ at hout
  obtain ⟨rfl, -⟩ := hsame (by decide +kernel) htypes (by decide +kernel)
  exact ⟨hsole, hpayload, hpayload ▸ hout⟩

/-- A method with a parameter is made anew from its own payload. -/
theorem replaceTag_writePayload_ne_method :
    let b := read .standard none "/** @method f(int $a) */".toList
    b.tagsNamed "method".toList = [1] ∧
      (outcome (replaceTag "method".toList (b.writePayload 1)) b).1 = .ok 1 ∧
      (outcome (replaceTag "method".toList (b.writePayload 1)) b).2.dirty = true ∧
      (outcome (replaceTag "method".toList (b.writePayload 1)) b).2.tree.fragments 1 = [2] ∧
      b.tree.fragments 1 = [0] := by
  decide +kernel

end Block

end DocComment
