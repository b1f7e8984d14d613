import DocComment.Proofs.Tag.Reread
import DocComment.Proofs.Tree.Folded

/-!
# Nodes that are written anew

A node that is written on lines of a comment is read as a node that is written alike
(`Part.IsNode.exists_rewritten`). It need not say the same: the canonical form of a payload may be
read as another type, or not be read at all.
-/

namespace DocComment

open Text Token

/-! ### The places of tokens -/

namespace Placed

variable {ps qs : List (Text × Option Nat)} {ts us : List Token}

/-- The bytes of a token. -/
def extent (p : Placed) : Nat × Nat := (p.start, p.stop)

lemma map_extent_ofPieces
    (h : ps.map (fun p => (p.1, p.2.isSome)) = qs.map fun p => (p.1, p.2.isSome)) (start : Nat) :
    (ofPieces start ps).map extent = (ofPieces start qs).map extent := by
  induction ps generalizing qs start with
  | nil =>
    obtain rfl : qs = [] := by simpa using h.symm
    rfl
  | cons p ps ih =>
    cases qs with
    | nil => cases h
    | cons q qs =>
      obtain ⟨hhead, hrest⟩ := List.cons.inj h
      obtain ⟨text, index⟩ := p
      obtain ⟨text', index'⟩ := q
      obtain ⟨rfl, hindex⟩ := Prod.mk.inj hhead
      have ih' := ih hrest (start + byteSize text)
      cases index <;> cases index'
      · exact ih'
      · cases hindex
      · cases hindex
      · rw [ofPieces, ofPieces, List.map_cons, List.map_cons, ih']
        rfl

/-- Whether bytes are those of some tokens is seen from the bytes of all. -/
lemma isSome_span?_eq (places : List Placed) (start stop : Nat) :
    (span? places start stop).isSome =
      (((places.map extent).filter fun e => start ≤ e.1 && e.2 ≤ stop).head?.any (·.1 = start) &&
        ((places.map extent).filter fun e => start ≤ e.1 && e.2 ≤ stop).getLast?.any
          (·.2 = stop)) := by
  have hinside : (places.map extent).filter (fun e => start ≤ e.1 && e.2 ≤ stop) =
      (places.filter fun p => start ≤ p.start && p.stop ≤ stop).map extent := by
    rw [List.filter_map]
    rfl
  rw [hinside, List.head?_map, List.getLast?_map]
  unfold span?
  dsimp only
  cases (places.filter fun p => start ≤ p.start && p.stop ≤ stop).head? with
  | none => rfl
  | some first =>
    cases (places.filter fun p => start ≤ p.start && p.stop ≤ stop).getLast? with
    | none => simp
    | some last =>
      dsimp only [Option.map_some, Option.any_some, extent]
      split_ifs with h
      · exact h.symm
      · simpa using h

/-- Tokens with the same lexemes have the same places in folded text. -/
lemma isSome_span?_of_foldLexemes (h : foldLexemes false ts = foldLexemes false us)
    (start stop : Nat) :
    (span? (ofTokens ts) start stop).isSome = (span? (ofTokens us) start stop).isSome := by
  have hextent : (ofTokens ts).map extent = (ofTokens us).map extent :=
    map_extent_ofPieces (by rw [indexed, indexed, map_foldLines, map_foldLines, h]) 0
  rw [isSome_span?_eq, isSome_span?_eq, hextent]

end Placed

/-! ### Payloads -/

namespace Node.Content

variable {ts us : List Token} {name f y ls : Text} {stars : Bool}

lemma ofPayload_of_foldLexemes (rules : Rules) (h : foldLexemes false ts = foldLexemes false us)
    (name : Text) : ofPayload rules name ts = ofPayload rules name us := by
  have hfolded : folded ts = folded us := by rw [folded_eq_flatMap, folded_eq_flatMap, h]
  simp only [ofPayload, hfolded, Placed.isSome_span?_of_foldLexemes h]

/-- A payload is read by the rules, or kept as it is where a fragment of a method has no tokens of
its own. -/
lemma ofPayload_cases (rules : Rules) (name : Text) (ts : List Token) :
    ofPayload rules name ts = (rules.resolve name (folded ts)).content name ∨
      ofPayload rules name ts = .tag name (.generic (folded ts)) := by
  rw [ofPayload]
  cases rules.resolve name (folded ts) with
  | value v => exact .inl rfl
  | method m =>
    dsimp only
    split_ifs
    · exact .inl rfl
    · exact .inr rfl

/-- What is written for a payload is a text that is written alike when it is read as one. -/
lemma exists_payload_rewritten (h : Folds stars y f) (hf : Writable stars f) (name : Text)
    (j : Nat) : ∃ w, Writable stars w ∧
      (ofPayload .standard name (scanFrom false j y)).write .standard =
        '@' :: name ++ afterBlank w ∧
      ∀ ls, IsLineStart stars ls → ∀ i,
        (ofPayload .standard name (scanFrom false i (reline ls w))).write .standard =
          '@' :: name ++ afterBlank w := by
  have hfolded : folded (scanFrom false j y) = f := h.folded_eq j
  rcases ofPayload_cases .standard name (scanFrom false j y) with hc | hc
  · refine ⟨_, Rules.IsUsual.writable_write (.inr rfl) name hf, ?_, fun ls hls i => ?_⟩
    · rw [hc, hfolded, Reading.write_content]
      rfl
    generalize hw : (Rules.standard.resolve name f).write Rules.standard.types = w
    have hwritten : Writable stars w := hw ▸ Rules.IsUsual.writable_write (.inr rfl) name hf
    have hagain : folded (scanFrom false i (reline ls w)) = w :=
      (spells_reline hls hwritten.keepsLines i).folded_eq
    rcases ofPayload_cases .standard name (scanFrom false i (reline ls w)) with hc' | hc'
    · have hsame := Rules.write_resolve_write name f
      change (Rules.standard.resolve name f).write .standard = w at hw
      rw [hw] at hsame
      rw [hc', hagain, Reading.write_content, hsame]
    · rw [hc', hagain]
      rfl
  · refine ⟨f, hf, by rw [hc, hfolded]; rfl, fun ls hls i => ?_⟩
    have hlex := h.foldLexemes_eq (folds_reline hls hf.keepsLines) j i
    rw [← ofPayload_of_foldLexemes .standard hlex, hc, hfolded]
    rfl

lemma ofTokens_of_kind_ne (rules : Rules) (h : ∀ t ∈ ts.head?, t.kind ≠ .marker) :
    ofTokens rules ts = .prose (folded ts) := by
  match ts with
  | [] => rfl
  | [t] => rfl
  | t :: u :: ts => rw [ofTokens, if_neg (h t rfl)]

end Node.Content

/-! ### Nodes -/

namespace Token

variable {x z f : Text} {i : Nat} {stars : Bool}

/-- A slash and a star stand in a text, or between it and the next. -/
lemma isPrefix_of_ne_slash {t : Text} (hx : x ≠ []) (hone : x ≠ ['/']) (h : ['/', '*'] <+: x ++ t) :
    ['/', '*'] <+: x := by
  match x with
  | [c] =>
    obtain ⟨rfl, -⟩ := List.cons_prefix_cons.1 h
    exact absurd rfl hone
  | c :: d :: x =>
    simpa using h

lemma isPrefix_slash_congr {t t' : Text} (ht : t'.head? = t.head?)
    (h : ['/', '*'] <+: ['/'] ++ t') :
    ['/', '*'] <+: ['/'] ++ t := by
  cases t with
  | nil => simp [List.head?_eq_none_iff.1 ht] at h
  | cons c t =>
    obtain ⟨t', rfl⟩ := List.head?_eq_some_iff.1 ht
    simpa using h

lemma isPrefix_delimiter_congr {t t' : Text} (hx : x ≠ []) (ht : t'.head? = t.head?)
    (h : ['/', '*'] <+: x ++ t') : ['/', '*'] <+: x ++ t := by
  by_cases hone : x = ['/']
  · subst hone
    exact isPrefix_slash_congr ht h
  · exact (isPrefix_of_ne_slash hx hone h).trans (List.prefix_append x t)

/-- A tag starts with a name, and all of it. -/
lemma exists_of_marker {t : Token} (ht : t ∈ (scanFrom false i x).head?) (hk : t.kind = .marker) :
    ∃ name y, IsTagName name ∧ x = '@' :: name ++ y ∧
      ∀ c ∈ y.head?, isTagNameChar c = false := by
  cases x with
  | nil => simp at ht
  | cons c x =>
    rw [scanFrom_cons] at ht
    obtain rfl := Option.some.inj ht
    have htag := (next_of_marker hk).2
    rw [startsTag_cons, Bool.and_eq_true, decide_eq_true_eq, Option.any_eq_true] at htag
    obtain ⟨rfl, d, hd, hstart⟩ := htag
    obtain ⟨name, y, rfl, hname, hy⟩ := exists_span isTagNameChar x
    refine ⟨name, y, ⟨⟨d, ?_, hstart⟩, hname⟩, rfl, hy⟩
    cases name with
    | nil =>
      have hfalse := hy d hd
      rw [isTagNameChar_of_isTagNameStart hstart] at hfalse
      cases hfalse
    | cons e name => exact hd

/-- The tokens of a text that starts with a marker are those of a tag. -/
lemma exists_scanFrom_tag {t : Token} (ht : t ∈ (scanFrom false i x).head?)
    (hk : t.kind = .marker) :
    ∃ name gap j z, IsTagName name ∧ scanFrom false i x = ⟨.marker, ['@'], i⟩ ::
        ⟨.identifier, name, i + 1⟩ :: (gap ++ scanFrom false j z) ∧
      (∀ t ∈ gap, t.kind = .blank) ∧ ∀ c ∈ z.head?, isBlank c = false := by
  obtain ⟨name, y, hname, rfl, hy⟩ := exists_of_marker ht hk
  obtain ⟨bl, z, rfl, hbl, hz⟩ := exists_span isBlank y
  obtain ⟨gap, j, hscan, hgap, -⟩ := scanFrom_tag_blanks hname hbl hz hy i
  exact ⟨name, gap, j, z, hname, hscan, hgap, hz⟩

/-- A node ends with no blank. -/
lemma Solid.getLast? (h : Solid (scanFrom false i x)) : ∀ c ∈ x.getLast?, isBlank c = false := by
  intro c hc
  obtain ⟨ts, t, hts, ht⟩ := h.exists_append
  have hmem : t ∈ scanFrom false i x := by simp [hts]
  have hx : x = source ts ++ t.text := by
    rw [← source_scanFrom false i x, hts]
    simp
  rw [hx, List.getLast?_append_of_ne_nil _ (text_ne_nil_of_mem_scanFrom hmem)] at hc
  exact isBlank_of_mem_text hmem (isSeparator_eq_false_of_isContent ht) c
    (List.mem_of_getLast? hc)

/-- The text at the end of a node folds to one that can be written. -/
lemma Solid.exists_folds {j : Nat} (h : Solid (scanFrom false i x)) (ts : List Token)
    (hscan : scanFrom false i x = ts ++ scanFrom false j z) (hr : pairsReturns x)
    (hstars : stars = false → ∀ t ∈ scanFrom false i x, t.kind = .lineBreak → '*' ∉ t.text)
    (hz : ∀ c ∈ z.head?, isBlank c = false) : ∃ f, Folds stars z f ∧ Writable stars f := by
  have hx : x = source ts ++ z := by
    rw [← source_scanFrom false i x, hscan, source_append, source_scanFrom]
  have hmem : ∀ t ∈ scanFrom false j z, t ∈ scanFrom false i x := fun t ht => by simp [hscan, ht]
  have hlines := h.goesOn
  rw [hscan] at hlines
  obtain ⟨f, hf⟩ := Text.exists_folds (pairsReturns_of_suffix ⟨_, hx.symm⟩ hr)
    (fun t ht => h.kind_ne_closing t (hmem t ht)) (goesOn_of_append hlines)
    (fun hfalse t ht => hstars hfalse t (hmem t ht))
  refine ⟨f, hf, hf.keepsLines, fun c hc => ?_, fun c hc => h.getLast? c ?_⟩
  · by_cases hn : f.head? = some '\n'
    · obtain rfl : '\n' = c := Option.some.inj (hn.symm.trans hc)
      rfl
    · rw [← hf.head?_eq hn] at hc
      exact hz c hc
  · rw [← hf.getLast?_eq] at hc
    rw [hx, List.getLast?_append, Option.mem_def.1 hc]
    rfl

end Token

namespace Part

/-- Text on lines of a comment that starts with no tag makes up a paragraph. -/
lemma isNode_joinLines (rules : Rules) {f ls : Text} {stars : Bool} (hls : IsLineStart stars ls)
    (h : Writable stars f) (hne : f ≠ []) (hn : f.head? ≠ some '\n')
    (hkind : ∀ i, ∀ t ∈ (scanFrom false i (reline ls f)).head?, t.kind ≠ .marker) :
    IsNode rules (joinLines ls f) (.prose f) := by
  have hreline := folds_reline hls h.keepsLines
  rw [joinLines_eq ls h.keepsLines]
  refine ⟨solid_reline hls h hne hn, fun i => ?_, ?_⟩
  · rw [Node.Content.ofTokens_of_kind_ne rules (hkind i), hreline.folded_eq]
  · rw [hreline.getLast?_eq]
    exact fun hlast => not_mem_of_keepsLines h.keepsLines (List.mem_of_getLast? hlast)

/-- A text starts like another one, as far as this matters to what stands in front of it: a slash
and a star stand there if they do in the other. -/
structure StartsLike (x y : Text) : Prop where
  head? : y.head? = x.head?
  kind : ∀ i j,
    (scanFrom false j y).head?.map Token.kind = (scanFrom false i x).head?.map Token.kind
  isPrefix : ∀ t t' : Text, t'.head? = t.head? → ['/', '*'] <+: y ++ t' → ['/', '*'] <+: x ++ t

variable {x ls : Text} {c : Node.Content} {stars : Bool}

section

variable (hr : pairsReturns x)
  (hstars : stars = false → ∀ t ∈ scanFrom false 0 x, t.kind = .lineBreak → '*' ∉ t.text)

include hr hstars

lemma IsNode.exists_rewritten_prose {rules : Rules} (h : IsNode rules x c)
    (hkind : ∀ t ∈ (scanFrom false 0 x).head?, t.kind ≠ .marker) :
    ∃ f, c = .prose f ∧ Text.keepsLines stars f ∧ ∀ ls, IsLineStart stars ls →
      IsNode rules (joinLines ls f) (.prose f) ∧ StartsLike x (joinLines ls f) := by
  have hsolid := h.solid 0
  obtain ⟨t, ts, hts, ht⟩ := hsolid.exists_cons
  have hmem : t ∈ (scanFrom false 0 x).head? := by simp [hts]
  have hfirst := head?_of_isContent hmem ht
  obtain ⟨f, hf, hw⟩ := hsolid.exists_folds [] rfl hr hstars fun c hc => (hfirst c hc).1
  have hhead : f.head? = x.head? := hf.head?_of_isContent hmem ht
  have hne : f ≠ [] := by
    rintro rfl
    rw [List.head?_nil, eq_comm, List.head?_eq_none_iff] at hhead
    rw [hhead, scanFrom_nil] at hts
    cases hts
  have hn : f.head? ≠ some '\n' := fun hn => (hfirst '\n' (hhead ▸ hn)).2 rfl
  refine ⟨f, ?_, hw.keepsLines, fun ls hls => ?_⟩
  · rw [← h.content 0, Node.Content.ofTokens_of_kind_ne rules hkind, hf.folded_eq]
  have hreline := folds_reline hls hw.keepsLines
  have hsame : ∀ i j, (scanFrom false j (reline ls f)).head?.map Token.kind =
      (scanFrom false i x).head?.map Token.kind := by
    intro i j
    rw [← head?_foldLexemes, ← head?_foldLexemes, hf.foldLexemes_eq hreline i j]
  refine ⟨isNode_joinLines rules hls hw hne hn fun i u hu hmarker => ?_, ?_⟩
  · have hkinds := hsame 0 i
    rw [Option.mem_def.1 hu, hts, Option.map_some, List.head?_cons, Option.map_some] at hkinds
    exact hkind t hmem ((Option.some.inj hkinds).symm.trans hmarker)
  · rw [joinLines_eq ls hw.keepsLines]
    refine ⟨by rw [head?_reline hn, hhead], hsame, fun t t' ht hslash => ?_⟩
    by_cases hone : reline ls f = ['/']
    · -- The star stands behind the node.
      obtain rfl : ['/'] = f := hone ▸ hreline.eq_of_not_mem (.inl (hone ▸ by decide))
      obtain rfl : x = ['/'] := hf.eq_of_not_mem (.inr (by decide))
      rw [hone] at hslash
      exact isPrefix_slash_congr ht hslash
    · have hpre := isPrefix_of_ne_slash (reline_ne_nil hw hne) hone hslash
      rw [hreline.isPrefix_iff (by decide) (by decide),
        ← hf.isPrefix_iff (by decide) (by decide)] at hpre
      exact hpre.trans (List.prefix_append x t)

lemma IsNode.exists_rewritten_tag (h : IsNode .standard x c) {t : Token}
    (ht : t ∈ (scanFrom false 0 x).head?) (hkind : t.kind = .marker) :
    Text.keepsLines stars (c.write .standard) ∧ ∀ ls, IsLineStart stars ls →
      ∃ c' : Node.Content, c'.write .standard = c.write .standard ∧
        IsNode .standard (joinLines ls (c.write .standard)) c' ∧
        StartsLike x (joinLines ls (c.write .standard)) := by
  obtain ⟨name, y, hn, rfl, hy⟩ := exists_of_marker ht hkind
  obtain ⟨bl, z, rfl, hbl, hz⟩ := exists_span isBlank y
  obtain ⟨gap, j, hscan, hgap, -⟩ := scanFrom_tag_blanks hn hbl hz hy 0
  obtain ⟨f, hf, hwritable⟩ := (h.solid 0).exists_folds
    (⟨.marker, ['@'], 0⟩ :: ⟨.identifier, name, 0 + 1⟩ :: gap) hscan hr hstars hz
  obtain ⟨w, hw, hwrite, hagain⟩ := Node.Content.exists_payload_rewritten hf hwritable name j
  have hc : c.write .standard = '@' :: name ++ afterBlank w := by
    rw [← h.content 0, hscan, Node.Content.ofTokens_tag _ _ _ _ hgap hz, hwrite]
  rw [hc]
  refine ⟨keepsLines_tag hn hw, fun ls hls => ⟨Node.Content.ofTokens .standard
    (scanFrom false 0 (joinLines ls ('@' :: name ++ afterBlank w))), ?_, ?_, ?_⟩⟩
  · obtain ⟨j, hj⟩ := ofTokens_written hls .standard hn hw 0
    rw [hj]
    exact hagain ls hls j
  · exact ⟨solid_written hls hn hw, fun i => Node.Content.ofTokens_congr _
      (map_lexeme_scanFrom false i 0 _), getLast?_written hn hw⟩
  · obtain ⟨hhead, hmarker⟩ := marker_written ls hn hw
    refine ⟨hhead, fun i j => ?_, fun t t' _ hslash => ?_⟩
    · obtain ⟨u, hu, hu'⟩ := hmarker j
      have hx := map_lexeme_scanFrom false i 0 ('@' :: name ++ (bl ++ z))
      obtain ⟨v, vs, hv, hv', -⟩ := exists_of_map_lexeme_cons (hx.trans (congrArg _ hscan))
      rw [Option.mem_def.1 hu, hv, Option.map_some, List.head?_cons, Option.map_some, hu', hv']
    · obtain ⟨r, hr⟩ := hslash
      rw [← List.head?_append_of_ne_nil _ (List.ne_nil_of_mem (List.mem_of_mem_head? hhead)),
        ← hr] at hhead
      cases hhead

/-- A node that is written on lines of a comment is read as one that is written alike. -/
theorem IsNode.exists_rewritten (h : IsNode .standard x c) :
    Text.keepsLines stars (c.write .standard) ∧ ∀ ls, IsLineStart stars ls →
      ∃ c' : Node.Content, c'.write .standard = c.write .standard ∧
        IsNode .standard (joinLines ls (c.write .standard)) c' ∧
        StartsLike x (joinLines ls (c.write .standard)) := by
  obtain ⟨t, ts, hts, -⟩ := (h.solid 0).exists_cons
  by_cases hkind : t.kind = .marker
  · exact h.exists_rewritten_tag hr hstars (by simp [hts]) hkind
  · obtain ⟨f, rfl, hkeeps, hf⟩ := h.exists_rewritten_prose hr hstars (by simpa [hts] using hkind)
    exact ⟨hkeeps, fun ls hls => ⟨.prose f, rfl, hf ls hls⟩⟩

end

end Part

end DocComment
