import DocComment.Proofs.Token.Places
import DocComment.Proofs.Tree.Fragments
import DocComment.Proofs.Tree.Moved

/-!
# Methods in ordinary text

The parameters of a method are cut out between parentheses, commas and white space. If all white
space of a comment is blanks and line breaks, each of these characters ends the token in front of it
(`Token.endsToken_of_adjacent`), so the parameters begin and end with tokens of the payload
(`Placed.isSome_span?_of_endsToken`), and a method that is read from a payload never falls back to
the payload as it is (`Tree.ofTokens_method`).
-/

namespace DocComment

open Text Token

namespace Token

/-! ### Characters that stand alone -/

/-- The characters around parameters: a token has no other characters beside one of them, but blanks
stand together. -/
def endsToken (c : Char) : Bool := c = '(' || c = ')' || c = ',' || isBlank c || c = '\n'

variable {raw : Text} {t : Token} {c d : Char}

lemma endsToken_eq_false_of_mem_plain {s : Text} (h : c ∈ plain s) : endsToken c = false := by
  obtain ⟨r, hr⟩ := exists_of_mem_plain h
  have hsign : isSign c = false ∧ isBlank c = false ∧ c ≠ '\n' := by
    simp only [startsSpecial_cons, Bool.or_eq_false_iff, decide_eq_false_iff_not] at hr
    exact ⟨hr.2, hr.1.1.1.1.2, hr.1.1.1.2⟩
  by_contra hc
  simp only [Bool.not_eq_false, endsToken, Bool.or_eq_true, decide_eq_true_eq] at hc
  rcases hc with (((rfl | rfl) | rfl) | hc) | hc
  · cases hsign.1
  · cases hsign.1
  · cases hsign.1
  · rw [hsign.2.1] at hc
    cases hc
  · exact hsign.2.2 hc

lemma isWordChar_of_isWordStart (h : isWordStart c) : isWordChar c := by
  simp only [isWordStart, isWordChar, Char.isAlphanum, Bool.or_eq_true] at h ⊢
  tauto

/-- A token with one of these characters is that character, or consists of blanks. -/
lemma text_of_endsToken (ht : t ∈ scan raw) (hk : t.kind ≠ .lineBreak) (hmem : c ∈ t.text)
    (hc : endsToken c) : t.text = [c] ∨ ∀ d ∈ t.text, isBlank d := by
  have hclass : ∀ p : Char → Bool, p '(' = false → p ')' = false → p ',' = false → p ' ' = false →
      p '\t' = false → p '\n' = false → ¬ p c := by
    intro p h₁ h₂ h₃ h₄ h₅ h₆ hp
    simp only [endsToken, Bool.or_eq_true, decide_eq_true_eq] at hc
    rcases hc with (((rfl | rfl) | rfl) | hc) | rfl
    · simp [h₁] at hp
    · simp [h₂] at hp
    · simp [h₃] at hp
    · rcases blank_cases hc with rfl | rfl
      · simp [h₄] at hp
      · simp [h₅] at hp
    · simp [h₆] at hp
  have hdelimiter : ¬ (c = '/' ∨ c = '*') := fun h =>
    hclass (fun d => d = '/' || d = '*') rfl rfl rfl rfl rfl rfl (by simpa using h)
  by_cases hopening : t.kind = .opening
  · exact absurd (char_of_opening ht hopening c hmem) hdelimiter
  obtain ⟨i, s, hmem'⟩ := mem_scan ht hopening
  obtain ⟨am, e, s, hkind, htext⟩ := mem_scanFrom hmem'
  rw [htext] at hmem ⊢
  rw [hkind] at hk
  generalize hnext : next am e s = p at hk hmem ⊢
  rw [next_eq] at hnext
  split_ifs at hnext with hclosing hreturn hfeed hname hmarker hblank hword hsign
  all_goals subst hnext
  · -- The closing delimiter
    rw [hclosing.1] at hmem
    exact absurd (by simpa [or_comm] using hmem) hdelimiter
  · exact absurd rfl hk
  · exact absurd rfl hk
  · -- A tag name
    refine absurd ?_ (hclass isTagNameChar rfl rfl rfl rfl rfl rfl)
    rcases List.mem_cons.1 hmem with rfl | hmem
    · exact (Bool.and_eq_true_iff.1 hname).2
    · exact List.mem_takeWhile_imp hmem
  · exact .inl (by rw [List.mem_singleton.1 hmem])
  · exact .inr (List.forall_mem_cons.2 ⟨hblank, fun d hd => List.mem_takeWhile_imp hd⟩)
  · -- A word
    refine absurd ?_ (hclass isWordChar rfl rfl rfl rfl rfl rfl)
    rcases List.mem_cons.1 hmem with rfl | hmem
    · exact isWordChar_of_isWordStart hword
    · exact List.mem_takeWhile_imp hmem
  · exact .inl (by rw [List.mem_singleton.1 hmem])
  · -- Plain text
    rcases List.mem_cons.1 hmem with rfl | hmem
    · simp only [endsToken, Bool.or_eq_true, decide_eq_true_eq] at hc
      rcases hc with (((rfl | rfl) | rfl) | hc) | rfl
      · exact absurd rfl hsign
      · exact absurd rfl hsign
      · exact absurd rfl hsign
      · exact absurd hc hblank
      · exact absurd rfl hfeed
    · rw [endsToken_eq_false_of_mem_plain hmem] at hc
      cases hc

/-- Beside one of these characters stands no other one in a token, but blanks stand together. -/
lemma endsToken_of_adjacent (ht : t ∈ scan raw) (hk : t.kind ≠ .lineBreak) {a b : Text}
    (htext : t.text = a ++ c :: d :: b) (hnot : isBlank c = false ∨ isBlank d = false) :
    endsToken c = false ∧ endsToken d = false := by
  have halone : ∀ e ∈ t.text, endsToken e = false := by
    intro e he
    by_contra hends
    rcases text_of_endsToken ht hk he (by simpa using hends) with hsingle | hblank
    · have hlen := congrArg List.length (htext.symm.trans hsingle)
      simp only [List.length_append, List.length_cons, List.length_nil] at hlen
      omega
    · have hc := hblank c (by simp [htext])
      have hd := hblank d (by simp [htext])
      rcases hnot with hnot | hnot
      · simp [hnot] at hc
      · simp [hnot] at hd
  exact ⟨halone c (by simp [htext]), halone d (by simp [htext])⟩

/-- If carriage returns are paired, they stand in line breaks only. -/
lemma not_mem_return (hr : pairsReturns raw) (ht : t ∈ scan raw) (hk : t.kind ≠ .lineBreak) :
    '\r' ∉ t.text := by
  intro hmem
  obtain ⟨us, vs, hscan⟩ := List.append_of_mem ht
  obtain ⟨l, r, hlr⟩ := List.append_of_mem hmem
  have hraw := eq_source_of_scan hscan
  rw [hlr, List.append_assoc, List.cons_append, ← List.append_assoc] at hraw
  rw [hraw] at hr
  have hnext := head?_of_pairsReturns hr
  obtain ⟨-, -, htext⟩ | ⟨am, c, more, htext, hnext', -⟩ := scan_eq_append_cons hscan
  · rcases htext with htext | htext
    · simp [htext] at hmem
    · simp [htext] at hmem
  cases r with
  | cons d r =>
    obtain rfl : d = '\n' := by simpa using hnext
    rcases text_of_endsToken ht hk (c := '\n') (by simp [hlr]) rfl with hsingle | hblank
    · have hlen := congrArg List.length (hlr.symm.trans hsingle)
      simp only [List.length_append, List.length_cons, List.length_nil] at hlen
      omega
    · exact absurd (hblank '\n' (by simp [hlr])) (by decide)
  | nil =>
    have hmore : (next am c (more ++ source vs)).2 = more := by rw [hnext']
    have hkind : (next am c (more ++ source vs)).1 ≠ .lineBreak := by rwa [hnext']
    exact ne_newline_of_next hmore hkind (by rw [← htext, hlr, List.getLast?_concat]) hnext

/-- The pieces of folded text are line feeds and the texts of tokens. -/
lemma mem_foldLines {b : Bool} {ts : List Token} {i : Nat} {p : Text × Option Nat}
    (h : p ∈ foldLines b (ts.zipIdx i)) :
    p = (['\n'], none) ∨ ∃ t ∈ ts, t.kind ≠ .lineBreak ∧ p.1 = t.text ∧ p.2.isSome := by
  induction ts generalizing b i with
  | nil => simp [foldLines] at h
  | cons t ts ih =>
    have hrest : ∀ {b}, p ∈ foldLines b (ts.zipIdx (i + 1)) → p = (['\n'], none) ∨
        ∃ u ∈ t :: ts, u.kind ≠ .lineBreak ∧ p.1 = u.text ∧ p.2.isSome := by
      intro b h
      rcases ih h with hp | ⟨u, hu, hp⟩
      · exact .inl hp
      · exact .inr ⟨u, List.mem_cons_of_mem _ hu, hp⟩
    have hself : t.kind ≠ .lineBreak → p ∈ (t.text, some i) :: foldLines false (ts.zipIdx (i + 1)) →
        p = (['\n'], none) ∨ ∃ u ∈ t :: ts, u.kind ≠ .lineBreak ∧ p.1 = u.text ∧ p.2.isSome := by
      intro hk h
      rcases List.mem_cons.1 h with rfl | h
      · exact .inr ⟨t, List.mem_cons_self, hk, rfl, rfl⟩
      · exact hrest h
    rw [List.zipIdx_cons, foldLines] at h
    split at h
    · exact (List.mem_cons.1 h).elim .inl hrest
    · next hk =>
      split_ifs at h
      · exact hrest h
      · exact hself (by simp [hk]) h
    · next hk _ => exact hself hk h

lemma mem_folded {ts : List Token} (h : c ∈ folded ts) :
    c = '\n' ∨ ∃ t ∈ ts, t.kind ≠ .lineBreak ∧ c ∈ t.text := by
  obtain ⟨p, hp, hc⟩ := List.mem_flatMap.1 h
  rcases mem_foldLines hp with rfl | ⟨t, ht, hk, htext, -⟩
  · exact .inl (by simpa using hc)
  · exact .inr ⟨t, ht, hk, htext ▸ hc⟩

/-- The white space of folded text ends tokens if it is blanks and line breaks in the comment. -/
lemma endsToken_of_mem_folded (hr : pairsReturns raw)
    (hw : ∀ c ∈ raw, isWhiteSpace c → c ∈ [' ', '\t', '\n', '\r']) {ts : List Token}
    (hts : ∀ t ∈ ts, t ∈ scan raw) (hc : c ∈ folded ts) (hwhite : isWhiteSpace c) :
    endsToken c := by
  rcases mem_folded hc with rfl | ⟨t, ht, hk, hmem⟩
  · rfl
  · have hraw : c ∈ raw := by
      rw [← source_scan raw]
      exact List.mem_flatMap.2 ⟨t, hts t ht, hmem⟩
    have hcases := hw c hraw hwhite
    simp only [List.mem_cons, List.not_mem_nil, or_false] at hcases
    rcases hcases with rfl | rfl | rfl | rfl
    · rfl
    · rfl
    · rfl
    · exact absurd hmem (not_mem_return hr (hts t ht) hk)

end Token

namespace Placed

variable {raw : Text} {ts : List Token}

/-- Every place of folded text but a line feed is in a token that has a place. -/
lemma exists_place_at {before w : Text} {d : Char} (h : folded ts = before ++ d :: w)
    (hd : d ≠ '\n') :
    ∃ p ∈ ofTokens ts, ∃ t ∈ ts, ∃ u l r v, t.kind ≠ .lineBreak ∧ t.text = l ++ d :: r ∧
      before = u ++ l ∧ w = r ++ v ∧ p.start = byteSize u ∧ p.stop = byteSize (u ++ t.text) := by
  obtain ⟨qs, ⟨text, index?⟩, rs, l, r, hsplit, htext, hr, hbefore, hw⟩ :=
    exists_part_at (f := fun p : Text × Option Nat => p.1) h (List.cons_ne_nil d w)
  obtain ⟨e, r, rfl⟩ := List.exists_cons_of_ne_nil hr
  rw [List.cons_append, List.cons.injEq] at hw
  obtain ⟨rfl, hw⟩ := hw
  have hmem : (text, index?) ∈ foldLines false (indexed ts) := by rw [hsplit]; simp
  rcases mem_foldLines hmem with heq | ⟨t, ht, hk, rfl, hindex⟩
  · obtain ⟨rfl, -⟩ := Prod.mk.inj heq
    have hfeed : d ∈ l ++ d :: r := by simp
    rw [← htext] at hfeed
    exact absurd (by simpa using hfeed) hd
  · obtain ⟨index, rfl⟩ := Option.isSome_iff_exists.1 hindex
    refine ⟨⟨index, byteSize (qs.flatMap (·.1)), byteSize (qs.flatMap (·.1) ++ t.text)⟩, ?_, t, ht,
      _, l, r, _, hk, htext, hbefore, hw, rfl, rfl⟩
    rw [ofTokens, hsplit, ofPieces_append, ofPieces, Nat.zero_add, byteSize_append]
    simp

/-- A part between two characters that end tokens begins and ends with tokens itself. -/
theorem isSome_span?_of_endsToken (hts : ∀ t ∈ ts, t ∈ scan raw) {x s y : Text}
    (h : folded ts = x ++ (s ++ y)) (hs : s ≠ [])
    (hhead : ∀ d ∈ s.head?, isWhiteSpace d = false)
    (hlast : ∀ d ∈ s.getLast?, isWhiteSpace d = false)
    (hx : ∃ c ∈ x.getLast?, endsToken c) (hy : ∃ c ∈ y.head?, endsToken c) :
    (span? (ofTokens ts) (byteSize x) (byteSize x + byteSize s)).isSome := by
  have hwhite : ∀ {d}, isWhiteSpace d = false → isBlank d = false ∧ d ≠ '\n' := by
    intro d hd
    refine ⟨?_, ?_⟩
    · by_contra hblank
      rw [isWhiteSpace_of_isBlank (by simpa using hblank)] at hd
      cases hd
    · rintro rfl
      cases hd
  rw [isSome_span?_iff fun t ht => text_ne_nil_of_mem_scan t (hts t ht)]
  refine ⟨?_, ?_, ?_⟩
  · have := Nat.pos_of_ne_zero fun hzero => hs (byteSize_eq_zero.1 hzero)
    omega
  · obtain ⟨c, hc, hends⟩ := hx
    obtain ⟨d, s', rfl⟩ := List.exists_cons_of_ne_nil hs
    obtain ⟨hblank, hfeed⟩ := hwhite (hhead d rfl)
    obtain ⟨p, hp, t, ht, u, l, r, v, hk, htext, hbefore, -, hstart, -⟩ := exists_place_at h hfeed
    refine ⟨p, hp, ?_⟩
    rcases List.eq_nil_or_concat' l with rfl | ⟨l, e, rfl⟩
    · rw [hstart, hbefore, List.append_nil]
    · -- The character in front of the part would stand in the same token.
      rw [hbefore, ← List.append_assoc, List.getLast?_concat] at hc
      obtain rfl := Option.some.inj hc
      rw [List.append_assoc, List.singleton_append] at htext
      rw [(endsToken_of_adjacent (hts t ht) hk htext (.inr hblank)).1] at hends
      cases hends
  · obtain ⟨c, hc, hends⟩ := hy
    obtain ⟨s', d, rfl⟩ := (List.eq_nil_or_concat' s).resolve_left hs
    obtain ⟨hblank, hfeed⟩ := hwhite (hlast d (by simp))
    rw [List.append_assoc, List.singleton_append, ← List.append_assoc] at h
    obtain ⟨p, hp, t, ht, u, l, r, v, hk, htext, hbefore, hafter, -, hstop⟩ :=
      exists_place_at h hfeed
    refine ⟨p, hp, ?_⟩
    cases r with
    | nil =>
      rw [hstop, htext, ← List.append_assoc, ← hbefore, ← byteSize_append, List.append_assoc]
    | cons e r =>
      rw [hafter] at hc
      obtain rfl := Option.some.inj hc
      rw [(endsToken_of_adjacent (hts t ht) hk htext (.inl hblank)).2] at hends
      cases hends

/-- The parameters of a method have spans if all white space around them ends tokens. -/
lemma isSome_span?_of_read? (hts : ∀ t ∈ ts, t ∈ scan raw)
    (hends : ∀ c ∈ folded ts, isWhiteSpace c → endsToken c) {types : TypeSyntax} {m : MethodPayload}
    (hm : MethodPayload.read? types (folded ts) = some m) {f : Fragment} (hf : f ∈ m.params) :
    (span? (ofTokens ts) f.start f.stop).isSome := by
  obtain ⟨head, params, rest, hsplit, -, hparams, -⟩ := MethodPayload.exists_of_read? hm
  rw [hparams] at hf
  obtain ⟨x, c, l, r, y, hplace, -, -, hc, hwhite, hy, hstart, hstop, hne, hhead, hlast⟩ :=
    Fragment.exists_place rest hf
  rw [hplace] at hsplit
  have haround : ∀ d ∈ l ++ r, endsToken d := by
    intro d hd
    refine hends d ?_ (hwhite d hd)
    rw [hsplit]
    rcases List.mem_append.1 hd with hd | hd
    · simp [hd]
    · simp [hd]
  have hbefore : ∃ d ∈ (x ++ c :: l).getLast?, endsToken d := by
    rcases List.eq_nil_or_concat' l with rfl | ⟨l, d, rfl⟩
    · refine ⟨c, List.getLast?_concat .., ?_⟩
      rcases hc with rfl | rfl <;> rfl
    · exact ⟨d, by simp [List.getLast?_cons], haround d (by simp)⟩
  have hafter : ∃ d ∈ (r ++ y).head?, endsToken d := by
    cases r with
    | nil =>
      obtain ⟨d, hd, rfl | rfl⟩ := hy
      · exact ⟨_, hd, rfl⟩
      · exact ⟨_, hd, rfl⟩
    | cons d r => exact ⟨d, rfl, haround d (by simp)⟩
  rw [hstop, hstart]
  exact isSome_span?_of_endsToken hts (by rw [hsplit]; simp) hne hhead hlast hbefore hafter

end Placed

namespace Tree

/-- The node of a method whose parameters all have spans. -/
lemma Stage.container_of_spans {rules : Rules} {ts payload : List Token} {t made t' : Tree}
    {s : Span} {id : NodeId} {name : Text} {m : MethodPayload} (h : Stage rules ts t made t' s id)
    (htag : tag? (s.tokens ts) = some (name, payload))
    (hr : rules.resolve name (folded payload) = .method m)
    (hspans : ∀ f ∈ m.params, (Placed.span? (Placed.ofTokens payload) f.start f.stop).isSome) :
    t'.node? id = some
      (.container name m.signature (List.range' t.nodes.size m.params.length) m.description) ∧
    ∀ f ∈ List.range' t.nodes.size m.params.length, (t'.attributes.span? f).isSome := by
  obtain ⟨front, -, hread⟩ := h.exists_readPayload htag
  obtain ⟨spans, hsome⟩ := Option.ne_none_iff_exists'.1 fun hnone =>
    (mapM_eq_none_iff _ _).1 hnone (List.all_eq_true.2 hspans)
  obtain ⟨hnode, hspan⟩ := readPayload_of_spans hr t (s.start + front.length) hsome
  rw [hread, ← h.id_eq htag hr] at hnode
  rw [hread] at hspan
  refine ⟨(h.node?_eq h.adds.lt_size).trans hnode, fun f hf => ?_⟩
  obtain ⟨-, hne, hlt⟩ := h.bounds htag hr hf
  have hmem := List.mem_map_of_mem (f := made.attributes.span?) hf
  rw [hspan] at hmem
  obtain ⟨u, -, hu⟩ := List.mem_map.1 hmem
  rw [Attribute.Table.span?, h.get?_eq hlt hne]
  exact Option.isSome_iff_exists.2 ⟨u, hu.symm⟩

/-- If all white space of a comment is blanks and line breaks, whatever the usual rules read as a
method becomes a container of it, whose fragments all have spans. -/
theorem ofTokens_method {raw : Text} (hr : pairsReturns raw)
    (hw : ∀ c ∈ raw, isWhiteSpace c → c ∈ [' ', '\t', '\n', '\r']) :
    let ts := scan raw
    let t := ofTokens .standard ts
    ∀ id ∈ t.top, ∃ s, t.attributes.span? id = some s ∧
      ∀ name payload m, tag? (s.tokens ts) = some (name, payload) →
        Rules.standard.resolve name (folded payload) = .method m →
        ∃ fragments, t.node? id = some (.container name m.signature fragments m.description) ∧
          fragments.map t.node? = (m.params.map fun f => some (.fragment f.text)) ∧
          ∀ f ∈ fragments, (t.attributes.span? f).isSome := by
  intro ts t id hid
  obtain ⟨t₀, made, s, h⟩ := exists_stage .standard ts hid
  refine ⟨s, h.span?_self, fun name payload m htag hm => ?_⟩
  have hmem : ∀ u ∈ payload, u ∈ scan raw := fun u => mem_of_tag? htag
  obtain ⟨m', hread, hm'⟩ : ∃ m',
      MethodPayload.read? Rules.standard.types (folded payload) = some m' ∧
      Rules.standard.resolve name (folded payload) = .method m' := by
    have husual : Rules.standard.IsUsual := .inr rfl
    rcases husual.resolve_cases name (folded payload) with
      hr | ⟨-, ⟨withVariable, v, -, hr⟩ | hread⟩
    · cases hr.symm.trans hm
    · cases hr.symm.trans hm
    · exact hread
  obtain rfl := Reading.method.inj (hm'.symm.trans hm)
  have hspans : ∀ f ∈ m'.params, (Placed.span? (Placed.ofTokens payload) f.start f.stop).isSome :=
    fun f => Placed.isSome_span?_of_read? hmem
      (fun c hc => endsToken_of_mem_folded hr hw hmem hc) hread
  obtain ⟨hnode, hspanned⟩ := h.container_of_spans htag hm hspans
  exact ⟨_, hnode, h.map_node? htag hm, hspanned⟩

/-- A comma in angle brackets parts no parameters. The second parameter stands on a line of its
own. -/
theorem ofTokens_method_on_two_lines :
    let raw := "/**\r\n * @method static f(int $a,\r\n *\t array<int, int> $b) Both.\r\n */".toList
    let ts := scan raw
    let t := ofTokens .standard ts
    pairsReturns raw ∧ (∀ c ∈ raw, isWhiteSpace c → c ∈ [' ', '\t', '\n', '\r']) ∧ 2 ∈ t.top ∧
      ∃ fragments, t.node? 2 =
          some (.container "method".toList ⟨true, none, ['f']⟩ fragments "Both.".toList) ∧
        fragments.map t.node? =
          [some (.fragment "int $a".toList), some (.fragment "array<int, int> $b".toList)] ∧
        ∀ f ∈ fragments, (t.attributes.span? f).isSome := by
  intro raw ts t
  have hr : pairsReturns raw := by decide +kernel
  have hw : ∀ c ∈ raw, isWhiteSpace c → c ∈ [' ', '\t', '\n', '\r'] := by
    have hall : raw.all fun c => !isWhiteSpace c || [' ', '\t', '\n', '\r'].contains c := by
      decide +kernel
    intro c hc hwhite
    simpa [hwhite] using List.all_eq_true.1 hall c hc
  have htop : 2 ∈ t.top := by decide +kernel
  obtain ⟨s, hs, hmethod⟩ := ofTokens_method hr hw 2 htop
  have hspan : t.attributes.span? 2 = some ⟨2, 28⟩ := by decide +kernel
  obtain rfl : s = ⟨2, 28⟩ := Option.some.inj (hs.symm.trans hspan)
  exact ⟨hr, hw, htop, hmethod "method".toList ((Span.tokens ⟨2, 28⟩ ts).drop 3)
    ⟨⟨true, none, ['f']⟩, [⟨"int $a".toList, 9, 15⟩, ⟨"array<int, int> $b".toList, 17, 35⟩],
      "Both.".toList⟩ (by decide +kernel) (by decide +kernel)⟩

end Tree

end DocComment
