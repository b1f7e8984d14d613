import DocComment.Proofs.Block.Printed
import DocComment.Proofs.Tree.Part

/-!
# Nodes that are put elsewhere

What a node says does not depend on where its tokens stand (`ofTokens_congr`). So a node that is
taken from a comment with what stands in front of it is the same node in any other (`isNode_body`,
`isGap_gap`), and so is another one in its place that starts with a marker (`parts_gap`).
-/

namespace DocComment

open Text Token

/-! ### Only kinds and texts matter -/

namespace Token

variable {ts us : List Token}

lemma exists_of_map_lexeme_cons {t : Token} (h : us.map lexeme = (t :: ts).map lexeme) :
    ∃ u vs, us = u :: vs ∧ u.kind = t.kind ∧ u.text = t.text ∧ vs.map lexeme = ts.map lexeme := by
  rw [List.map_cons] at h
  obtain ⟨u, vs, rfl, hu, hvs⟩ := List.map_eq_cons_iff.1 h
  exact ⟨u, vs, rfl, congrArg Prod.fst hu, congrArg Prod.snd hu, hvs⟩

lemma source_congr (h : us.map lexeme = ts.map lexeme) : source us = source ts := by
  induction ts generalizing us with
  | nil =>
    obtain rfl : us = [] := by simpa using h
    rfl
  | cons t ts ih =>
    obtain ⟨u, vs, rfl, -, htext, hvs⟩ := exists_of_map_lexeme_cons h
    rw [source_cons, source_cons, htext, ih hvs]

lemma all_isSeparator_congr (h : us.map lexeme = ts.map lexeme) (hsep : ∀ t ∈ ts, t.isSeparator) :
    ∀ u ∈ us, u.isSeparator := by
  intro u hu
  have hmem : lexeme u ∈ ts.map lexeme := h ▸ List.mem_map_of_mem hu
  obtain ⟨t, ht, hkind⟩ := List.mem_map.1 hmem
  have hk : t.kind = u.kind := congrArg Prod.fst hkind
  have := hsep t ht
  rwa [isSeparator_iff, hk, ← isSeparator_iff] at this

lemma breaks_congr (h : us.map lexeme = ts.map lexeme) : breaks us = breaks ts := by
  induction ts generalizing us with
  | nil =>
    obtain rfl : us = [] := by simpa using h
    rfl
  | cons t ts ih =>
    obtain ⟨u, vs, rfl, hkind, -, hvs⟩ := exists_of_map_lexeme_cons h
    have := ih hvs
    simp only [breaks, List.countP_cons, hkind] at this ⊢
    rw [this]

lemma startsNode_congr (h : us.map lexeme = ts.map lexeme) {t u : Token} (hk : u.kind = t.kind) :
    startsNode us u = startsNode ts t := by
  rw [startsNode, startsNode, breaks_congr h, hk]

lemma isContent_congr {t u : Token} (hk : u.kind = t.kind) (ht : t.isContent) : u.isContent := by
  rw [isContent_iff] at ht ⊢
  rwa [hk]

lemma Solid.congr (h : Solid ts) (hlex : us.map lexeme = ts.map lexeme) : Solid us := by
  induction h generalizing us with
  | @single t ht =>
    obtain ⟨u, vs, rfl, hkind, -, hvs⟩ := exists_of_map_lexeme_cons hlex
    obtain rfl : vs = [] := List.map_eq_nil_iff.1 hvs
    exact .single (isContent_congr hkind ht)
  | @cons t v gap ts ht hgap hnot hrest ih =>
    obtain ⟨u, vs, rfl, hkind, -, hvs⟩ := exists_of_map_lexeme_cons hlex
    rw [List.map_append] at hvs
    obtain ⟨gap', rest', rfl, hgap', hrest'⟩ := List.map_eq_append_iff.1 hvs
    obtain ⟨v', ts', rfl, hv', -, -⟩ := exists_of_map_lexeme_cons hrest'
    refine .cons (isContent_congr hkind ht) (all_isSeparator_congr hgap' hgap) ?_ (ih hrest')
    rwa [startsNode_congr hgap' hv']

lemma foldLines_congr (h : us.map lexeme = ts.map lexeme) (b : Bool) (i : Nat) :
    foldLines b (us.zipIdx i) = foldLines b (ts.zipIdx i) := by
  induction ts generalizing us b i with
  | nil =>
    obtain rfl : us = [] := by simpa using h
    rfl
  | cons t ts ih =>
    obtain ⟨u, vs, rfl, hkind, htext, hvs⟩ := exists_of_map_lexeme_cons h
    simp only [List.zipIdx_cons, foldLines, hkind, htext, ih hvs]

lemma folded_congr (h : us.map lexeme = ts.map lexeme) : folded us = folded ts := by
  rw [folded, indexed, foldLines_congr h, folded, indexed]

end Token

lemma Placed.ofTokens_congr {ts us : List Token} (h : us.map lexeme = ts.map lexeme) :
    ofTokens us = ofTokens ts := by
  rw [ofTokens, indexed, foldLines_congr h, ofTokens, indexed]

namespace Node.Content

variable {ts us : List Token} (rules : Rules)

lemma ofPayload_congr (h : us.map lexeme = ts.map lexeme) (name : Text) :
    ofPayload rules name us = ofPayload rules name ts := by
  simp only [ofPayload, folded_congr h, Placed.ofTokens_congr h]

lemma map_lexeme_dropWhile (h : us.map lexeme = ts.map lexeme) :
    (us.dropWhile (·.kind = .blank)).map lexeme = (ts.dropWhile (·.kind = .blank)).map lexeme := by
  induction ts generalizing us with
  | nil =>
    obtain rfl : us = [] := by simpa using h
    rfl
  | cons t ts ih =>
    obtain ⟨u, vs, rfl, hkind, -, hvs⟩ := exists_of_map_lexeme_cons h
    by_cases hk : t.kind = .blank
    · simpa [hkind, hk] using ih hvs
    · simpa [hkind, hk] using h

/-- A node says the same wherever its tokens stand. -/
lemma ofTokens_congr (h : us.map lexeme = ts.map lexeme) :
    ofTokens rules us = ofTokens rules ts := by
  match ts with
  | [] =>
    obtain rfl : us = [] := by simpa using h
    rfl
  | [t] =>
    obtain ⟨u, vs, rfl, -, -, hvs⟩ := exists_of_map_lexeme_cons h
    obtain rfl : vs = [] := List.map_eq_nil_iff.1 hvs
    rw [ofTokens, ofTokens, folded_congr h]
    · simp
    · simp
  | t :: name :: payload =>
    obtain ⟨u, vs, rfl, hkind, -, hvs⟩ := exists_of_map_lexeme_cons h
    obtain ⟨name', payload', rfl, -, hname, hpayload⟩ := exists_of_map_lexeme_cons hvs
    rw [ofTokens, ofTokens, hkind, hname, folded_congr h,
      ofPayload_congr rules (map_lexeme_dropWhile hpayload)]

end Node.Content

/-! ### The parts of a comment -/

namespace Segments

variable {raw : Text} {s : Segments} {k : Nat} {n : Segment}

/-- Behind the opening delimiter a comment is cut like any text. -/
lemma tokens_eq_scanFrom (hs : s.tokens = scan raw) :
    s.nodes.flatMap Segment.tokens ++ s.trail = scanFrom false (byteSize (source s.opening))
      (source (s.nodes.flatMap Segment.tokens ++ s.trail)) := by
  rw [tokens, List.append_assoc] at hs
  rcases s.opening_cases with ⟨t, ht, hkind⟩ | ⟨hnil, hhead⟩
  · rw [ht, List.singleton_append] at hs
    rcases scan_cases raw with ⟨stars, hstars, rest, -, hscan⟩ | hscan
    · rw [hscan] at hs
      obtain ⟨rfl, hrest⟩ := List.cons.inj hs
      rw [hrest, source_scanFrom, ht]
      rcases hstars with rfl | rfl <;> rfl
    · have hmem : t ∈ scanFrom false 0 raw := by
        rw [← hscan, ← hs]
        exact List.mem_cons_self
      exact absurd hkind (kind_ne_opening hmem)
  · rw [hnil, List.nil_append] at hs
    rcases scan_cases raw with ⟨stars, -, rest, -, hscan⟩ | hscan
    · rw [hs, hscan] at hhead
      exact absurd rfl (hhead _ rfl)
    · rw [hs, hscan, source_scanFrom, hnil]
      rfl

lemma head_trail : ∀ t ∈ s.trail.head?, t.isSeparator ∨ t.kind = .closing := by
  intro t ht
  obtain ⟨ts, hts⟩ := List.head?_eq_some_iff.1 ht
  by_cases hsep : t.isSeparator
  · exact .inl hsep
  · exact .inr (s.trail_closing t (by simp [hts, hsep]))

lemma head_after (k : Nat) : ∀ t ∈ (s.after k).head?, t.isSeparator ∨ t.kind = .closing := by
  intro t ht
  rw [after] at ht
  cases hnodes : s.nodes.drop (k + 1) with
  | nil =>
    rw [hnodes, List.flatMap_nil, List.nil_append] at ht
    exact head_trail t ht
  | cons m ms =>
    have hm : s.nodes[k + 1]? = some m := by
      have := congrArg List.head? hnodes
      rwa [List.head?_drop, List.head?_cons] at this
    obtain ⟨u, us, hgap⟩ := List.exists_cons_of_ne_nil (gap_ne_nil (Nat.succ_pos k) hm)
    rw [hnodes, List.flatMap_cons, Segment.tokens, hgap] at ht
    obtain rfl : u = t := by simpa using ht
    exact .inl (m.isSeparator u (by simp [hgap]))

/-- What stands behind a node stops its content. -/
lemma stops_source {am : Bool} {i : Nat} {x : Text} {ts us : List Token}
    (h : scanFrom am i x = ts ++ us) (hhead : ∀ t ∈ us.head?, t.isSeparator ∨ t.kind = .closing) :
    stops (source us) := by
  cases us with
  | nil => rfl
  | cons u us =>
    have hu : u ∈ scanFrom am i x := by
      rw [h]
      simp
    rw [source_cons]
    rcases hhead u rfl with hsep | hclosing
    · exact (stops_of_isSeparator hu hsep _).2
    · rw [text_of_closing hu hclosing]
      rfl

lemma endsMarker_of_isSeparator {ts : List Token} (h : ∀ t ∈ ts, t.isSeparator) :
    endsMarker false ts = false := by
  rcases List.eq_nil_or_concat' ts with rfl | ⟨ts, t, rfl⟩
  · rfl
  · rw [endsMarker_append_singleton]
    rcases isSeparator_iff.1 (h t (by simp)) with hk | hk
    · simp [hk]
    · simp [hk]

/-- A cut between two tokens stays one wherever the text stands. -/
lemma exists_map_lexeme_eq {i : Nat} {x y : Text} {ts us : List Token}
    (h : scanFrom false i (x ++ y) = ts ++ us) (hx : source ts = x)
    (hmarker : ∀ ts' : List Token, ts'.map lexeme = ts.map lexeme → endsMarker false ts' = false)
    (j : Nat) : ∃ ts', ts'.map lexeme = ts.map lexeme ∧
      scanFrom false j (x ++ y) = ts' ++ scanFrom false (j + byteSize x) y := by
  have hlex := map_lexeme_scanFrom false j i (x ++ y)
  rw [h, List.map_append] at hlex
  obtain ⟨ts', us', hsplit, hts', -⟩ := List.map_eq_append_iff.1 hlex
  have hx' : source ts' = x := (source_congr hts').trans hx
  have hy : source us' = y := by
    have hsource := congrArg source hsplit
    rw [source_scanFrom, source_append, hx'] at hsource
    exact (List.append_cancel_left hsource).symm
  have hsuffix := scanFrom_suffix hsplit
  rw [hmarker ts' hts', hx', hy] at hsuffix
  exact ⟨ts', hts', by rw [hsplit, ← hsuffix]⟩

/-- The tokens of a comment from the gap of a node on. -/
lemma exists_scanFrom_gap (hs : s.tokens = scan raw) (hn : s.nodes[k]? = some n) :
    ∃ i, scanFrom false i (source n.gap ++ source (n.body ++ s.after k)) =
      n.gap ++ (n.body ++ s.after k) := by
  have hall := tokens_eq_scanFrom hs
  have hsplit : s.nodes.flatMap Segment.tokens ++ s.trail =
      (s.nodes.take k).flatMap Segment.tokens ++ (n.gap ++ (n.body ++ s.after k)) := by
    have := tokens_eq hn
    rw [tokens, before, List.append_assoc, List.append_assoc, List.append_assoc,
      List.append_assoc] at this
    exact List.append_cancel_left this
  rw [hsplit] at hall
  have hmarker : endsMarker false ((s.nodes.take k).flatMap Segment.tokens) = false := by
    by_contra he
    rw [Bool.not_eq_false] at he
    obtain ⟨u, hu, hkind⟩ := head_of_endsMarker hall.symm (by simp) he
    cases hgap : n.gap with
    | nil =>
      -- Only the first node may have no gap.
      have hk : k = 0 := by
        by_contra hk
        exact gap_ne_nil (Nat.pos_of_ne_zero hk) hn hgap
      subst hk
      simp [endsMarker] at he
    | cons t gap =>
      rw [hgap] at hu
      obtain rfl : t = u := by simpa using hu
      rcases isSeparator_iff.1 (n.isSeparator t (by simp [hgap])) with hk | hk
      · rw [hk] at hkind
        cases hkind
      · rw [hk] at hkind
        cases hkind
  have hsuffix := scanFrom_suffix hall.symm
  rw [hmarker, source_append n.gap] at hsuffix
  exact ⟨_, hsuffix.symm⟩

/-- The tokens of a comment from a node on. -/
lemma exists_scanFrom_body (hs : s.tokens = scan raw) (hn : s.nodes[k]? = some n) :
    ∃ i, scanFrom false i (source n.body ++ source (s.after k)) = n.body ++ s.after k := by
  obtain ⟨i, h⟩ := exists_scanFrom_gap hs hn
  have hsuffix := scanFrom_suffix h
  rw [endsMarker_of_isSeparator n.isSeparator, source_append n.body] at hsuffix
  exact ⟨_, hsuffix.symm⟩

/-- A node has the same tokens wherever its text stands. -/
lemma map_lexeme_body (hs : s.tokens = scan raw) (hn : s.nodes[k]? = some n) (i : Nat) :
    (scanFrom false i (source n.body)).map lexeme = n.body.map lexeme := by
  obtain ⟨j, h⟩ := exists_scanFrom_body hs hn
  have hstops : stops (source (s.after k)) := stops_source h (head_after k)
  rw [map_lexeme_scanFrom false i j, scanFrom_of_append hstops h n.solid.isSeparator_getLast]

lemma exists_source_body (hs : s.tokens = scan raw) (hn : s.nodes[k]? = some n) :
    ∃ c m, source n.body = c :: m ∧ ¬ ['*', '/'] <+: c :: m ++ source (s.after k) := by
  obtain ⟨j, h⟩ := exists_scanFrom_body hs hn
  obtain ⟨t, us, hcons, ht⟩ := n.solid.exists_cons
  rw [hcons, List.cons_append] at h
  obtain ⟨c, m, z, hz, htext, -⟩ := next_of_scanFrom_cons h
  have hbody : source n.body = c :: (m ++ source us) := by
    rw [hcons, source_cons, htext]
    rfl
  refine ⟨c, m ++ source us, hbody, ?_⟩
  rintro ⟨r, hr⟩
  -- The first token would be the closing delimiter.
  rw [← hcons, hbody, ← hr] at hz
  obtain ⟨rfl, hrest⟩ := List.cons.inj hz
  have hkind : t.kind = .closing := by
    rw [htext, ← hrest]
    rfl
  exact (isContent_iff.1 ht).2.2 hkind

/-- The gap in front of a node has the same tokens in front of any text that starts like the node,
or with a tag. -/
lemma isGap_gap (hs : s.tokens = scan raw) (hn : s.nodes[k]? = some n) {body : Text}
    (hne : body ≠ []) (hbody : body.head? = (source n.body).head? ∨ body.head? = some '@') :
    Part.IsGap (source n.gap) body fun ts => ts.map lexeme = n.gap.map lexeme := by
  intro i rest
  obtain ⟨j, h⟩ := exists_scanFrom_gap hs hn
  obtain ⟨c, m, hsource, hclosing⟩ := exists_source_body hs hn
  rw [source_append n.body, hsource] at h
  have hhead : (body ++ rest).head? = (c :: m ++ source (s.after k)).head? ∨
      (body ++ rest).head? = some '@' := by
    rw [List.head?_append_of_ne_nil _ hne]
    exact hbody.imp_left fun hbody => by rw [hbody, hsource]; rfl
  have hgap := scanFrom_gap n.isSeparator h hclosing hhead
  obtain ⟨ts, hts, hscan⟩ := exists_map_lexeme_eq hgap rfl (fun ts' hts' =>
    endsMarker_of_isSeparator (all_isSeparator_congr hts' n.isSeparator)) i
  exact ⟨ts, all_isSeparator_congr hts n.isSeparator, hts, hscan⟩

/-- The separators in front of a node that is not the first start one there. -/
lemma stops_gap (hs : s.tokens = scan raw) (hk : 0 < k) (hn : s.nodes[k]? = some n) (y : Text) :
    stops (source n.gap ++ y) := by
  obtain ⟨j, h⟩ := exists_scanFrom_gap hs hn
  obtain ⟨t, us, hgap⟩ := List.exists_cons_of_ne_nil (gap_ne_nil hk hn)
  have ht : t ∈ scanFrom false j (source n.gap ++ source (n.body ++ s.after k)) := by
    rw [h, hgap]
    simp
  rw [hgap, source_cons, List.append_assoc]
  exact (stops_of_isSeparator ht (n.isSeparator t (by simp [hgap])) _).2

/-- A gap starts with a line break or a blank. -/
lemma head?_source_gap (hs : s.tokens = scan raw) (hn : s.nodes[k]? = some n) (hgap : n.gap ≠ []) :
    source n.gap ≠ [] ∧ (source n.gap).head? ≠ some '/' := by
  have hmem : ∀ t ∈ n.gap, t ∈ scan raw := by
    intro t ht
    rw [← hs, tokens_eq hn]
    simp [ht]
  exact head?_source_of_isSeparator hmem n.isSeparator hgap

/-- The trail has the same tokens wherever its text stands. -/
lemma map_lexeme_trail (hs : s.tokens = scan raw) (hne : s.nodes ≠ []) (i : Nat) :
    (scanFrom false i (source s.trail)).map lexeme = s.trail.map lexeme := by
  have hlt : s.nodes.length - 1 < s.nodes.length := Nat.sub_one_lt (by simpa using hne)
  have hn : s.nodes[s.nodes.length - 1]? = some s.nodes[s.nodes.length - 1] :=
    List.getElem?_eq_getElem hlt
  have hafter : s.after (s.nodes.length - 1) = s.trail := by
    rw [after, Nat.sub_add_cancel (Nat.zero_lt_of_lt hlt), List.drop_length]
    rfl
  obtain ⟨j, h⟩ := exists_scanFrom_body hs hn
  rw [hafter] at h
  have hmarker : endsMarker false s.nodes[s.nodes.length - 1].body = false := by
    by_contra he
    rw [Bool.not_eq_false] at he
    obtain ⟨u, hu, hkind⟩ := head_of_endsMarker h (by simp) he
    rcases head_trail u hu with hsep | hclosing
    · rcases isSeparator_iff.1 hsep with hk | hk
      · rw [hk] at hkind
        cases hkind
      · rw [hk] at hkind
        cases hkind
    · rw [hclosing] at hkind
      cases hkind
  have hsuffix := scanFrom_suffix h
  rw [hmarker] at hsuffix
  conv_rhs => rw [hsuffix]
  exact map_lexeme_scanFrom _ _ _ _

lemma stops_trail (hs : s.tokens = scan raw) : stops (source s.trail) :=
  stops_source (tokens_eq_scanFrom hs).symm head_trail

lemma head_scanFrom_trail (hs : s.tokens = scan raw) (hne : s.nodes ≠ []) (i : Nat) :
    ∀ t ∈ ((scanFrom false i (source s.trail)).dropWhile Token.isSeparator).head?,
      t.kind = .closing := by
  have hlex := map_lexeme_trail hs hne i
  have htrail := s.trail_closing
  revert hlex htrail
  generalize scanFrom false i (source s.trail) = us
  generalize s.trail = ts
  intro hlex htrail
  induction ts generalizing us with
  | nil =>
    obtain rfl : us = [] := by simpa using hlex
    simp
  | cons t ts ih =>
    obtain ⟨u, vs, rfl, hkind, -, hvs⟩ := exists_of_map_lexeme_cons hlex
    have hsep : u.isSeparator = t.isSeparator := by simp only [isSeparator, hkind]
    rw [List.dropWhile_cons] at htrail ⊢
    rw [hsep]
    split_ifs at htrail ⊢ with ht
    · exact ih vs hvs htrail
    · intro v hv
      obtain rfl : u = v := Option.some.inj hv
      rw [hkind]
      exact htrail t rfl

end Segments

/-! ### Nodes as parts -/

/-- Whether every carriage return stands in front of a line feed. -/
def Text.pairsReturns : Text → Bool
  | [] => true
  | c :: s => (c ≠ '\r' || s.head? = some '\n') && pairsReturns s

lemma Text.pairsReturns_of_append {s t : Text} (h : pairsReturns (s ++ t))
    (hlast : s.getLast? ≠ some '\r') : pairsReturns s := by
  induction s with
  | nil => rfl
  | cons c s ih =>
    rw [List.cons_append, pairsReturns, Bool.and_eq_true] at h
    rw [pairsReturns, Bool.and_eq_true]
    cases s with
    | nil => exact ⟨by simpa using hlast, rfl⟩
    | cons d s => exact ⟨h.1, ih h.2 (by simpa using hlast)⟩

lemma Text.head?_of_pairsReturns {s t : Text} (h : pairsReturns (s ++ '\r' :: t)) :
    t.head? = some '\n' := by
  induction s with
  | nil =>
    rw [List.nil_append, pairsReturns, Bool.and_eq_true] at h
    simpa using h.1
  | cons c s ih =>
    rw [List.cons_append, pairsReturns, Bool.and_eq_true] at h
    exact ih h.2

namespace Segments

variable {raw : Text} {s : Segments} {k : Nat} {n : Segment} (hs : s.tokens = scan raw)
  (hn : s.nodes[k]? = some n)

include hs hn

lemma getLast?_body (hr : pairsReturns raw) : (source n.body).getLast? ≠ some '\r' := by
  intro hlast
  obtain ⟨j, h⟩ := exists_scanFrom_body hs hn
  refine ne_newline_of_scanFrom h n.solid.isSeparator_getLast hlast ?_
  obtain ⟨p, hp⟩ := List.getLast?_eq_some_iff.1 hlast
  have hraw : raw = source (s.before k ++ n.gap) ++ p ++ '\r' :: source (s.after k) := by
    rw [← source_scan raw, ← hs, tokens_eq hn, source_append, source_append _ n.body, hp]
    simp
  rw [hraw] at hr
  exact head?_of_pairsReturns hr

/-- A node of a comment is read alike anywhere. -/
lemma isNode_body (rules : Rules) (hr : pairsReturns raw) :
    Part.IsNode rules (source n.body) (Node.Content.ofTokens rules n.body) where
  solid i := n.solid.congr (map_lexeme_body hs hn i)
  content i := Node.Content.ofTokens_congr rules (map_lexeme_body hs hn i)
  getLast? := getLast?_body hs hn hr

/-- A gap between two nodes parts any other node from the one in front that starts with the token
of the same kind, or with a marker. -/
lemma parts_gap {body : Text} {c : Node.Content} (hk : 0 < k)
    (hbody : body.head? = (source n.body).head? ∨ body.head? = some '@')
    (hkind : ∀ j, ∃ t ∈ (scanFrom false j body).head?,
      t.kind ∈ n.body.head?.map Token.kind ∨ t.kind = .marker) :
    Part.Parts ⟨source n.gap, body, c⟩ where
  stops := stops_gap hs hk hn
  gap j i rest := by
    obtain ⟨t, ht, htkind⟩ := hkind j
    have hne : body ≠ [] := by
      rintro rfl
      simp at ht
    obtain ⟨ts, hsep, hlex, hscan⟩ := isGap_gap hs hn hne hbody i rest
    refine ⟨ts, hsep, ?_, hscan⟩
    dsimp only
    rw [Option.mem_def.1 ht, Option.any_some]
    have hstarts := starts_of_pos hk hn
    obtain ⟨u, us, hu, -⟩ := n.solid.exists_cons
    rw [Segment.starts, hu, List.head?_cons, Option.any_some] at hstarts
    rcases htkind with htkind | htkind
    · rw [hu] at htkind
      have hsame : t.kind = u.kind := (Option.some.inj htkind).symm
      rwa [startsNode_congr hlex hsame]
    · simp only [startsNode, Bool.or_eq_true, Bool.and_eq_true, decide_eq_true_eq,
        breaks_congr hlex] at hstarts ⊢
      rcases hstarts with h | ⟨h, -⟩
      · exact .inl h
      · exact .inr ⟨h, htkind⟩

end Segments

end DocComment
