import DocComment.Proofs.Tree.Folded
import DocComment.Proofs.Tree.Recognized

/-!
# The payloads that the rules get

What the rules get of a tag is its payload without the layout of its lines (`Token.payloads`). No
blank stands at the start or the end of it, nor a line feed at its end, and no line but the first is
empty or starts with a blank or a tag (`Text.IsFolded`). The first line follows the name of the tag,
where a marker starts no tag, so it may start like one.

A tree depends on the rules only through what they make of the payloads
(`Tree.ofTokens_payloads`).
-/

namespace DocComment

open Text Token

/-! ### Lines -/

namespace Text

/-- A payload as the rules get it. -/
structure IsFolded (payload : Text) : Prop where
  head? : ∀ c ∈ payload.head?, isBlank c = false
  getLast? : ∀ c ∈ payload.getLast?, isBlank c = false ∧ c ≠ '\n'
  lines : ∀ line ∈ (splitOn '\n' payload).tail,
    line ≠ [] ∧ (∀ c ∈ line.head?, isBlank c = false) ∧ startsTag line = false

/-- Every line but the first one stands behind a line feed. -/
lemma continues_of_mem_tail {stars : Bool} {s : Text}
    (h : ∀ a w, s = a ++ '\n' :: w → continues stars w) :
    ∀ line ∈ (splitOn '\n' s).tail, continues stars line := by
  induction s with
  | nil => simp [splitOn]
  | cons c s ih =>
    have ih' := ih fun a w hw => h (c :: a) w (by rw [hw]; rfl)
    obtain ⟨part, parts, hparts, hcons⟩ := splitOn_cons '\n' c s
    rw [hparts] at ih'
    rw [hcons]
    split_ifs with hc
    · refine List.forall_mem_cons.2 ⟨?_, ih'⟩
      rw [line_eq_takeWhile hparts, continues_takeWhile]
      exact h [] s (by rw [hc]; rfl)
    · exact ih'

end Text

namespace Token

variable {raw : Text} {t u : Token} {us ts vs : List Token}

/-! ### Line feeds and blanks in tokens -/

/-- Only line breaks have line feeds. -/
lemma newline_not_mem_text (ht : t ∈ scan raw) (hk : t.kind ≠ .lineBreak) : '\n' ∉ t.text := by
  intro hmem
  obtain ⟨us, vs, hscan⟩ := List.append_of_mem ht
  rcases text_of_endsToken ht hk hmem rfl with hsingle | hblank
  · obtain ⟨-, -, htext⟩ | ⟨am, c, more, htext, hnext, -⟩ := scan_eq_append_cons hscan
    · rcases htext with htext | htext
      · simp [htext] at hmem
      · simp [htext] at hmem
    · obtain ⟨rfl, -⟩ := List.cons.inj (htext.symm.trans hsingle)
      rw [next_eq, if_neg (by simp), if_neg (by simp), if_pos rfl] at hnext
      exact hk (Prod.mk.inj hnext).1.symm
  · cases hblank '\n' hmem

/-- Only separators have blanks. -/
lemma isBlank_of_mem_scan (ht : t ∈ scan raw) (hsep : t.isSeparator = false) :
    ∀ c ∈ t.text, isBlank c = false := by
  by_cases hk : t.kind = .opening
  · intro c hc
    rcases char_of_opening ht hk c hc with rfl | rfl
    · rfl
    · rfl
  · obtain ⟨i, s, hmem⟩ := mem_scan ht hk
    exact isBlank_of_mem_text hmem hsep

/-! ### Folded lines -/

lemma keepsText_of_isContent (b : Bool) (ht : t.isContent) : keepsText b t := by
  obtain ⟨hbreak, hblank, -⟩ := isContent_iff.1 ht
  simp [keepsText, hbreak, hblank]

lemma foldedFrom_lineBreak (b : Bool) (hk : t.kind = .lineBreak) (ts : List Token) :
    foldedFrom b (t :: ts) = '\n' :: foldedFrom true ts := by
  rw [foldedFrom, indexed, List.zipIdx_cons, foldLines, hk, List.flatMap_cons,
    flatMap_foldLines_zipIdx]
  rfl

lemma foldedFrom_blank (hk : t.kind = .blank) (ts : List Token) :
    foldedFrom true (t :: ts) = foldedFrom true ts := by
  rw [foldedFrom, indexed, List.zipIdx_cons, foldLines, hk]
  exact flatMap_foldLines_zipIdx true ts 1

/-- The blanks at the start of a line are dropped. -/
lemma foldedFrom_dropWhile (ts : List Token) :
    foldedFrom true (ts.dropWhile (·.kind = .blank)) = foldedFrom true ts := by
  induction ts with
  | nil => rfl
  | cons t ts ih =>
    by_cases hk : t.kind = .blank
    · rw [List.dropWhile_cons_of_pos (by simpa using hk), ih, foldedFrom_blank hk]
    · rw [List.dropWhile_cons_of_neg (by simpa using hk)]

/-- Content that is no marker starts no tag, and folding brings none about. -/
lemma startsTag_append_folded (h : scan raw = us ++ t :: (ts ++ vs)) (hk : t.kind ≠ .marker) :
    startsTag (t.text ++ folded ts) = false := by
  obtain ⟨-, -, htext | htext⟩ | ⟨am, c, more, htext, hnext, -⟩ := scan_eq_append_cons h
  · rw [htext]
    rfl
  · rw [htext]
    rfl
  rw [htext, List.cons_append, startsTag_cons]
  by_contra htag
  rw [Bool.not_eq_false, Bool.and_eq_true, decide_eq_true_eq, Option.any_eq_true] at htag
  obtain ⟨rfl, d, hd, hstart⟩ := htag
  -- The same character follows in the comment.
  have hraw : d ∈ (more ++ source (ts ++ vs)).head? := by
    cases more with
    | cons e more => exact hd
    | nil =>
      cases ts with
      | nil => cases hd
      | cons u ts =>
        rw [List.nil_append, folded_eq_foldedFrom] at hd
        by_cases hbreak : u.kind = .lineBreak
        · rw [foldedFrom_lineBreak false hbreak] at hd
          obtain rfl := Option.some.inj hd
          cases hstart
        · have hmem : u ∈ scan raw := by
            rw [h]
            simp
          have hne := text_ne_nil_of_mem_scan u hmem
          rw [foldedFrom_cons (by simp [keepsText, hbreak]),
            List.head?_append_of_ne_nil _ hne] at hd
          rwa [List.nil_append, List.cons_append, source_cons, List.head?_append_of_ne_nil _ hne]
  have htag : startsTag ('@' :: (more ++ source (ts ++ vs))) := by
    rw [startsTag_cons, Option.mem_def.1 hraw]
    simpa using hstart
  have hname : (am && isTagNameChar '@') = false := Bool.and_false am
  rw [next_eq, if_neg (by simp), if_neg (by simp), if_neg (by simp), if_neg (by simp [hname]),
    if_pos htag] at hnext
  exact hk (Prod.mk.inj hnext).1.symm

/-- A line of folded text goes on as the content says that it starts with. -/
lemma continues_foldedFrom (h : scan raw = us ++ (ts ++ vs))
    (hu : u ∈ (ts.dropWhile (·.kind = .blank)).head?) (hcontent : u.isContent)
    (hk : u.kind ≠ .marker) : continues true (foldedFrom true ts) := by
  obtain ⟨rest, hrest⟩ := List.head?_eq_some_iff.1 hu
  have hts : ts = ts.takeWhile (·.kind = .blank) ++ u :: rest := by
    rw [← hrest, List.takeWhile_append_dropWhile]
  have hscan : scan raw = us ++ ts.takeWhile (·.kind = .blank) ++ u :: (rest ++ vs) := by
    rw [h]
    nth_rewrite 1 [hts]
    simp
  have hmem : u ∈ scan raw := by
    rw [hscan]
    simp
  obtain ⟨c, more, htext⟩ := List.exists_cons_of_ne_nil (text_ne_nil_of_mem_scan u hmem)
  have hc : c ∈ u.text := by
    rw [htext]
    exact List.mem_cons_self
  have hfeed : c ≠ '\n' := by
    rintro rfl
    exact newline_not_mem_text hmem (isContent_iff.1 hcontent).1 hc
  rw [← foldedFrom_dropWhile, hrest, foldedFrom_cons (keepsText_of_isContent true hcontent),
    continues_iff]
  refine ⟨⟨c, by rw [htext]; rfl, ?_, hfeed, by simp⟩, startsTag_append_folded hscan hk⟩
  exact isBlank_of_mem_scan hmem (isSeparator_eq_false_of_isContent hcontent) c hc

/-- Behind each line feed of folded text stands a line of it. -/
lemma continues_of_foldedFrom {b : Bool} {a w : Text} (h : scan raw = us ++ (ts ++ vs))
    (hlines : goesOn ts) (hsplit : foldedFrom b ts = a ++ '\n' :: w) : continues true w := by
  induction ts generalizing us b a with
  | nil => simp [foldedFrom, indexed, foldLines] at hsplit
  | cons t ts ih =>
    have h' : scan raw = us ++ [t] ++ (ts ++ vs) := by rw [h]; simp
    rw [goesOn, Bool.and_eq_true] at hlines
    by_cases hk : t.kind = .lineBreak
    · rw [foldedFrom_lineBreak b hk] at hsplit
      cases a with
      | nil =>
        obtain ⟨-, rfl⟩ := List.cons.inj hsplit
        have hline := hlines.1
        rw [Bool.or_eq_true, Option.any_eq_true] at hline
        obtain ⟨u, hu, hline⟩ := hline.resolve_left (by simp [hk])
        rw [Bool.and_eq_true, decide_eq_true_eq] at hline
        exact continues_foldedFrom h' hu hline.1 hline.2
      | cons c a => exact ih h' hlines.2 (List.cons.inj hsplit).2
    · by_cases hkeeps : keepsText b t
      · rw [foldedFrom_cons hkeeps] at hsplit
        obtain ⟨m, -, hm⟩ | ⟨m, htext, hm⟩ := List.append_eq_append_iff.1 hsplit
        · exact ih h' hlines.2 hm
        · cases m with
          | nil => exact ih (a := []) h' hlines.2 hm.symm
          | cons c m =>
            obtain ⟨rfl, -⟩ := List.cons.inj hm
            have hmem : t ∈ scan raw := by
              rw [h]
              simp
            refine absurd ?_ (newline_not_mem_text hmem hk)
            rw [htext]
            simp
      · obtain ⟨rfl, hblank⟩ : b = true ∧ t.kind = .blank := by simpa [keepsText, hk] using hkeeps
        rw [foldedFrom_blank hblank] at hsplit
        exact ih h' hlines.2 hsplit

/-! ### Payloads -/

/-- The tags of a comment, by name and payload. -/
def payloads (ts : List Token) : List (Text × Text) :=
  (spans ts).filterMap fun s => (tag? (s.tokens ts)).map fun tag => (tag.1, folded tag.2)

/-- The payload of a tag is folded. -/
lemma isFolded_of_tag? {s : Span} (hs : s ∈ spans (scan raw)) {name : Text} {payload : List Token}
    (htag : tag? (s.tokens (scan raw)) = some (name, payload)) : IsFolded (folded payload) := by
  obtain ⟨us, body, vs, hscan, hsolid, -, hbody⟩ := exists_of_mem_spans hs
  obtain ⟨marker, u, gap, hsplit, -, -, -, hhead⟩ := exists_of_tag? htag
  rw [hbody] at hsplit
  have hmem : ∀ t ∈ payload, t ∈ scan raw := fun t => mem_of_tag? htag
  constructor
  · intro c hc
    cases payload with
    | nil => cases hc
    | cons t payload =>
      rw [folded_eq_foldedFrom] at hc
      by_cases hk : t.kind = .lineBreak
      · rw [foldedFrom_lineBreak false hk] at hc
        obtain rfl := Option.some.inj hc
        rfl
      · have hsep : t.isSeparator = false := by simp [isSeparator, hk, hhead t rfl]
        have ht := hmem t List.mem_cons_self
        rw [foldedFrom_cons (by simp [keepsText, hk]),
          List.head?_append_of_ne_nil _ (text_ne_nil_of_mem_scan t ht)] at hc
        exact isBlank_of_mem_scan ht hsep c (List.mem_of_mem_head? hc)
  · intro c hc
    rcases List.eq_nil_or_concat' payload with rfl | ⟨payload, t, rfl⟩
    · cases hc
    obtain ⟨init, last, hlast, hcontent⟩ := hsolid.exists_append
    obtain rfl : t = last := by
      have := congrArg List.getLast? (hsplit.symm.trans hlast)
      simpa [List.getLast?_cons] using this
    have ht := hmem t (by simp)
    rw [folded_concat (keepsText_of_isContent _ hcontent),
      List.getLast?_append_of_ne_nil _ (text_ne_nil_of_mem_scan t ht)] at hc
    have hc' := List.mem_of_getLast? hc
    refine ⟨isBlank_of_mem_scan ht (isSeparator_eq_false_of_isContent hcontent) c hc', ?_⟩
    rintro rfl
    exact newline_not_mem_text ht (isContent_iff.1 hcontent).1 hc'
  · have hlines : goesOn payload := by
      have hbody' := hsolid.goesOn
      rw [hsplit, ← List.cons_append, ← List.cons_append] at hbody'
      exact goesOn_of_append hbody'
    have hscan' : scan raw = us ++ marker :: u :: gap ++ (payload ++ vs) := by
      rw [hscan, hsplit]
      simp
    intro line hline
    have hcontinues := continues_of_mem_tail
      (fun a w => continues_of_foldedFrom (b := false) hscan' hlines) line hline
    obtain ⟨⟨c, hc, hblank, -⟩, htag⟩ := continues_iff.1 hcontinues
    refine ⟨?_, ?_, htag⟩
    · rintro rfl
      cases hc
    · intro d hd
      obtain rfl : c = d := Option.some.inj (hc.symm.trans hd)
      exact hblank

lemma isFolded_of_mem_payloads {p : Text × Text} (hp : p ∈ payloads (scan raw)) : IsFolded p.2 := by
  obtain ⟨s, hs, hmap⟩ := List.mem_filterMap.1 hp
  obtain ⟨⟨name, payload⟩, htag, rfl⟩ := Option.map_eq_some_iff.1 hmap
  exact isFolded_of_tag? hs htag

end Token

/-! ### What depends on the rules -/

/-- The name and the payload of a tag that keeps its payload as it is. -/
def Node.Content.generic? : Node.Content → Option (Text × Text)
  | .tag name (.generic payload) => some (name, payload)
  | _ => none

namespace Tree

lemma readNode_congr {rules rules' : Rules} {body : List Token}
    (h : ∀ name payload, tag? body = some (name, payload) →
      rules.resolve name (folded payload) = rules'.resolve name (folded payload))
    (t : Tree) (i : Nat) :
    readNode rules t (body.zipIdx i) = readNode rules' t (body.zipIdx i) := by
  cases htag : tag? body with
  | none => rw [readNode_of_tag?_eq_none htag, readNode_of_tag?_eq_none htag]
  | some tag =>
    obtain ⟨front, -, hread⟩ := readNode_of_tag? htag
    rw [hread, hread, readPayload, readPayload, h tag.1 tag.2 htag]

/-- A tree depends only on what the rules make of its payloads. -/
lemma ofTokens_congr {rules rules' : Rules} {ts : List Token}
    (h : ∀ p ∈ payloads ts, rules.resolve p.1 p.2 = rules'.resolve p.1 p.2) :
    ofTokens rules ts = ofTokens rules' ts := by
  have hspan : ∀ s ∈ spans ts, ∀ t, readSpan rules (indexed ts) t s =
      readSpan rules' (indexed ts) t s := by
    intro s hs t
    have hread : readNode rules t ((s.tokens ts).zipIdx s.start) =
        readNode rules' t ((s.tokens ts).zipIdx s.start) :=
      readNode_congr (fun name payload htag =>
        h (name, folded payload) (List.mem_filterMap.2 ⟨s, hs, by rw [htag]; rfl⟩)) t s.start
    rw [readSpan_eq, readSpan_eq, hread]
  have hfold : ∀ l : List Span, (∀ s ∈ l, s ∈ spans ts) → ∀ t,
      l.foldl (readSpan rules (indexed ts)) t = l.foldl (readSpan rules' (indexed ts)) t := by
    intro l
    induction l with
    | nil => exact fun _ _ => rfl
    | cons s l ih =>
      intro hl t
      obtain ⟨hs, hl⟩ := List.forall_mem_cons.1 hl
      rw [List.foldl_cons, List.foldl_cons, hspan s hs, ih hl]
  rw [ofTokens, ofTokens, hfold (spans ts) (fun _ hs => hs)]

/-- What the rules get are folded payloads, in the order of the tags, and nothing else about the
rules matters to the tree. -/
theorem ofTokens_payloads (raw : Text) :
    let ts := scan raw
    (∀ p ∈ payloads ts, IsFolded p.2) ∧
    (∀ types, (ofTokens (.empty types) ts).top.filterMap
      (fun id => ((ofTokens (.empty types) ts).content? id).bind Node.Content.generic?) =
        payloads ts) ∧
    ∀ rules rules' : Rules,
      (∀ p ∈ payloads ts, rules.resolve p.1 p.2 = rules'.resolve p.1 p.2) →
        ofTokens rules ts = ofTokens rules' ts := by
  intro ts
  refine ⟨fun p => isFolded_of_mem_payloads, fun types => ?_, fun rules rules' => ofTokens_congr⟩
  have hcontents := (unedited_ofTokens (.empty types) ts).contents
  rw [contents] at hcontents
  calc (ofTokens (.empty types) ts).top.filterMap
        (fun id => ((ofTokens (.empty types) ts).content? id).bind Node.Content.generic?)
      = ((ofTokens (.empty types) ts).top.map (ofTokens (.empty types) ts).content?).filterMap
          (·.bind Node.Content.generic?) := by
        rw [List.filterMap_map]
        rfl
    _ = (spans ts).filterMap fun s =>
          (Node.Content.ofTokens (.empty types) (s.tokens ts)).generic? := by
        rw [hcontents, List.map_map, List.filterMap_map]
        rfl
    _ = payloads ts := by
        refine List.filterMap_congr fun s _ => ?_
        rw [Node.Content.ofTokens_eq]
        cases tag? (s.tokens ts) <;> rfl

/-- The first line follows the name of the tag, where a marker starts no tag. -/
theorem payloads_startsTag :
    payloads (scan "/** @see @foo */".toList) = [("see".toList, "@foo".toList)] ∧
    ¬ ∀ raw, ∀ p ∈ payloads (scan raw),
      (∀ c ∈ p.2.head?, isBlank c = false ∧ c ≠ '\n') ∧
      (∀ c ∈ p.2.getLast?, isBlank c = false ∧ c ≠ '\n') ∧
      (p.2 ≠ [] → ∀ line ∈ splitOn '\n' p.2,
        line ≠ [] ∧ (∀ c ∈ line.head?, isBlank c = false) ∧ startsTag line = false) := by
  have hpayloads : payloads (scan "/** @see @foo */".toList) = [("see".toList, "@foo".toList)] := by
    decide +kernel
  refine ⟨hpayloads, fun h => ?_⟩
  obtain ⟨-, -, hlines⟩ := h _ _ (hpayloads ▸ List.mem_singleton_self _)
  obtain ⟨-, -, htag⟩ := hlines (by decide) "@foo".toList (by decide)
  revert htag
  decide

end Tree

end DocComment
