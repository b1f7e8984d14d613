import DocComment.Proofs.Tree.Rewritten

/-!
# Nodes that go on with one more line

A line that is put behind a node, on a line of the comment that is neither empty nor starts a tag,
is read as part of the node (`Part.IsNode.exists_goesOn`). A paragraph gets the line at its end, and
a tag is read anew from its payload with the line behind it (`Node.Content.GoesOn`).
-/

namespace DocComment

open Text Token

/-! ### Tokens behind a line break -/

namespace Token

variable {ts us : List Token} {t u : Token}

lemma foldLexemes_lineBreak (b : Bool) (ts us : List Token) (hk : t.kind = .lineBreak) :
    foldLexemes b (ts ++ t :: us) =
      foldLexemes b ts ++ (.lineBreak, ['\n']) :: foldLexemes true us := by
  induction ts generalizing b with
  | nil => simp [foldLexemes, hk]
  | cons v ts ih =>
    rw [List.cons_append, foldLexemes, foldLexemes]
    cases hv : v.kind <;> cases b <;> simp [ih]

/-- A line break is a line feed in the folded text of the tokens around it. -/
lemma folded_lineBreak (ts : List Token) (hk : t.kind = .lineBreak)
    (hus : ∀ u ∈ us.head?, u.kind ≠ .blank) :
    folded (ts ++ t :: us) = folded ts ++ '\n' :: folded us := by
  rw [folded_eq_flatMap, foldLexemes_lineBreak false ts us hk, foldLexemes_of_head hus,
    folded_eq_flatMap, folded_eq_flatMap, List.flatMap_append]
  rfl

/-- Tokens of two nodes make up one if no node starts between them. -/
lemma Solid.append {gap : List Token} (h : Solid ts) (hgap : ∀ g ∈ gap, g.isSeparator)
    (hnot : startsNode gap u = false) (h' : Solid (u :: us)) : Solid (ts ++ (gap ++ u :: us)) := by
  induction h with
  | single ht => exact .cons ht hgap hnot h'
  | @cons t v gap' ts ht hgap' hnot' hrest ih =>
    rw [List.cons_append, List.append_assoc]
    exact .cons ht hgap' hnot' ih

end Token

/-! ### What a node says then -/

namespace Node.Content

/-- A tag of this name may say `c` if this is its payload: what the rules read, or the payload as it
is. -/
def IsOfPayload (rules : Rules) (name payload : Text) (c : Node.Content) : Prop :=
  c = (rules.resolve name payload).content name ∨ c = .tag name (.generic payload)

/-- What a node says once it goes on with this line. -/
inductive GoesOn (rules : Rules) (line : Text) : (c c' : Node.Content) → Prop where
  | prose (text : Text) : GoesOn rules line (.prose text) (.prose (text ++ '\n' :: line))
  | tag {name payload : Text} {c c' : Node.Content} (hc : IsOfPayload rules name payload c)
      (hc' : IsOfPayload rules name (payload ++ '\n' :: line) c') : GoesOn rules line c c'

end Node.Content

/-! ### Lines of prose -/

namespace Text

/-- A line that goes on with what stands in front of it, wherever its comment puts it. -/
structure IsProseLine (line : Text) : Prop where
  isLine : IsLine line
  continues : continues false line
  getLast? : ∀ c ∈ line.getLast?, isBlank c = false

namespace IsProseLine

variable {line ls : Text} (h : IsProseLine line)

include h

lemma head? : ∃ c ∈ line.head?, isBlank c = false ∧ c ≠ '\n' ∧ c ≠ '*' := by
  obtain ⟨⟨c, hc, hblank, hn, hstar⟩, -⟩ := continues_iff.1 h.continues
  exact ⟨c, hc, hblank, hn, hstar rfl⟩

lemma ne_nil : line ≠ [] := by
  rintro rfl
  obtain ⟨c, hc, -⟩ := h.head?
  cases hc

/-- One line has no start of a line in it. -/
lemma joinLines_eq (ls : Text) : joinLines ls line = line := by
  have hkeeps : keepsLines false line := keepsLines_of_not_mem h.isLine.not_mem_return
    h.isLine.not_mem_newline h.isLine.closes
  rw [Text.joinLines_eq ls hkeeps, reline_of_not_mem ls h.isLine.not_mem_newline]

lemma spells (i : Nat) : Spells line (scanFrom false i line) :=
  spells_line h.isLine.not_mem_newline h.isLine.closes i

lemma solid (i : Nat) : Solid (scanFrom false i line) := by
  refine (h.spells i).solid h.ne_nil (fun c hc => ?_) h.getLast?
  obtain ⟨d, hd, hblank, hn, -⟩ := h.head?
  obtain rfl : d = c := Option.some.inj ((Option.mem_def.1 hd).symm.trans hc)
  exact ⟨hblank, hn⟩

/-- Its first token is content, and no marker. -/
lemma exists_cons (i : Nat) :
    ∃ u us, scanFrom false i line = u :: us ∧ u.isContent ∧ u.kind ≠ .marker := by
  obtain ⟨u, hu, hcontent, hmarker⟩ := head_of_continues h.continues (fun c hc hr =>
    h.isLine.not_mem_return (hr ▸ List.mem_of_mem_head? hc)) h.isLine.closes i
  obtain ⟨us, hus⟩ := List.head?_eq_some_iff.1 hu
  exact ⟨u, us, hus, hcontent, hmarker⟩

/-- The start of a line in front of it is one line break. -/
lemma scanFrom_lineStart (hls : IsLineStart false ls) (i : Nat) (y : Text) :
    scanFrom false i (ls ++ (line ++ y)) =
      ⟨.lineBreak, ls, i⟩ :: scanFrom false (i + byteSize ls) (line ++ y) := by
  refine hls.scanFrom (fun c hc => ?_) i
  obtain ⟨d, hd, hblank, -, hstar⟩ := h.head?
  rw [List.head?_append_of_ne_nil _ h.ne_nil] at hc
  obtain rfl : d = c := Option.some.inj ((Option.mem_def.1 hd).symm.trans hc)
  exact ⟨hblank, fun _ => hstar⟩

end IsProseLine

end Text

/-! ### Nodes and lines behind them -/

namespace Part

variable {rules : Rules} {body ls line : Text} {c : Node.Content}

/-- A line of prose is a paragraph where no node stands in front of it. -/
lemma isNode_prose (rules : Rules) (h : IsProseLine line) : IsNode rules line (.prose line) where
  solid := h.solid
  content i := by
    obtain ⟨u, us, hus, -, hmarker⟩ := h.exists_cons i
    rw [Node.Content.ofTokens_of_kind_ne, (h.spells i).folded_eq]
    simpa [hus] using hmarker
  getLast? hlast := h.isLine.not_mem_return (List.mem_of_getLast? hlast)

/-- The start of a line stands in front of it as a separator. -/
lemma isGap_prose (hls : IsLineStart false ls) (h : IsProseLine line) :
    IsGap ls line fun _ => True := by
  intro i rest
  exact ⟨[⟨.lineBreak, ls, i⟩], by simp [isSeparator], trivial, h.scanFrom_lineStart hls i rest⟩

/-- What stands behind a node that goes on does not part it from what stands in front of it. -/
lemma Parts.goesOn {gap y : Text} {c' : Node.Content} (h : Parts ⟨gap, body, c⟩)
    (hhead : ∀ j, (scanFrom false j (body ++ y)).head? = (scanFrom false j body).head?) :
    Parts ⟨gap, body ++ y, c'⟩ where
  stops := h.stops
  gap j i rest := by
    obtain ⟨ts, hsep, hstarts, hscan⟩ := h.gap j i (y ++ rest)
    refine ⟨ts, hsep, ?_, ?_⟩
    · dsimp only
      rwa [hhead]
    · dsimp only
      rwa [List.append_assoc body]

section

variable (h : IsNode rules body c) (hls : IsLineStart false ls) (hline : IsProseLine line)

include h hls hline

/-- Behind the tokens of the node stand a line break and the tokens of the line. -/
lemma IsNode.scanFrom_goesOn (i : Nat) : ∃ t j, t.kind = .lineBreak ∧
    scanFrom false i (body ++ (ls ++ line)) =
      scanFrom false i body ++ t :: scanFrom false j line := by
  have hbreak := hline.scanFrom_lineStart hls (i + byteSize body) []
  rw [List.append_nil] at hbreak
  have hlast : ∀ t ∈ (scanFrom false i body).getLast?, t.isSeparator →
      startsBlank (ls ++ line) = false := by
    intro t ht hsep
    rw [(h.solid i).isSeparator_getLast t ht] at hsep
    cases hsep
  refine ⟨⟨.lineBreak, ls, i + byteSize body⟩, i + byteSize body + byteSize ls, rfl, ?_⟩
  rw [scanFrom_append (hls.stops_append line) i (fun hr => absurd hr h.getLast?) hlast h.ne_nil,
    hbreak]

/-- A line of prose behind a node makes up one node with it. -/
lemma IsNode.solid_goesOn (i : Nat) : Solid (scanFrom false i (body ++ (ls ++ line))) := by
  obtain ⟨t, j, hk, hscan⟩ := h.scanFrom_goesOn hls hline i
  obtain ⟨u, us, hus, -, hmarker⟩ := hline.exists_cons j
  have hsolid := hline.solid j
  rw [hus] at hsolid
  have hall : Solid (scanFrom false i body ++ ([t] ++ u :: us)) := by
    refine (h.solid i).append (fun g hg => ?_) ?_ hsolid
    · rw [List.mem_singleton.1 hg]
      exact isSeparator_iff.2 (.inl hk)
    · simp [startsNode, breaks, hk, hmarker]
  rw [hscan, hus]
  exact hall

end

section

variable (hline : IsProseLine line)

include hline

/-- The folded text of tokens gets the line behind them at its end. -/
lemma folded_goesOn (ts : List Token) {t : Token} (hk : t.kind = .lineBreak) (j : Nat) :
    folded (ts ++ t :: scanFrom false j line) = folded ts ++ '\n' :: line := by
  obtain ⟨u, us, hus, hcontent, -⟩ := hline.exists_cons j
  rw [folded_lineBreak ts hk, (hline.spells j).folded_eq]
  rw [hus]
  exact fun v hv => Option.some.inj hv ▸ (isContent_iff.1 hcontent).2.1

variable (h : IsNode rules body c) (hls : IsLineStart false ls)

include h hls

lemma IsNode.goesOn_prose (hkind : ∀ t ∈ (scanFrom false 0 body).head?, t.kind ≠ .marker) :
    Node.Content.GoesOn rules line c
      (Node.Content.ofTokens rules (scanFrom false 0 (body ++ (ls ++ line)))) := by
  obtain ⟨t, j, hk, hscan⟩ := h.scanFrom_goesOn hls hline 0
  obtain ⟨u, us, hus, -⟩ := (h.solid 0).exists_cons
  have hmarker : ∀ t ∈ (scanFrom false 0 (body ++ (ls ++ line))).head?, t.kind ≠ .marker := by
    rw [hscan, hus]
    rwa [hus] at hkind
  rw [← h.content 0, Node.Content.ofTokens_of_kind_ne rules hkind,
    Node.Content.ofTokens_of_kind_ne rules hmarker, hscan, folded_goesOn hline _ hk]
  exact .prose _

lemma IsNode.goesOn_tag {t : Token} (ht : t ∈ (scanFrom false 0 body).head?)
    (hkind : t.kind = .marker) : Node.Content.GoesOn rules line c
      (Node.Content.ofTokens rules (scanFrom false 0 (body ++ (ls ++ line)))) := by
  obtain ⟨name, gap, j, z, -, hpayload, hgap, hz⟩ := exists_scanFrom_tag ht hkind
  obtain ⟨b, k, hk, hscan⟩ := h.scanFrom_goesOn hls hline 0
  have hwhole : scanFrom false 0 (body ++ (ls ++ line)) =
      ⟨.marker, ['@'], 0⟩ :: ⟨.identifier, name, 0 + 1⟩ ::
        (gap ++ (scanFrom false j z ++ b :: scanFrom false k line)) := by
    rw [hscan, hpayload]
    simp
  have hhead : ∀ u ∈ (scanFrom false j z ++ b :: scanFrom false k line).head?, u.kind ≠ .blank := by
    have hblank : ∀ u ∈ (scanFrom false j z).head?, u.kind ≠ .blank :=
      fun u hu => kind_ne_blank_of_head hz hu
    revert hblank
    cases scanFrom false j z with
    | nil => simp [hk]
    | cons v vs => exact fun hblank => hblank
  have hc : Node.Content.IsOfPayload rules name (folded (scanFrom false j z)) c := by
    rw [← h.content 0, hpayload, Node.Content.ofTokens_tag rules _ _ name hgap hz]
    exact Node.Content.ofPayload_cases rules name _
  refine .tag hc ?_
  rw [hwhole, Node.Content.ofTokens, if_pos rfl, dropWhile_blank hgap hhead,
    ← folded_goesOn hline _ hk]
  exact Node.Content.ofPayload_cases rules name _

/-- A line of prose behind a node is read as part of it. -/
theorem IsNode.exists_goesOn : ∃ c', Node.Content.GoesOn rules line c c' ∧
    IsNode rules (body ++ (ls ++ line)) c' := by
  refine ⟨Node.Content.ofTokens rules (scanFrom false 0 (body ++ (ls ++ line))), ?_, ?_⟩
  · by_cases hkind : ∀ t ∈ (scanFrom false 0 body).head?, t.kind ≠ .marker
    · exact h.goesOn_prose hline hls hkind
    · push Not at hkind
      obtain ⟨t, ht, hkind⟩ := hkind
      exact h.goesOn_tag hline hls ht hkind
  · constructor
    · exact h.solid_goesOn hls hline
    · exact fun i => Node.Content.ofTokens_congr rules (map_lexeme_scanFrom false i 0 _)
    · rw [← List.append_assoc, List.getLast?_append_of_ne_nil _ hline.ne_nil]
      exact (isNode_prose rules hline).getLast?

end

end Part

end DocComment
