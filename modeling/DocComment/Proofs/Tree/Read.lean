import DocComment.Proofs.Tree.Forest
import DocComment.Tree.Reader

/-!
# What is read from the tokens of a node

A node says what its tokens say, wherever they stand in the comment (`Node.Content.ofTokens`). The
tree of a comment has one top node for every span, in order (`Tree.unedited_ofTokens`): the nodes
know their spans, say what the tokens of the spans say, and are not marked as new or changed.
-/

namespace DocComment

/-! ### The content of tokens -/

namespace Token

/-- A token without the place where it stands. -/
def lexeme (t : Token) : Kind × Text := (t.kind, t.text)

/-- The folded text of tokens. -/
def folded (ts : List Token) : Text := (foldLines false (indexed ts)).flatMap (·.1)

end Token

/-- The places of the tokens that a payload consists of, in the folded payload. -/
def Placed.ofTokens (ts : List Token) : List Placed :=
  Placed.ofPieces 0 (foldLines false (Token.indexed ts))

namespace Node.Content

/-- What a tag says that has this name and these tokens as its payload. -/
def ofPayload (rules : Rules) (name : Text) (payload : List Token) : Node.Content :=
  match rules.resolve name (Token.folded payload) with
  | .value v => .tag name v
  | .method m =>
    if m.params.all fun f => (Placed.span? (Placed.ofTokens payload) f.start f.stop).isSome
    then (Reading.method m).content name
    else .tag name (.generic (Token.folded payload))

/-- What the node says that these tokens form. -/
def ofTokens (rules : Rules) : List Token → Node.Content
  | marker :: name :: payload =>
    if marker.kind = .marker then ofPayload rules name.text (payload.dropWhile (·.kind = .blank))
    else .prose (Token.folded (marker :: name :: payload))
  | ts => .prose (Token.folded ts)

end Node.Content

/-! ### Indexes do not matter -/

/-- The piece of a token whose index is counted from `i`. -/
def Placed.shiftPiece (i : Nat) (p : Text × Option Nat) : Text × Option Nat :=
  (p.1, p.2.map (i + ·))

lemma foldLines_zipIdx (b : Bool) (ts : List Token) (i : Nat) :
    foldLines b (ts.zipIdx i) = (foldLines b (ts.zipIdx 0)).map (Placed.shiftPiece i) := by
  suffices h : ∀ j, foldLines b (ts.zipIdx (i + j))
      = (foldLines b (ts.zipIdx j)).map (Placed.shiftPiece i) from h 0
  induction ts generalizing b with
  | nil => simp [foldLines]
  | cons t ts ih =>
    intro j
    simp only [List.zipIdx_cons, foldLines, Nat.add_assoc]
    cases t.kind <;> cases b <;> simp [ih, Placed.shiftPiece]

lemma flatMap_foldLines_zipIdx (b : Bool) (ts : List Token) (i : Nat) :
    (foldLines b (ts.zipIdx i)).flatMap (·.1) = (foldLines b (ts.zipIdx 0)).flatMap (·.1) := by
  rw [foldLines_zipIdx, List.flatMap_map]
  rfl

lemma Placed.ofPieces_shift (i start : Nat) (ps : List (Text × Option Nat)) :
    ofPieces start (ps.map (shiftPiece i))
      = (ofPieces start ps).map fun p => { p with index := i + p.index } := by
  induction ps generalizing start with
  | nil => rfl
  | cons p ps ih => rcases p with ⟨text, _ | j⟩ <;> simp [ofPieces, shiftPiece, ih]

/-- Spans are counted from where the tokens stand. -/
lemma Placed.span?_map_index (i : Nat) (ps : List Placed) (start stop : Nat) :
    span? (ps.map fun p => { p with index := i + p.index }) start stop =
      (span? ps start stop).map fun s => ⟨i + s.start, i + s.stop⟩ := by
  have hfilter : (ps.map fun p => { p with index := i + p.index : Placed }).filter
      (fun p => start ≤ p.start && p.stop ≤ stop)
      = (ps.filter fun p => start ≤ p.start && p.stop ≤ stop).map
        fun p => { p with index := i + p.index } := by
    rw [List.filter_map]
    rfl
  simp only [span?, hfilter, List.head?_map, List.getLast?_map]
  cases (ps.filter fun p => start ≤ p.start && p.stop ≤ stop).head? <;>
    cases (ps.filter fun p => start ≤ p.start && p.stop ≤ stop).getLast? <;> simp
  split_ifs <;> rfl

lemma mapM_eq_none_iff {α β : Type} (f : α → Option β) (as : List α) :
    as.mapM f = none ↔ ¬ as.all fun a => (f a).isSome := by
  induction as with
  | nil => simp
  | cons a as ih =>
    cases h : f a with
    | none => simp [h]
    | some b =>
      cases h' : as.mapM f with
      | none => simp [h, h', ih.1 h']
      | some bs =>
        have : as.all fun a => (f a).isSome := by
          by_contra hn
          rw [ih.2 hn] at h'
          cases h'
        simp [h, h', this]

lemma mapM_map {α β γ : Type} (f : α → Option β) (g : β → γ) (as : List α) :
    (as.mapM fun a => (f a).map g) = (as.mapM f).map (List.map g) := by
  induction as with
  | nil => rfl
  | cons a as ih =>
    rw [List.mapM_cons, List.mapM_cons, ih]
    cases f a <;> cases as.mapM f <;> rfl

lemma mapM_eq_some_iff {α β : Type} {f : α → Option β} {as : List α} {bs : List β} :
    as.mapM f = some bs ↔ as.map f = bs.map some := by
  induction as generalizing bs with
  | nil => cases bs <;> simp
  | cons a as ih =>
    rw [List.mapM_cons]
    cases hf : f a with
    | none => cases bs <;> simp [hf]
    | some b =>
      cases bs with
      | nil => cases as.mapM f <;> simp
      | cons b' bs =>
        rw [List.map_cons, List.map_cons, List.cons.injEq, ← ih, hf]
        cases as.mapM f <;> simp

/-! ### Reading one node -/

namespace Tree

/-- The second tree has one node more, which says `c`, and the fragments of that node. -/
structure Adds (t t' : Tree) (id : Nat) (c : Node.Content) : Prop where
  grows : t.Grows t'
  top : t'.top = t.top
  fresh : t.nodes.size ≤ id
  lt_size : id < t'.nodes.size
  content : t'.content? id = some c
  forest : t.Forest → t'.Forest
  node : ∃ n, t'.node? id = some n ∧ ∀ text, n ≠ .fragment text
  span? : ∀ id', id' < t.nodes.size ∨ t'.nodes.size ≤ id' →
    t'.attributes.span? id' = t.attributes.span? id'
  isChanged : ∀ id', t'.attributes.isChanged id' = t.attributes.isChanged id'
  isSynthesized : ∀ id', t'.attributes.isSynthesized id' = t.attributes.isSynthesized id'

lemma adds_make (t : Tree) {n : Node} (hn : n.fragments = []) (hne : ∀ text, n ≠ .fragment text) :
    Adds t (t.make n).1 (t.make n).2 (t.contentOf n) where
  grows := grows_make t n
  top := rfl
  fresh := Nat.le_refl _
  lt_size := by simp
  content := by
    simp only [content?, make_snd, node?_make, if_pos, Option.map_some]
    cases n with
    | container _ _ fragments _ => simp_all [contentOf, Node.fragments]
    | _ => rfl
  forest h := h.make (Free.of_fragments_eq_nil hn)
  node := ⟨n, by simp [node?_make], hne⟩
  span? _ _ := rfl
  isChanged _ := rfl
  isSynthesized _ := rfl

lemma makeFragments_ne_fragment (t : Tree) (name : Text) (r : Reading) (text : Text) :
    (t.makeFragments name r).2 ≠ .fragment text := by
  cases r <;> simp [makeFragments]

lemma adds_makeTag (t : Tree) (name : Text) (r : Reading) :
    Adds t (t.makeTag name r).1 (t.makeTag name r).2 (r.content name) where
  grows := grows_makeTag t name r
  top := top_makeTag t name r
  fresh := size_le_makeTag_snd t name r
  lt_size := by rw [size_makeTag]; exact Nat.lt_succ_self _
  content := content?_makeTag t name r
  forest h := h.makeTag name r
  node := ⟨_, node?_makeTag t name r, makeFragments_ne_fragment t name r⟩
  span? _ _ := by rw [attributes_makeTag]
  isChanged _ := by rw [attributes_makeTag]
  isSynthesized _ := by rw [attributes_makeTag]

/-- The new node may be replaced by one that has no fragments. -/
lemma Adds.replace {t t' : Tree} {id : Nat} {c : Node.Content} (h : Adds t t' id c) {n : Node}
    (hn : n.fragments = []) (hne : ∀ text, n ≠ .fragment text) :
    Adds t (t'.replace id n) id (t.contentOf n) where
  grows := h.grows.replace h.fresh n
  top := h.top
  fresh := h.fresh
  lt_size := by simpa using h.lt_size
  content := by
    simp only [content?, node?_replace_self n h.lt_size, Option.map_some]
    cases n with
    | container _ _ fragments _ => simp_all [contentOf, Node.fragments]
    | _ => rfl
  forest ht := (h.forest ht).replace (Free.of_fragments_eq_nil hn) hne h.node
  node := ⟨n, node?_replace_self n h.lt_size, hne⟩
  span? id' hid' := h.span? id' (by simpa using hid')
  isChanged := h.isChanged
  isSynthesized := h.isSynthesized

/-- Only the fragments of the new node may be given spans. -/
lemma Adds.setSpans {t t' : Tree} {id : Nat} {c : Node.Content} (h : Adds t t' id c)
    (spans : List Span)
    (hf : ∀ f : Nat, f ∈ t'.fragments id → t.nodes.size ≤ f ∧ f < t'.nodes.size) :
    Adds t
      { t' with
        attributes := ((t'.fragments id).zip spans).foldl
          (fun a (f, s) => a.setSpan f s) t'.attributes } id c := by
  obtain ⟨hs, hm, hc⟩ :=
    Attribute.Table.foldl_setSpan t'.attributes ((t'.fragments id).zip spans)
  refine ⟨⟨h.grows.size_le, h.grows.node?⟩, h.top, h.fresh, h.lt_size, h.content,
    fun ht => (h.forest ht).congr rfl (List.Subset.refl _), h.node, fun id' hid' => ?_,
    fun id' => (hc id').trans (h.isChanged id'), fun id' => (hm id').trans (h.isSynthesized id')⟩
  refine (hs id' fun hmem => ?_).trans (h.span? id' hid')
  obtain ⟨p, hp, rfl⟩ := List.mem_map.1 hmem
  obtain ⟨hle, hlt⟩ := hf p.1 (List.of_mem_zip hp).1
  rcases hid' with hid' | hid'
  · exact Nat.not_lt.2 hle hid'
  · exact Nat.not_lt.2 hid' hlt

/-- A tag is read from its name and the tokens after it. -/
lemma adds_readTag (rules : Rules) (t : Tree) (name : Text) (ts : List Token) (i : Nat) :
    Adds t (readTag rules t name (ts.zipIdx i)).1 (readTag rules t name (ts.zipIdx i)).2
      (Node.Content.ofPayload rules name (ts.dropWhile (·.kind = .blank))) := by
  obtain ⟨j, hj⟩ : ∃ j, (ts.zipIdx i).dropWhile (fun p => p.1.kind = .blank)
      = (ts.dropWhile (·.kind = .blank)).zipIdx j := by
    induction ts generalizing i with
    | nil => exact ⟨0, rfl⟩
    | cons t ts ih =>
      by_cases h : t.kind = .blank
      · simpa [List.zipIdx_cons, h] using ih (i + 1)
      · exact ⟨i, by simp [List.zipIdx_cons, h]⟩
  generalize hpayload : ts.dropWhile (·.kind = .blank) = payload at hj ⊢
  have htext : (foldLines false (payload.zipIdx j)).flatMap (·.1) = Token.folded payload :=
    flatMap_foldLines_zipIdx false payload j
  have hplaces : ∀ start stop,
      (Placed.span? (Placed.ofPieces 0 (foldLines false (payload.zipIdx j))) start stop).isSome
        = (Placed.span? (Placed.ofTokens payload) start stop).isSome := by
    intro start stop
    rw [foldLines_zipIdx, Placed.ofPieces_shift, Placed.span?_map_index, Option.isSome_map]
    rfl
  simp only [readTag, hj, htext, Node.Content.ofPayload]
  cases hr : rules.resolve name (Token.folded payload) with
  | value v => exact adds_makeTag t name (.value v)
  | method m =>
    have hadds := adds_makeTag t name (.method m)
    dsimp only
    split
    · -- A fragment without a place
      next hnone =>
      rw [mapM_eq_none_iff] at hnone
      simp only [hplaces] at hnone
      rw [if_neg hnone]
      exact hadds.replace rfl (by simp)
    · next spans hsome =>
      have hall : m.params.all fun f =>
          (Placed.span? (Placed.ofTokens payload) f.start f.stop).isSome := by
        by_contra hn
        simp only [← hplaces] at hn
        rw [(mapM_eq_none_iff _ _).2 hn] at hsome
        cases hsome
      rw [if_pos hall]
      refine hadds.setSpans spans fun f hf => ?_
      rw [fragments_makeTag, List.mem_range'_1] at hf
      omega

/-- Whatever stands before it, a node says what its tokens say. -/
lemma adds_readNode (rules : Rules) (t : Tree) (ts : List Token) (i : Nat) :
    Adds t (readNode rules t (ts.zipIdx i)).1 (readNode rules t (ts.zipIdx i)).2
      (Node.Content.ofTokens rules ts) := by
  have hprose : ∀ ts : List Token, Adds t
      (t.make (.prose ((foldLines false (ts.zipIdx i)).flatMap (·.1)))).1
      (t.make (.prose ((foldLines false (ts.zipIdx i)).flatMap (·.1)))).2
      (.prose (Token.folded ts)) := by
    intro ts
    rw [flatMap_foldLines_zipIdx]
    exact adds_make t rfl (by simp)
  match ts with
  | [] => exact hprose []
  | [u] => exact hprose [u]
  | u :: name :: payload =>
    simp only [List.zipIdx_cons, readNode, Node.Content.ofTokens]
    split_ifs
    · exact adds_readTag rules t name.text payload (i + 1 + 1)
    · exact hprose (u :: name :: payload)

/-! ### Reading all nodes -/

lemma tokens_indexed (s : Span) (ts : List Token) :
    s.tokens (Token.indexed ts) = (s.tokens ts).zipIdx s.start := by
  apply List.ext_getElem?
  intro i
  simp only [Span.tokens, Token.indexed, List.getElem?_take, List.getElem?_drop,
    List.getElem?_zipIdx]
  split_ifs <;> simp [Nat.add_comm]

/-- A tree that was read: its top nodes have these spans and say this, and nothing else has been
noted about its nodes. -/
structure Unedited (t : Tree) (spans : List Span) (cs : List Node.Content) : Prop where
  forest : t.Forest
  sorted : t.top.Pairwise (· < ·)
  spans : t.top.map t.attributes.span? = spans.map some
  contents : t.contents = cs.map some
  span?_eq_none : ∀ id : Nat, t.nodes.size ≤ id → t.attributes.span? id = none
  isChanged : ∀ id, t.attributes.isChanged id = false
  isSynthesized : ∀ id, t.attributes.isSynthesized id = false

lemma unedited_empty : Unedited {} [] [] where
  forest := Forest.empty
  sorted := List.Pairwise.nil
  spans := rfl
  contents := rfl
  span?_eq_none _ _ := rfl
  isChanged _ := rfl
  isSynthesized _ := rfl

/-- Reading a further span adds one node at the end. -/
lemma Unedited.readSpan {t : Tree} {spans : List Span} {cs : List Node.Content}
    (h : Unedited t spans cs) (rules : Rules) (ts : List Token) (s : Span) :
    Unedited (readSpan rules (Token.indexed ts) t s) (spans ++ [s])
      (cs ++ [Node.Content.ofTokens rules (s.tokens ts)]) := by
  have hadds := adds_readNode rules t (s.tokens ts) s.start
  rw [← tokens_indexed] at hadds
  obtain ⟨t', id, hread⟩ : ∃ t' id, readNode rules t (s.tokens (Token.indexed ts)) = (t', id) :=
    ⟨_, _, rfl⟩
  rw [hread] at hadds
  dsimp only at hadds
  obtain ⟨n, hn, hne⟩ := hadds.node
  have hlt : ∀ {i : Nat}, i ∈ t.top → i < t.nodes.size := h.forest.lt_size_of_mem_top
  have hstep : Tree.readSpan rules (Token.indexed ts) t s
      = { t' with attributes := t'.attributes.setSpan id s }.push id := by
    simp [Tree.readSpan, hread]
  rw [hstep]
  constructor
  · exact ((hadds.forest h.forest).push hn hne).congr rfl (List.Subset.refl _)
  · rw [top_push, hadds.top, List.pairwise_append]
    refine ⟨h.sorted, List.pairwise_singleton _ _, fun i hi j hj => ?_⟩
    rw [List.mem_singleton.1 hj]
    exact Nat.lt_of_lt_of_le (hlt hi) hadds.fresh
  · rw [top_push, hadds.top, List.map_append, List.map_append, ← h.spans]
    congr 1
    · apply List.map_congr_left
      intro i hi
      have hne : i ≠ id := Nat.ne_of_lt (Nat.lt_of_lt_of_le (hlt hi) hadds.fresh)
      rw [attributes_push, Attribute.Table.span?_setSpan_of_ne _ _ hne,
        hadds.span? i (.inl (hlt hi))]
    · simp
  · rw [Tree.contents, top_push, hadds.top, List.map_append, List.map_append, ← h.contents,
      Tree.contents]
    congr 1
    · apply List.map_congr_left
      intro i hi
      exact hadds.grows.content? (hlt hi) fun f hf => h.forest.lt_size_of_mem_fragments hf
    · exact congrArg (fun c => [c]) hadds.content
  · intro i hi
    rw [attributes_push, Attribute.Table.span?_setSpan_of_ne _ _ (by
      rintro rfl
      exact Nat.not_lt.2 hi hadds.lt_size), hadds.span? i (.inr hi)]
    exact h.span?_eq_none i (Nat.le_trans hadds.grows.size_le hi)
  · intro i
    simpa using (hadds.isChanged i).trans (h.isChanged i)
  · intro i
    simpa using (hadds.isSynthesized i).trans (h.isSynthesized i)

/-- The tree of a comment has one top node for every span, in order. -/
theorem unedited_ofTokens (rules : Rules) (ts : List Token) :
    Unedited (ofTokens rules ts) (Token.spans ts)
      ((Token.spans ts).map fun s => Node.Content.ofTokens rules (s.tokens ts)) := by
  have hfold : ∀ (spans : List Span) (t : Tree) (done : List Span) (cs : List Node.Content),
      Unedited t done cs →
      Unedited (spans.foldl (Tree.readSpan rules (Token.indexed ts)) t) (done ++ spans)
        (cs ++ spans.map fun s => Node.Content.ofTokens rules (s.tokens ts)) := by
    intro spans
    induction spans with
    | nil => simp
    | cons s spans ih =>
      intro t done cs h
      simpa using ih _ _ _ (h.readSpan rules ts s)
  have h := hfold (Token.spans ts) {} [] [] unedited_empty
  simp only [List.nil_append] at h
  rw [ofTokens]
  cases lastPosition? ts (Token.spans ts) with
  | none => exact h
  | some n =>
    refine ⟨h.forest.congr rfl (List.Subset.refl _), h.sorted, ?_, h.contents,
      by simpa using h.span?_eq_none, by simpa using h.isChanged, by simpa using h.isSynthesized⟩
    rw [← h.spans]
    exact List.map_congr_left fun id _ => Attribute.Table.span?_setLastTokenPosition _ id n

lemma lastTokenPosition?_readNode (rules : Rules) (t : Tree) (ts : List IndexedToken) :
    (readNode rules t ts).1.attributes.lastTokenPosition? = t.attributes.lastTokenPosition? := by
  have hspans : ∀ (ps : List (NodeId × Span)) (a : Attribute.Table),
      (ps.foldl (fun a (f, s) => a.setSpan f s) a).lastTokenPosition? = a.lastTokenPosition? := by
    intro ps
    induction ps with
    | nil => intro a; rfl
    | cons p ps ih => intro a; simp [ih]
  have htag : ∀ name payload, (readTag rules t name payload).1.attributes.lastTokenPosition?
      = t.attributes.lastTokenPosition? := by
    intro name payload
    simp only [readTag]
    split
    · simp
    · split
      · simp
      · simp [hspans]
  match ts with
  | [] | [_] => rfl
  | u :: name :: payload =>
    simp only [readNode]
    split_ifs
    · exact htag _ _
    · rfl

/-- The end of the last node that was read is noted if there is one. -/
lemma lastTokenPosition?_ofTokens (rules : Rules) (ts : List Token) :
    (ofTokens rules ts).attributes.lastTokenPosition? = lastPosition? ts (Token.spans ts) := by
  have hfold : ∀ (spans : List Span) (t : Tree),
      (spans.foldl (Tree.readSpan rules (Token.indexed ts)) t).attributes.lastTokenPosition?
        = t.attributes.lastTokenPosition? := by
    intro spans
    induction spans with
    | nil => intro t; rfl
    | cons s spans ih =>
      intro t
      rw [List.foldl_cons, ih]
      simp [Tree.readSpan, lastTokenPosition?_readNode]
  rw [ofTokens]
  cases h : lastPosition? ts (Token.spans ts) with
  | none => exact hfold (Token.spans ts) {}
  | some n => simp

end Tree

end DocComment
