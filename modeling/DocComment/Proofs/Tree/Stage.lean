import DocComment.Proofs.Tree.Aligned
import DocComment.Proofs.Tree.Segments

/-!
# Where nodes are made

Reading goes span by span. What is read at one of them stays as it is while the later ones are read
(`Tree.Extends`), so each node is looked at in the tree in which it is made (`Tree.exists_stage`):
there nothing is noted about the nodes to come, and none of them has an old one below it
(`Tree.Apart`).

The payload of a tag is read from its own tokens, whatever their indexes are (`Tree.readPayload`).
-/

namespace DocComment

open Text Token

/-! ### The tags among the nodes -/

/-- The name of the tag that the tokens of a node form, and the tokens of its payload. -/
def Token.tag? : List Token → Option (Text × List Token)
  | marker :: name :: payload =>
    if marker.kind = .marker then some (name.text, payload.dropWhile (·.kind = .blank)) else none
  | _ => none

lemma Node.Content.ofTokens_eq (rules : Rules) (body : List Token) :
    Node.Content.ofTokens rules body = (tag? body).elim (.prose (folded body))
      fun tag => Node.Content.ofPayload rules tag.1 tag.2 := by
  match body with
  | [] | [_] => rfl
  | u :: name :: payload =>
    rw [Node.Content.ofTokens, tag?]
    split_ifs <;> rfl

/-- The tokens of a payload end those of the node, and do not start with a blank. -/
lemma Token.exists_of_tag? {body payload : List Token} {name : Text}
    (h : tag? body = some (name, payload)) :
    ∃ marker u gap, body = marker :: u :: (gap ++ payload) ∧
      marker.kind = .marker ∧ u.text = name ∧ (∀ g ∈ gap, g.kind = .blank) ∧
      ∀ t ∈ payload.head?, t.kind ≠ .blank := by
  match body with
  | [] | [_] => cases h
  | marker :: u :: rest =>
    rw [tag?] at h
    split_ifs at h with hk
    obtain ⟨rfl, rfl⟩ := Prod.mk.inj (Option.some.inj h)
    refine ⟨marker, u, rest.takeWhile (·.kind = .blank), ?_, hk, rfl, fun g hg => ?_,
      fun t ht => ?_⟩
    · rw [List.takeWhile_append_dropWhile]
    · simpa using List.mem_takeWhile_imp hg
    · have := List.head?_dropWhile_not (fun u : Token => decide (u.kind = .blank)) rest
      rw [Option.mem_def.1 ht] at this
      simpa using this

lemma Token.mem_of_tag? {ts payload : List Token} {s : Span} {name : Text}
    (h : tag? (s.tokens ts) = some (name, payload)) {t : Token} (ht : t ∈ payload) : t ∈ ts := by
  obtain ⟨marker, u, gap, hbody, -⟩ := exists_of_tag? h
  have hmem : t ∈ s.tokens ts := by
    rw [hbody]
    simp [ht]
  exact List.mem_of_mem_drop (List.mem_of_mem_take hmem)

namespace Tree

/-! ### The nodes that are made for a tag -/

section

variable (t : Tree) (name : Text) (m : MethodPayload)

lemma makeTag_method_snd : (t.makeTag name (.method m)).2 = t.nodes.size + m.params.length := by
  simp [makeTag_snd, makeFragments]

lemma fragments_makeTag_method : (t.makeTag name (.method m)).1.fragments
    (t.nodes.size + m.params.length) = List.range' t.nodes.size m.params.length := by
  rw [← makeTag_method_snd t name m, fragments_of_node? (node?_makeTag t name _)]
  rfl

/-- The fragments of a tag get the numbers in front of its own. -/
lemma map_node?_makeTag : (List.range' t.nodes.size m.params.length).map
    (t.makeTag name (.method m)).1.node? = m.params.map fun f => some (.fragment f.text) := by
  apply List.ext_getElem
  · simp
  · intro i hi _
    have hlt : i < m.params.length := by simpa using hi
    have hsize : t.nodes.size + i < (t.makeFragments name (.method m)).1.nodes.size := by
      simpa [makeFragments] using hlt
    simp only [List.getElem_map, List.getElem_range', Nat.one_mul]
    rw [makeTag_eq, (grows_make _ _).node? _ hsize]
    simp [makeFragments, node?, hlt]

end

/-- The tree with a tag that has this name and these tokens from index `i` on as its payload. -/
def readPayload (rules : Rules) (t : Tree) (name : Text) (payload : List Token) (i : Nat) :
    Tree × NodeId :=
  match rules.resolve name (folded payload) with
  | .value v => t.makeTag name (.value v)
  | .method m =>
    let (made, id) := t.makeTag name (.method m)
    match m.params.mapM fun f => Placed.span? (Placed.ofTokens payload) f.start f.stop with
    | none => (made.replace id (.tag name (.generic (folded payload))), id)
    | some spans =>
      let shifted := spans.map fun s => (⟨i + s.start, i + s.stop⟩ : Span)
      let attributes := ((made.fragments id).zip shifted).foldl
        (fun a (fragment, span) => a.setSpan fragment span) made.attributes
      ({ made with attributes }, id)

lemma readTag_zipIdx {payload : List Token} (hhead : ∀ t ∈ payload.head?, t.kind ≠ .blank)
    (rules : Rules) (t : Tree) (name : Text) (i : Nat) :
    readTag rules t name (payload.zipIdx i) = readPayload rules t name payload i := by
  have hdrop : (payload.zipIdx i).dropWhile (·.1.kind = .blank) = payload.zipIdx i := by
    cases payload with
    | nil => rfl
    | cons u us =>
      rw [List.zipIdx_cons, List.dropWhile_cons_of_neg (by simpa using hhead u rfl)]
  have hspan : ∀ start stop, Placed.span? (Placed.ofPieces 0 (foldLines false (payload.zipIdx i)))
      start stop = (Placed.span? (Placed.ofTokens payload) start stop).map
        fun s => ⟨i + s.start, i + s.stop⟩ := by
    intro start stop
    rw [foldLines_zipIdx, Placed.ofPieces_shift, Placed.span?_map_index]
    rfl
  have htext : (foldLines false (payload.zipIdx i)).flatMap (·.1) = folded payload :=
    flatMap_foldLines_zipIdx false payload i
  simp only [readTag, readPayload, hdrop, htext, hspan, mapM_map]
  cases hr : rules.resolve name (folded payload) with
  | value v => rfl
  | method m =>
    dsimp only
    cases m.params.mapM fun f => Placed.span? (Placed.ofTokens payload) f.start f.stop <;> rfl

lemma readNode_of_tag? {body payload : List Token} {name : Text}
    (h : tag? body = some (name, payload)) : ∃ front, body = front ++ payload ∧
      ∀ rules t i, readNode rules t (body.zipIdx i) =
        readPayload rules t name payload (i + front.length) := by
  obtain ⟨marker, u, gap, rfl, hk, rfl, hgap, hhead⟩ := exists_of_tag? h
  refine ⟨marker :: u :: gap, rfl, fun rules t i => ?_⟩
  have hdrop : ((gap ++ payload).zipIdx (i + 1 + 1)).dropWhile (·.1.kind = .blank) =
      (payload.zipIdx (i + (marker :: u :: gap).length)).dropWhile (·.1.kind = .blank) := by
    have hlen : i + 1 + 1 + gap.length = i + (marker :: u :: gap).length := by
      simp only [List.length_cons]
      omega
    rw [List.zipIdx_append, List.dropWhile_append_of_pos, hlen]
    intro p hp
    simpa using hgap p.1 (List.fst_mem_of_mem_zipIdx hp)
  rw [← readTag_zipIdx hhead, List.zipIdx_cons, List.zipIdx_cons, readNode, if_pos hk, readTag,
    readTag, hdrop]

lemma readNode_of_tag?_eq_none {body : List Token} (h : tag? body = none) (rules : Rules) (t : Tree)
    (i : Nat) : readNode rules t (body.zipIdx i) = t.make (.prose (folded body)) := by
  have hfolded : folded body = (foldLines false (body.zipIdx i)).flatMap (·.1) :=
    (flatMap_foldLines_zipIdx false body i).symm
  rw [hfolded]
  rcases body with - | ⟨u, - | ⟨v, rest⟩⟩
  · rfl
  · rfl
  · have hk : u.kind ≠ .marker := fun hk => by simp [tag?, hk] at h
    rw [List.zipIdx_cons, List.zipIdx_cons, readNode, if_neg hk]

/-! ### What later nodes leave as it is -/

/-- Nothing is noted about nodes that are not made yet. -/
def Fresh (t : Tree) : Prop :=
  ∀ id : Nat, t.nodes.size ≤ id → ∀ key, t.attributes.get? (.node id) key = none

/-- The second tree has further nodes, of which none has an old one below it, and knows the same
about the old ones. -/
structure Extends (t t' : Tree) : Prop where
  grows : t.Grows t'
  top : ∀ id : Nat, id ∈ t'.top → id ∈ t.top ∨ t.nodes.size ≤ id
  fragments : ∀ id : Nat, t.nodes.size ≤ id → ∀ f ∈ t'.fragments id, t.nodes.size ≤ f
  get? : ∀ id : Nat, id < t.nodes.size → ∀ key,
    t'.attributes.get? (.node id) key = t.attributes.get? (.node id) key

namespace Extends

variable {t t' t'' : Tree}

protected lemma refl (t : Tree) : Extends t t where
  grows := Grows.refl t
  top _ := .inl
  fragments id hid f hf := by
    rw [fragments_eq_nil_of_size_le hid] at hf
    cases hf
  get? _ _ _ := rfl

protected lemma trans (h : Extends t t') (h' : Extends t' t'') : Extends t t'' where
  grows := h.grows.trans h'.grows
  top id hid := by
    rcases h'.top id hid with hid | hid
    · exact h.top id hid
    · exact .inr (h.grows.size_le.trans hid)
  fragments id hid f hf := by
    rcases Nat.lt_or_ge id t'.nodes.size with hlt | hge
    · rw [h'.grows.fragments hlt] at hf
      exact h.fragments id hid f hf
    · exact h.grows.size_le.trans (h'.fragments id hge f hf)
  get? id hid key :=
    (h'.get? id (hid.trans_le h.grows.size_le) key).trans (h.get? id hid key)

lemma span? (h : Extends t t') {id : Nat} (hid : id < t.nodes.size) :
    t'.attributes.span? id = t.attributes.span? id := by
  rw [Attribute.Table.span?, Attribute.Table.span?, h.get? id hid]

/-- A node that is not in the comment when it is made stays out of it. -/
lemma contains_eq_false (h : Extends t t') (ht : t.Forest) {id : Nat} (hid : id < t.nodes.size)
    (hnot : t.contains id = false) : t'.contains id = false := by
  simp only [contains, List.any_eq_false, Bool.or_eq_true, decide_eq_true_eq, not_or] at hnot ⊢
  intro top htop
  rcases h.top top htop with hold | hnew
  · rw [h.grows.fragments (ht.lt_size_of_mem_top hold)]
    exact hnot top hold
  · refine ⟨fun heq => ?_, fun hmem => ?_⟩
    · exact Nat.not_lt.2 hnew (heq ▸ hid)
    · exact Nat.not_lt.2 (h.fragments top hnew id hmem) hid

end Extends

/-! ### What one node adds -/

/-- The nodes that the second tree has more have no old ones below them, and nothing is noted about
the old ones and those that are not made yet. -/
structure Apart (t t' : Tree) : Prop where
  fragments : ∀ id : Nat, t.nodes.size ≤ id → ∀ f ∈ t'.fragments id, t.nodes.size ≤ f
  get? : ∀ id : Nat, id < t.nodes.size ∨ t'.nodes.size ≤ id → ∀ key,
    t'.attributes.get? (.node id) key = t.attributes.get? (.node id) key

namespace Apart

variable {t t' : Tree}

lemma make (t : Tree) {n : Node} (hn : n.fragments = []) : Apart t (t.make n).1 where
  fragments id hid f hf := by
    rw [fragments_make] at hf
    split_ifs at hf
    · rw [hn] at hf
      cases hf
    · rw [fragments_eq_nil_of_size_le hid] at hf
      cases hf
  get? _ _ _ := rfl

lemma makeTag (t : Tree) (name : Text) (r : Reading) : Apart t (t.makeTag name r).1 where
  fragments id hid f hf := by
    rcases Nat.lt_trichotomy id (t.makeTag name r).2 with hlt | rfl | hgt
    · have hmem : id ∈ (t.makeFragments name r).2.fragments := by
        rw [fragments_makeFragments, List.mem_range'_1]
        rw [makeTag_snd] at hlt
        omega
      obtain ⟨text, hnode⟩ := node?_of_mem_fragments_makeFragments hmem
      rw [makeTag_eq, fragments_of_node? ((grows_make _ _).node?_of_some hnode)] at hf
      cases hf
    · rw [fragments_makeTag, List.mem_range'_1] at hf
      exact hf.1
    · rw [fragments_eq_nil_of_size_le (by rw [size_makeTag]; exact hgt)] at hf
      cases hf
  get? _ _ _ := by rw [attributes_makeTag]

lemma replace (h : Apart t t') {id : Nat} (hid : id < t'.nodes.size) {n : Node}
    (hn : n.fragments = []) : Apart t (t'.replace id n) where
  fragments id' hid' f hf := by
    rw [fragments_replace n hid] at hf
    split_ifs at hf
    · rw [hn] at hf
      cases hf
    · exact h.fragments id' hid' f hf
  get? id' hid' key := h.get? id' (by simpa using hid') key

lemma setSpans (h : Apart t t') {ps : List (NodeId × Span)}
    (hps : ∀ p ∈ ps, t.nodes.size ≤ (p.1 : Nat) ∧ (p.1 : Nat) < t'.nodes.size) :
    Apart t { t' with attributes := ps.foldl (fun a (f, s) => a.setSpan f s) t'.attributes } where
  fragments := h.fragments
  get? id hid key := by
    refine (Attribute.Table.get?_foldl_setSpan _ (fun hmem => ?_) key).trans (h.get? id hid key)
    obtain ⟨p, hp, rfl⟩ := List.mem_map.1 hmem
    obtain ⟨hle, hlt⟩ := hps p hp
    rcases hid with hid | hid
    · exact Nat.not_lt.2 hle hid
    · exact Nat.not_lt.2 hid hlt

lemma readPayload (rules : Rules) (t : Tree) (name : Text) (payload : List Token) (i : Nat) :
    Apart t (readPayload rules t name payload i).1 := by
  have htag := makeTag t name
  unfold Tree.readPayload
  split
  · next v hr => exact htag (.value v)
  · next m hr =>
    dsimp only
    split
    · exact (htag _).replace (by rw [size_makeTag]; exact Nat.lt_succ_self _) rfl
    · next spans hspans =>
      refine (htag _).setSpans fun p hp => ?_
      have hmem := (List.of_mem_zip hp).1
      rw [makeTag_method_snd, fragments_makeTag_method, List.mem_range'_1] at hmem
      rw [size_makeTag, makeTag_method_snd]
      exact ⟨hmem.1, Nat.lt_succ_of_lt hmem.2⟩

lemma readNode (rules : Rules) (t : Tree) (body : List Token) (i : Nat) :
    Apart t (readNode rules t (body.zipIdx i)).1 := by
  cases htag : tag? body with
  | none =>
    rw [readNode_of_tag?_eq_none htag]
    exact make t rfl
  | some tag =>
    obtain ⟨front, -, hread⟩ := readNode_of_tag? htag
    rw [hread]
    exact readPayload rules t _ _ _

end Apart

/-! ### Stages -/

section

variable (rules : Rules) (ts : List Token) (t : Tree) (s : Span)

/-- The node of a span is the last one of its tree. -/
lemma readSpan_eq : readSpan rules (indexed ts) t s =
    let (made, id) := readNode rules t ((s.tokens ts).zipIdx s.start)
    { made with attributes := made.attributes.setSpan id s }.push id := by
  rw [readSpan, tokens_indexed]

lemma extends_readSpan : Extends t (readSpan rules (indexed ts) t s) := by
  have hadds := adds_readNode rules t (s.tokens ts) s.start
  have hapart := Apart.readNode rules t (s.tokens ts) s.start
  rw [readSpan_eq]
  refine ⟨⟨hadds.grows.size_le, hadds.grows.node?⟩, fun id hid => ?_, hapart.fragments,
    fun id hid key => ?_⟩
  · rw [top_push, List.mem_append, List.mem_singleton] at hid
    rcases hid with hid | rfl
    · exact .inl (hadds.top ▸ hid)
    · exact .inr hadds.fresh
  · rw [attributes_push, Attribute.Table.get?_setSpan_of_ne _ _ (hid.trans_le hadds.fresh).ne]
    exact hapart.get? id (.inl hid) key

lemma fresh_readSpan (h : t.Fresh) : (readSpan rules (indexed ts) t s).Fresh := by
  have hadds := adds_readNode rules t (s.tokens ts) s.start
  have hapart := Apart.readNode rules t (s.tokens ts) s.start
  rw [readSpan_eq]
  intro id hid key
  rw [nodes_push] at hid
  rw [attributes_push, Attribute.Table.get?_setSpan_of_ne _ _ (hadds.lt_size.trans_le hid).ne']
  exact (hapart.get? id (.inr hid) key).trans (h id (hadds.grows.size_le.trans hid) key)

end

lemma forest_readSpan (rules : Rules) (ts : List Token) {t : Tree} (h : t.Forest) (s : Span) :
    (readSpan rules (indexed ts) t s).Forest := by
  have hadds := adds_readNode rules t (s.tokens ts) s.start
  obtain ⟨n, hn, hne⟩ := hadds.node
  rw [readSpan_eq]
  exact ((hadds.forest h).push hn hne).congr rfl (List.Subset.refl _)

/-- A tree `t`, in which a node is made for the span `s`, and a tree `t'` that only extends the one
with that node. -/
structure Stage (rules : Rules) (ts : List Token) (t made t' : Tree) (s : Span) (id : NodeId) :
    Prop where
  forest : t.Forest
  fresh : t.Fresh
  mem : s ∈ spans ts
  read : readNode rules t ((s.tokens ts).zipIdx s.start) = (made, id)
  grown : Extends (readSpan rules (indexed ts) t s) t'

/-- Every node is the last one of a tree that is only extended from then on. -/
lemma exists_stage (rules : Rules) (ts : List Token) {id : NodeId}
    (hid : id ∈ (ofTokens rules ts).top) :
    ∃ t made s, Stage rules ts t made (ofTokens rules ts) s id := by
  have hfold : ∀ (l : List Span) (t : Tree), (∀ s ∈ l, s ∈ spans ts) → t.Forest → t.Fresh →
      Extends t (l.foldl (readSpan rules (indexed ts)) t) ∧
      ∀ id ∈ (l.foldl (readSpan rules (indexed ts)) t).top, id ∈ t.top ∨
        ∃ t' made s, Stage rules ts t' made (l.foldl (readSpan rules (indexed ts)) t) s id := by
    intro l
    induction l with
    | nil => exact fun t _ _ _ => ⟨Extends.refl t, fun id hid => .inl hid⟩
    | cons s l ih =>
      intro t hspans hforest hfresh
      obtain ⟨hs, hl⟩ := List.forall_mem_cons.1 hspans
      obtain ⟨hgrown, hstage⟩ :=
        ih _ hl (forest_readSpan rules ts hforest s) (fresh_readSpan rules ts t s hfresh)
      refine ⟨(extends_readSpan rules ts t s).trans hgrown, fun id hid => ?_⟩
      rcases hstage id hid with hid | hstage
      · rw [readSpan_eq, top_push, (adds_readNode rules t _ _).top, List.mem_append,
          List.mem_singleton] at hid
        refine hid.imp_right fun hid => ?_
        subst hid
        exact ⟨t, (readNode rules t ((s.tokens ts).zipIdx s.start)).1, s, hforest, hfresh, hs, rfl,
          hgrown⟩
      · exact .inr hstage
  obtain ⟨-, hstage⟩ := hfold (spans ts) {} (fun _ hs => hs) Forest.empty fun _ _ _ => rfl
  have hlast : Extends ((spans ts).foldl (readSpan rules (indexed ts)) {}) (ofTokens rules ts) ∧
      (ofTokens rules ts).top = ((spans ts).foldl (readSpan rules (indexed ts)) {}).top := by
    rw [ofTokens]
    cases lastPosition? ts (spans ts) with
    | none => exact ⟨Extends.refl _, rfl⟩
    | some n =>
      have hrefl := Extends.refl ((spans ts).foldl (readSpan rules (indexed ts)) {})
      exact ⟨⟨⟨hrefl.grows.size_le, hrefl.grows.node?⟩, hrefl.top, hrefl.fragments,
        fun id _ key => Attribute.Table.get?_setLastTokenPosition _ id n key⟩, rfl⟩
  rw [hlast.2] at hid
  obtain ⟨t, made, s, h⟩ := (hstage id hid).resolve_left (List.not_mem_nil)
  exact ⟨t, made, s, h.forest, h.fresh, h.mem, h.read, h.grown.trans hlast.1⟩

namespace Stage

variable {rules : Rules} {ts : List Token} {t made t' : Tree} {s : Span} {id : NodeId}
  (h : Stage rules ts t made t' s id)

include h

lemma adds : Adds t made id (Node.Content.ofTokens rules (s.tokens ts)) := by
  have hadds := adds_readNode rules t (s.tokens ts) s.start
  rwa [h.read] at hadds

/-- The nodes that have been made stay as they are. -/
lemma node?_eq {i : Nat} (hi : i < made.nodes.size) : t'.node? i = made.node? i := by
  have hgrown := h.grown
  rw [readSpan_eq, h.read] at hgrown
  exact hgrown.grows.node? i hi

/-- The node gets the span that it is read from. -/
lemma span?_self : t'.attributes.span? id = some s := by
  have hgrown := h.grown
  rw [readSpan_eq, h.read] at hgrown
  rw [hgrown.span? h.adds.lt_size, attributes_push, Attribute.Table.span?_setSpan_self]

lemma get?_eq {i : Nat} (hi : i < made.nodes.size) (hne : i ≠ id) (key : Attribute.Key) :
    t'.attributes.get? (.node i) key = made.attributes.get? (.node i) key := by
  have hgrown := h.grown
  rw [readSpan_eq, h.read] at hgrown
  rw [hgrown.get? i hi, attributes_push, Attribute.Table.get?_setSpan_of_ne _ _ hne]

/-- Nodes that are made with one that has no fragments are out of the comment. -/
lemma contains_eq_false (hfragments : made.fragments id = []) {i : Nat} (hge : t.nodes.size ≤ i)
    (hi : i < made.nodes.size) (hne : i ≠ id) : t'.contains i = false := by
  have hgrown := h.grown
  have hforest := forest_readSpan rules ts h.forest s
  rw [readSpan_eq, h.read] at hgrown hforest
  refine hgrown.contains_eq_false hforest hi ?_
  have htop : made.top = t.top := h.adds.top
  simp only [contains, List.any_eq_false, Bool.or_eq_true, decide_eq_true_eq, not_or, top_push,
    htop, List.mem_append, List.mem_singleton]
  rintro top (htop | rfl)
  · have hlt := h.forest.lt_size_of_mem_top htop
    refine ⟨(hlt.trans_le hge).ne, fun hmem => ?_⟩
    have hold : i ∈ t.fragments top := h.adds.grows.fragments hlt ▸ hmem
    exact Nat.not_lt.2 hge (h.forest.lt_size_of_mem_fragments hold)
  · refine ⟨hne.symm, fun hmem => ?_⟩
    have hnil : i ∈ made.fragments top := hmem
    rw [hfragments] at hnil
    cases hnil

end Stage

/-! ### Methods -/

section

variable {rules : Rules} {name : Text} {payload : List Token} {m : MethodPayload}
  {spans : List Span}
  (hr : rules.resolve name (folded payload) = .method m) (t : Tree) (i : Nat)

include hr

lemma readPayload_snd :
    (readPayload rules t name payload i).2 = t.nodes.size + m.params.length := by
  rw [← makeTag_method_snd t name m]
  simp only [readPayload, hr]
  split <;> rfl

/-- The fragments that are made for a method stay, whatever becomes of the tag. -/
lemma map_node?_readPayload : (List.range' t.nodes.size m.params.length).map
    (readPayload rules t name payload i).1.node? =
      m.params.map fun f => some (.fragment f.text) := by
  rw [← map_node?_makeTag t name m]
  apply List.map_congr_left
  intro f hf
  rw [List.mem_range'_1] at hf
  simp only [readPayload, hr]
  split
  · refine node?_replace_of_ne _ _ ?_
    rw [makeTag_method_snd]
    exact hf.2.ne
  · rfl

lemma readPayload_of_spans (hspans : (m.params.mapM fun f =>
      Placed.span? (Placed.ofTokens payload) f.start f.stop) = some spans) :
    (readPayload rules t name payload i).1.node? (t.nodes.size + m.params.length) =
      some (.container name m.signature (List.range' t.nodes.size m.params.length) m.description) ∧
    (List.range' t.nodes.size m.params.length).map
      (readPayload rules t name payload i).1.attributes.span? =
        (spans.map fun s => (⟨i + s.start, i + s.stop⟩ : Span)).map some := by
  have hlen : m.params.length = spans.length := by
    simpa using congrArg List.length (mapM_eq_some_iff.1 hspans)
  simp only [readPayload, hr, hspans]
  constructor
  · rw [← makeTag_method_snd t name m]
    exact node?_makeTag t name (.method m)
  · rw [makeTag_method_snd, fragments_makeTag_method]
    exact Attribute.Table.map_span?_foldl_setSpan _ List.nodup_range' (by simpa using hlen)

lemma readPayload_of_none (hspans : (m.params.mapM fun f =>
      Placed.span? (Placed.ofTokens payload) f.start f.stop) = none) :
    (readPayload rules t name payload i).1.node? (t.nodes.size + m.params.length) =
      some (.tag name (.generic (folded payload))) ∧
    (readPayload rules t name payload i).1.attributes = t.attributes := by
  simp only [readPayload, hr, hspans]
  constructor
  · rw [← makeTag_method_snd t name m]
    exact node?_replace_self _ (by rw [size_makeTag]; exact Nat.lt_succ_self _)
  · rw [attributes_replace, attributes_makeTag]

end

end Tree

end DocComment
