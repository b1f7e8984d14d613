import DocComment.Proofs.Tag.Write
import DocComment.Proofs.Tree.Segmentation
import DocComment.Proofs.Tree.Stage

/-!
# The fragments of containers that are read

The fragments of a container stand in its span, one behind the other, and say what the tokens of
their own spans fold to, if the rules cut them out of the payload in this order. A fragment that is
empty or does not begin and end with tokens of the payload has no span, and then the tag keeps its
payload as it is: the fragments that were made for it belong to no node
(`Tree.ofTokens_fragments`).
-/

namespace DocComment

open Text Token

/-! ### Fragments that are cut out of the payload -/

/-- A fragment that is not empty and begins and ends with tokens of the payload that keep their text
when it is folded. -/
structure Fragment.Fits (payload : List Token) (f : Fragment) : Prop where
  ne_nil : f.text ≠ []
  start : ∃ us t vs, payload = us ++ t :: vs ∧ keepsText (startsLine false us) t ∧
    f.start = byteSize (folded us)
  stop : ∃ us t vs, payload = us ++ t :: vs ∧ keepsText (startsLine false us) t ∧
    f.stop = byteSize (folded (us ++ [t]))

/-- A part of the payload has a span if it fits. -/
lemma Fragment.fits_iff {payload : List Token} (hne : ∀ t ∈ payload, t.text ≠ []) {f : Fragment}
    (hslice : slice? f.start f.stop (folded payload) = some f.text) :
    f.Fits payload ↔ (Placed.span? (Placed.ofTokens payload) f.start f.stop).isSome := by
  have hlt : f.text ≠ [] ↔ f.start < f.stop := by
    obtain ⟨l, r, -, hstart, hstop⟩ := slice?_eq_some_iff.1 hslice
    have := byteSize_eq_zero (s := f.text)
    rw [hstart, hstop, byteSize_append, ne_eq, ← this]
    omega
  rw [Placed.isSome_span?_iff hne, ← hlt]
  constructor
  · rintro ⟨hnil, ⟨us, t, vs, hts, hkeeps, hstart⟩, us', t', vs', hts', hkeeps', hstop⟩
    exact ⟨hnil, ⟨_, Placed.mem_ofTokens_iff.2 ⟨us, t, vs, hts, hkeeps, rfl⟩, hstart.symm⟩,
      _, Placed.mem_ofTokens_iff.2 ⟨us', t', vs', hts', hkeeps', rfl⟩, hstop.symm⟩
  · rintro ⟨hnil, ⟨p, hp, hstart⟩, q, hq, hstop⟩
    obtain ⟨us, t, vs, hts, hkeeps, rfl⟩ := Placed.mem_ofTokens_iff.1 hp
    obtain ⟨us', t', vs', hts', hkeeps', rfl⟩ := Placed.mem_ofTokens_iff.1 hq
    exact ⟨hnil, ⟨us, t, vs, hts, hkeeps, hstart.symm⟩, us', t', vs', hts', hkeeps', hstop.symm⟩

/-- The tokens of a span that is counted from a part of the tokens. -/
lemma Span.tokens_of_append (us body vs : List Token) {s : Span} (hs : s.stop ≤ body.length) :
    Span.tokens ⟨us.length + s.start, us.length + s.stop⟩ (us ++ body ++ vs) = s.tokens body := by
  rw [Span.tokens, Span.tokens, List.append_assoc, ← List.drop_drop, List.drop_left,
    Nat.add_sub_add_left]
  rcases Nat.le_total s.start body.length with hle | hle
  · rw [List.drop_append_of_le_length hle, List.take_append_of_le_length]
    rw [List.length_drop]
    omega
  · rw [show s.stop - s.start = 0 by omega, List.take_zero, List.take_zero]

namespace Span

/-- Spans that follow each other within another, and the texts that their tokens fold to. -/
structure Nest (ts : List Token) (outer : Span) (spans : List Span) (texts : List Text) : Prop where
  ordered : spans.Pairwise fun s u => s.stop ≤ u.start
  within : ∀ s ∈ spans, s.start < s.stop ∧ outer.contains s
  folded : spans.map (fun s => folded (s.tokens ts)) = texts

/-- Parts of a payload that have spans, one behind the other, nest in the span of the node. -/
lemma nest_of_mapM (us front vs : List Token) {payload : List Token} {params : List Fragment}
    {spans : List Span}
    (hne : ∀ t ∈ payload, t.text ≠ [])
    (hordered : params.Pairwise fun f g => f.stop ≤ g.start)
    (hslice : ∀ f ∈ params, slice? f.start f.stop (Token.folded payload) = some f.text)
    (hspans : (params.mapM fun f =>
      Placed.span? (Placed.ofTokens payload) f.start f.stop) = some spans) :
    Nest (us ++ (front ++ payload) ++ vs) ⟨us.length, us.length + (front ++ payload).length⟩
      (spans.map fun s => ⟨us.length + front.length + s.start, us.length + front.length + s.stop⟩)
      (params.map (·.text)) := by
  rw [mapM_eq_some_iff] at hspans
  have hmem : ∀ s ∈ spans, ∃ f ∈ params,
      Placed.span? (Placed.ofTokens payload) f.start f.stop = some s := fun s hs =>
    List.mem_map.1 (hspans ▸ List.mem_map_of_mem hs)
  have htokens : ∀ s ∈ spans,
      Span.tokens ⟨us.length + front.length + s.start, us.length + front.length + s.stop⟩
        (us ++ (front ++ payload) ++ vs) = s.tokens payload := by
    intro s hs
    obtain ⟨f, -, hf⟩ := hmem s hs
    rw [← List.length_append, ← List.append_assoc us]
    exact tokens_of_append _ payload vs (Placed.slice?_of_span? hne hf).2.2
  constructor
  · have hall : (params.map fun f => Placed.span? (Placed.ofTokens payload) f.start f.stop).Pairwise
        fun x y => ∀ s ∈ x, ∀ u ∈ y, s.stop ≤ u.start := by
      rw [List.pairwise_map]
      exact hordered.imp fun hle s hs u hu => Placed.stop_le_start_of_span? hne hs hu hle
    rw [hspans, List.pairwise_map] at hall
    rw [List.pairwise_map]
    exact hall.imp fun h => Nat.add_le_add_left (h _ rfl _ rfl) _
  · intro u hu
    obtain ⟨s, hs, rfl⟩ := List.mem_map.1 hu
    obtain ⟨f, -, hf⟩ := hmem s hs
    obtain ⟨-, hlt, hle⟩ := Placed.slice?_of_span? hne hf
    refine ⟨Nat.add_lt_add_left hlt _, ?_⟩
    rw [Span.contains, Bool.and_eq_true, decide_eq_true_eq, decide_eq_true_eq, List.length_append]
    dsimp only
    omega
  · rw [List.map_map, ← (Option.some_injective Text).list_map.eq_iff, List.map_map, List.map_map]
    calc spans.map (some ∘ ((fun s => Token.folded (s.tokens (us ++ (front ++ payload) ++ vs))) ∘
            fun s =>
              (⟨us.length + front.length + s.start, us.length + front.length + s.stop⟩ : Span)))
        = (spans.map some).map (Option.map fun s => Token.folded (s.tokens payload)) := by
          rw [List.map_map]
          exact List.map_congr_left fun s hs => congrArg (some ∘ Token.folded) (htokens s hs)
      _ = params.map (some ∘ (·.text)) := by
          rw [← hspans, List.map_map]
          refine List.map_congr_left fun f hf => ?_
          have hsome := List.mem_map_of_mem (f := fun f : Fragment =>
            Placed.span? (Placed.ofTokens payload) f.start f.stop) hf
          rw [hspans] at hsome
          obtain ⟨s, hs, heq⟩ := List.mem_map.1 hsome
          have hslice' := (Placed.slice?_of_span? hne heq.symm).1
          rw [hslice f hf] at hslice'
          rw [Function.comp_apply, ← heq, Option.map_some, ← Option.some.inj hslice']
          rfl

end Span

namespace Tree

/-! ### Nodes and their fragments -/

/-- Whether the fragments of a node that was read from the span `s` nest in it, and say what their
tokens fold to. -/
def Nests (ts : List Token) (t : Tree) (s : Span) (id : NodeId) : Prop :=
  ∃ spans texts, Span.Nest ts s spans texts ∧
    (t.fragments id).map t.attributes.span? = spans.map some ∧
    (t.fragments id).map t.node? = texts.map fun text => some (.fragment text)

lemma nests_of_fragments_eq_nil {ts : List Token} {t : Tree} {s : Span} {id : NodeId}
    (h : t.fragments id = []) : t.Nests ts s id :=
  ⟨[], [], ⟨List.Pairwise.nil, List.forall_mem_nil _, rfl⟩, by simp [h], by simp [h]⟩

namespace Stage

section

variable {rules : Rules} {ts : List Token} {t made t' : Tree} {s : Span} {id : NodeId}
  {name : Text} {payload : List Token} {m : MethodPayload}
  (h : Stage rules ts t made t' s id)

include h

/-- Only methods have fragments. -/
lemma fragments_eq_nil (hnot : ∀ name payload m, tag? (s.tokens ts) = some (name, payload) →
    rules.resolve name (folded payload) ≠ .method m) : t'.fragments id = [] := by
  have hread := h.read
  rw [fragments_eq_of_node?_eq (h.node?_eq h.adds.lt_size)]
  cases htag : tag? (s.tokens ts) with
  | none =>
    rw [readNode_of_tag?_eq_none htag, Prod.ext_iff] at hread
    obtain ⟨hmade, hid⟩ := hread
    dsimp only at hmade hid
    rw [← hmade, ← hid, fragments_make, make_snd, if_pos rfl]
    rfl
  | some tag =>
    obtain ⟨name, payload⟩ := tag
    obtain ⟨front, -, hpayload⟩ := readNode_of_tag? htag
    rw [hpayload, readPayload] at hread
    split at hread
    · rw [Prod.ext_iff] at hread
      obtain ⟨hmade, hid⟩ := hread
      dsimp only at hmade hid
      rw [← hmade, ← hid, fragments_of_node? (node?_makeTag t name _)]
      rfl
    · next m hr => exact absurd hr (hnot name payload m htag)

variable (htag : tag? (s.tokens ts) = some (name, payload))
  (hr : rules.resolve name (folded payload) = .method m)

include htag

lemma exists_readPayload : ∃ front, s.tokens ts = front ++ payload ∧
    readPayload rules t name payload (s.start + front.length) = (made, id) := by
  obtain ⟨front, hbody, hread⟩ := readNode_of_tag? htag
  exact ⟨front, hbody, by rw [← h.read, hread]⟩

include hr

lemma id_eq : id = t.nodes.size + m.params.length := by
  obtain ⟨front, -, hread⟩ := h.exists_readPayload htag
  rw [← readPayload_snd hr t (s.start + front.length), hread]

/-- The fragments of a method get the numbers in front of its own. -/
lemma bounds {f : Nat} (hf : f ∈ List.range' t.nodes.size m.params.length) :
    t.nodes.size ≤ f ∧ f ≠ id ∧ f < made.nodes.size := by
  have hid := h.id_eq htag hr
  have hlt := h.adds.lt_size
  rw [List.mem_range'_1] at hf
  rw [hid] at hlt ⊢
  exact ⟨hf.1, hf.2.ne, hf.2.trans hlt⟩

/-- The fragments that are made for a method stay, whatever becomes of the tag. -/
lemma map_node? : (List.range' t.nodes.size m.params.length).map t'.node? =
    m.params.map fun f => some (.fragment f.text) := by
  obtain ⟨front, -, hread⟩ := h.exists_readPayload htag
  rw [← map_node?_readPayload hr t (s.start + front.length), hread]
  exact List.map_congr_left fun f hf => h.node?_eq (h.bounds htag hr hf).2.2

/-- A method without spans for all its fragments is kept as it is, and its fragments are dropped. -/
lemma of_none (hspans : (m.params.mapM fun f =>
      Placed.span? (Placed.ofTokens payload) f.start f.stop) = none) :
    t'.node? id = some (.tag name (.generic (folded payload))) ∧
    ∀ f ∈ List.range' t.nodes.size m.params.length,
      t'.contains f = false ∧ t'.attributes.all (.node f) = [] := by
  obtain ⟨front, -, hread⟩ := h.exists_readPayload htag
  obtain ⟨hnode, hattributes⟩ := readPayload_of_none hr t (s.start + front.length) hspans
  rw [hread, ← h.id_eq htag hr] at hnode
  rw [hread] at hattributes
  refine ⟨(h.node?_eq h.adds.lt_size).trans hnode, fun f hf => ?_⟩
  obtain ⟨hge, hne, hlt⟩ := h.bounds htag hr hf
  constructor
  · refine h.contains_eq_false ?_ hge hlt hne
    rw [fragments_of_node? hnode]
    rfl
  · rw [Attribute.Table.all_eq_nil_iff]
    intro key
    rw [h.get?_eq hlt hne, hattributes]
    exact h.fresh f hge key

/-- The fragments of a method with spans for all of them nest. -/
lemma nests_of_spans (hne : ∀ u ∈ payload, u.text ≠ [])
    (hordered : m.params.Pairwise fun f g => f.stop ≤ g.start)
    (hslice : ∀ f ∈ m.params, slice? f.start f.stop (folded payload) = some f.text)
    {spans : List Span} (hspans : (m.params.mapM fun f =>
      Placed.span? (Placed.ofTokens payload) f.start f.stop) = some spans) : t'.Nests ts s id := by
  obtain ⟨front, hbody, hread⟩ := h.exists_readPayload htag
  obtain ⟨us, body, vs, hts, -, hs, hbody'⟩ := exists_of_mem_spans h.mem
  obtain rfl : body = front ++ payload := hbody'.symm.trans hbody
  have hstart : s.start = us.length := by rw [hs]
  obtain ⟨hnode, hspan⟩ := readPayload_of_spans hr t (s.start + front.length) hspans
  rw [hread, ← h.id_eq htag hr] at hnode
  rw [hread, hstart] at hspan
  have hfragments : t'.fragments id = List.range' t.nodes.size m.params.length := by
    rw [fragments_of_node? ((h.node?_eq h.adds.lt_size).trans hnode)]
    rfl
  have hnest := Span.nest_of_mapM us front vs hne hordered hslice hspans
  rw [← hts, ← hs] at hnest
  refine ⟨_, _, hnest, ?_, ?_⟩
  · rw [hfragments, ← hspan]
    refine List.map_congr_left fun f hf => ?_
    obtain ⟨-, hne', hlt⟩ := h.bounds htag hr hf
    rw [Attribute.Table.span?, h.get?_eq hlt hne']
    rfl
  · rw [hfragments, h.map_node? htag hr, List.map_map]
    rfl

end

end Stage

/-- The fragments of a node that is read nest in its span, and say what their tokens fold to. A tag
is a method if all fragments that are read from its payload fit, and else keeps the payload as it
is: the fragments that were made for it are out of the comment, and nothing is noted about them. -/
theorem ofTokens_fragments {rules : Rules} (hrules : rules.Slices) (raw : Text) :
    let ts := scan raw
    let t := ofTokens rules ts
    ∀ id ∈ t.top, ∃ s, t.attributes.span? id = some s ∧ t.Nests ts s id ∧
      ∀ name payload m, tag? (s.tokens ts) = some (name, payload) →
        rules.resolve name (folded payload) = .method m →
        ((∀ f ∈ m.params, f.Fits payload) →
          t.content? id = some ((Reading.method m).content name)) ∧
        ((∃ f ∈ m.params, ¬ f.Fits payload) →
          t.node? id = some (.tag name (.generic (folded payload))) ∧
          let made := List.range' (id - m.params.length) m.params.length
          made.map t.node? = (m.params.map fun f => some (.fragment f.text)) ∧
          ∀ f ∈ made, t.contains f = false ∧ t.attributes.all (.node f) = []) := by
  intro ts t id hid
  obtain ⟨t₀, made, s, h⟩ := exists_stage rules ts hid
  have hne : ∀ {name payload}, tag? (s.tokens ts) = some (name, payload) →
      ∀ u ∈ payload, u.text ≠ [] := fun htag u hu =>
    text_ne_nil_of_mem_scan u (mem_of_tag? htag hu)
  refine ⟨s, h.span?_self, ?_, fun name payload m htag hr => ?_⟩
  · by_cases hmethod : ∃ name payload m, tag? (s.tokens ts) = some (name, payload) ∧
        rules.resolve name (folded payload) = .method m
    · obtain ⟨name, payload, m, htag, hr⟩ := hmethod
      obtain ⟨hordered, hslice⟩ := hrules name _ m hr
      cases hspans : m.params.mapM fun f =>
          Placed.span? (Placed.ofTokens payload) f.start f.stop with
      | none =>
        refine nests_of_fragments_eq_nil ?_
        rw [fragments_of_node? (h.of_none htag hr hspans).1]
        rfl
      | some spans => exact h.nests_of_spans htag hr (hne htag) hordered hslice hspans
    · exact nests_of_fragments_eq_nil (h.fragments_eq_nil fun name payload m htag hr =>
        hmethod ⟨name, payload, m, htag, hr⟩)
  · obtain ⟨hordered, hslice⟩ := hrules name _ m hr
    have hfits : (m.params.all fun f =>
        (Placed.span? (Placed.ofTokens payload) f.start f.stop).isSome) ↔
          ∀ f ∈ m.params, f.Fits payload := by
      rw [List.all_eq_true]
      exact forall₂_congr fun f hf => (Fragment.fits_iff (hne htag) (hslice f hf)).symm
    constructor
    · intro hall
      obtain ⟨s', -, hs', hcontent⟩ := (unedited_ofTokens rules ts).exists_span hid
      obtain rfl : s = s' := Option.some.inj (h.span?_self.symm.trans hs')
      rw [hcontent, Node.Content.ofTokens_eq, htag, Option.elim_some, Node.Content.ofPayload, hr]
      dsimp only
      rw [if_pos (hfits.2 hall)]
    · rintro ⟨f, hf, hnot⟩
      have hspans := (mapM_eq_none_iff _ _).2 fun hall => hnot (hfits.1 hall f hf)
      obtain ⟨hnode, hdropped⟩ := h.of_none htag hr hspans
      have hstart : id - m.params.length = t₀.nodes.size := by
        rw [h.id_eq htag hr, Nat.add_sub_cancel]
      rw [hstart]
      exact ⟨hnode, h.map_node? htag hr, hdropped⟩

/-- The parameters of the first method stand on two lines. The parameter of the second one follows a
character that is white space but belongs to the token of the dots. -/
theorem ofTokens_fragments_two_methods :
    let ts := scan "/**\n * @method int f(int $a,\n *   $b)\n * @method g(\u0085...$c)\n */".toList
    let t := ofTokens .standard ts
    Rules.standard.Slices ∧ t.top = [2, 4] ∧ t.fragments 2 = [0, 1] ∧
      (∃ s, t.attributes.span? 2 = some s ∧ t.Nests ts s 2) ∧
      t.node? 4 = some (.tag "method".toList (.generic "g(\u0085...$c)".toList)) ∧
      t.contains 3 = false ∧ t.attributes.all (.node 3) = [] := by
  intro ts t
  have hrules : Rules.standard.Slices := Rules.IsUsual.slices (.inr rfl)
  have htop : t.top = [2, 4] := by decide +kernel
  obtain ⟨s, hs, hnests, -⟩ := ofTokens_fragments hrules _ 2 (by rw [htop]; decide)
  obtain ⟨s', hs', -, htag⟩ := ofTokens_fragments hrules _ 4 (by rw [htop]; decide)
  have hspan : t.attributes.span? 4 = some ⟨18, 26⟩ := by decide +kernel
  obtain rfl : s' = ⟨18, 26⟩ := Option.some.inj (hs'.symm.trans hspan)
  have hgeneric := (htag "method".toList ((Span.tokens ⟨18, 26⟩ ts).drop 3)
    ⟨⟨false, none, ['g']⟩, [⟨"...$c".toList, 4, 9⟩], []⟩ (by decide +kernel) (by decide +kernel)).2
  obtain ⟨hnode, -, hdropped⟩ := hgeneric ⟨_, List.mem_singleton_self _, fun hfits => by
    rw [Fragment.fits_iff (by decide +kernel) (by decide +kernel)] at hfits
    revert hfits
    decide +kernel⟩
  refine ⟨hrules, htop, by decide +kernel, ⟨s, hs, hnests⟩, ?_, hdropped 3 (by decide)⟩
  rw [hnode]
  decide +kernel

end Tree

end DocComment
