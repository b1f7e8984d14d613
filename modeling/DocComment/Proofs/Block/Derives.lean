import DocComment.Proofs.Block.Run
import DocComment.Proofs.Tree.Read

/-!
# Where the nodes of an edited block come from

Edits add nodes at the end, remove nodes, and change nodes where they stand. So whatever has been
done to a block, its top nodes are some of those that were read, in order, and then new ones in the
order in which they were made (`Derives`, `derives_act`). The notes about the nodes say which are
which.
-/

namespace DocComment.Block

open Text

/-- What actions keep of a block `b₀` that was read. -/
structure Derives (b₀ b : Block) : Prop where
  raw : b.raw = b₀.raw
  tokens : b.tokens = b₀.tokens
  rules : b.rules = b₀.rules
  size_le : b₀.tree.nodes.size ≤ b.tree.nodes.size
  span? : ∀ id, b.tree.attributes.span? id = b₀.tree.attributes.span? id
  lastTokenPosition? :
    b.tree.attributes.lastTokenPosition? = b₀.tree.attributes.lastTokenPosition?
  size_le_of_isSynthesized : ∀ id : Nat, b.tree.attributes.isSynthesized id →
    b₀.tree.nodes.size ≤ id
  top : ∃ kept new : List Nat, b.tree.top = kept ++ new ∧ kept.Sublist b₀.tree.top ∧
    new.Pairwise (· < ·) ∧ ∀ id ∈ new, b₀.tree.nodes.size ≤ id ∧ id < b.tree.nodes.size ∧
      b.tree.attributes.isSynthesized id

namespace Derives

variable {b₀ b b' : Block}

protected lemma refl (h : ∀ id, b.tree.attributes.isSynthesized id = false) : Derives b b where
  raw := rfl
  tokens := rfl
  rules := rfl
  size_le := Nat.le_refl _
  span? _ := rfl
  lastTokenPosition? := rfl
  size_le_of_isSynthesized id hid := by simp [h] at hid
  top := ⟨b.tree.top, [], by simp⟩

/-- A change that adds top nodes at the end, and notes only changes and new nodes. -/
lemma extend (h : Derives b₀ b) (added : List Nat) (htop : b'.tree.top = b.tree.top ++ added)
    (hsorted : added.Pairwise (· < ·))
    (hadded : ∀ id ∈ added, b.tree.nodes.size ≤ id ∧ id < b'.tree.nodes.size ∧
      b'.tree.attributes.isSynthesized id)
    (hraw : b'.raw = b.raw) (htokens : b'.tokens = b.tokens) (hrules : b'.rules = b.rules)
    (hsize : b.tree.nodes.size ≤ b'.tree.nodes.size)
    (hspan : ∀ id, b'.tree.attributes.span? id = b.tree.attributes.span? id)
    (hlast : b'.tree.attributes.lastTokenPosition? = b.tree.attributes.lastTokenPosition?)
    (hmarked : ∀ id, b.tree.attributes.isSynthesized id → b'.tree.attributes.isSynthesized id)
    (hnew : ∀ id : Nat, b'.tree.attributes.isSynthesized id →
      b.tree.attributes.isSynthesized id ∨ b.tree.nodes.size ≤ id) : Derives b₀ b' where
  raw := hraw.trans h.raw
  tokens := htokens.trans h.tokens
  rules := hrules.trans h.rules
  size_le := Nat.le_trans h.size_le hsize
  span? id := (hspan id).trans (h.span? id)
  lastTokenPosition? := hlast.trans h.lastTokenPosition?
  size_le_of_isSynthesized id hid := by
    rcases hnew id hid with hid | hid
    · exact h.size_le_of_isSynthesized id hid
    · exact Nat.le_trans h.size_le hid
  top := by
    obtain ⟨kept, new, hkn, hsub, hnews, hids⟩ := h.top
    refine ⟨kept, new ++ added, by rw [htop, hkn, List.append_assoc], hsub, ?_, ?_⟩
    · rw [List.pairwise_append]
      refine ⟨hnews, hsorted, fun i hi j hj => ?_⟩
      exact Nat.lt_of_lt_of_le (hids i hi).2.1 (hadded j hj).1
    · intro i hi
      rcases List.mem_append.1 hi with hi | hi
      · obtain ⟨hle, hlt, hs⟩ := hids i hi
        exact ⟨hle, Nat.lt_of_lt_of_le hlt hsize, hmarked i hs⟩
      · obtain ⟨hle, hlt, hs⟩ := hadded i hi
        exact ⟨Nat.le_trans h.size_le hle, hlt, hs⟩

/-- Top nodes may be removed. -/
lemma filterTop (h : Derives b₀ b) (q : NodeId → Bool) (removedRead dirty : Bool) :
    Derives b₀ { b with
      tree := { b.tree with top := b.tree.top.filter q }, removedRead, dirty } where
  raw := h.raw
  tokens := h.tokens
  rules := h.rules
  size_le := h.size_le
  span? := h.span?
  lastTokenPosition? := h.lastTokenPosition?
  size_le_of_isSynthesized := h.size_le_of_isSynthesized
  top := by
    obtain ⟨kept, new, hkn, hsub, hsorted, hids⟩ := h.top
    refine ⟨kept.filter q, new.filter q, by simp [hkn], List.filter_sublist.trans hsub,
      hsorted.filter q, fun id hid => hids id (List.mem_of_mem_filter hid)⟩

/-- A node may be given other content. -/
lemma replace (h : Derives b₀ b) (id : NodeId) (n : Node) :
    Derives b₀ { b with tree := b.tree.replace id n } :=
  h.extend [] (by simp) List.Pairwise.nil (by simp) rfl rfl rfl (by simp) (fun _ => rfl) rfl
    (fun _ hid => hid) (fun _ hid => .inl hid)

lemma withMark (h : Derives b₀ b) (id : NodeId) : Derives b₀ (b.withMark id) := by
  refine h.extend [] (by simp [Block.withMark]) List.Pairwise.nil (by simp) rfl rfl rfl
    (by simp [Block.withMark]) (by simp [Block.withMark, Tree.markChanged])
    (by simp [Block.withMark, Tree.markChanged]) ?_ ?_
  · intro i hi
    simpa [Block.withMark, Tree.markChanged] using hi
  · intro i hi
    exact .inl (by simpa [Block.withMark, Tree.markChanged] using hi)

lemma step {p : NodeId → Prop} (h : Derives b₀ b) (hs : Step p b b') : Derives b₀ b' := by
  cases hs with
  | pushTag name r =>
    refine h.extend [(b.pushTag name r).2] (by simp [pushTag]) (List.pairwise_singleton _ _) ?_
      rfl rfl rfl ?_ (by simp [pushTag, Tree.markSynthesized])
      (by simp [pushTag, Tree.markSynthesized]) ?_ ?_
    · intro id hid
      rw [List.mem_singleton.1 hid]
      refine ⟨Tree.size_le_makeTag_snd b.tree name r, ?_, by simp [pushTag, Tree.markSynthesized]⟩
      simp [pushTag, Tree.size_makeTag]
    · exact (Tree.grows_makeTag b.tree name r).size_le
    · intro id hid
      simp [pushTag, Tree.markSynthesized, hid]
    · intro id hid
      simp only [pushTag, Tree.attributes_push, Tree.markSynthesized,
        Attribute.Table.isSynthesized_foldl_markSynthesized, Bool.or_eq_true, decide_eq_true_eq,
        Tree.attributes_makeTag] at hid
      exact hid.symm.imp_right (Tree.size_le_of_mem_makeTag b.tree name r)
  | pushProse text =>
    refine h.extend [b.tree.nodes.size] (by simp [pushProse]) (List.pairwise_singleton _ _) ?_
      rfl rfl rfl (by simp [pushProse]) (by simp [pushProse, Tree.markSynthesized])
      (by simp [pushProse, Tree.markSynthesized]) ?_ ?_
    · intro id hid
      rw [List.mem_singleton.1 hid]
      simp [pushProse, Tree.markSynthesized]
    · intro id hid
      simp [pushProse, Tree.markSynthesized, hid]
    · intro id hid
      simp only [pushProse, Tree.attributes_push, Tree.markSynthesized, List.foldl_cons,
        List.foldl_nil, Attribute.Table.isSynthesized_markSynthesized, Bool.or_eq_true,
        decide_eq_true_eq, Tree.attributes_make, Tree.make_snd] at hid
      rcases hid with rfl | hid
      · exact .inr (Nat.le_refl _)
      · exact .inl hid
  | dropTags name =>
    unfold dropTags
    dsimp only
    split_ifs
    · exact h
    · exact h.filterTop _ _ _
  | @rereadTag id n name r htop hnode htag hread hid =>
    unfold rereadTag
    dsimp only
    split_ifs
    · exact h
    · refine h.extend [] (by simp) List.Pairwise.nil (by simp) rfl rfl rfl ?_
        (by simp [Tree.markSynthesized, Tree.markChanged])
        (by simp [Tree.markSynthesized, Tree.markChanged]) ?_ ?_
      · simpa using (Tree.grows_makeFragments b.tree name r).size_le
      · intro i hi
        simp [Tree.markSynthesized, Tree.markChanged, hi]
      · intro i hi
        simp only [Tree.markChanged, Tree.attributes_replace, Tree.markSynthesized,
          Attribute.Table.isSynthesized_markChanged,
          Attribute.Table.isSynthesized_foldl_markSynthesized, Bool.or_eq_true,
          decide_eq_true_eq, Tree.attributes_makeFragments] at hi
        rcases hi with hi | hi
        · rw [Tree.fragments_makeFragments, List.mem_range'_1] at hi
          exact .inr hi.1
        · exact .inl hi
  | retype type htop hnode hid => exact (h.replace _ _).withMark _
  | withMark hid => exact h.withMark _

lemma changeNode (h : Derives b₀ b) (id : NodeId) (c : Node.Change) :
    Derives b₀ (b.changeNode id c) := by
  unfold Block.changeNode
  split
  · exact h
  · exact h.replace id _

section

variable {spans : List Span} {cs : List Node.Content} (h : Derives b₀ b)
  (h₀ : b₀.tree.Unedited spans cs)

include h h₀

/-- Just the nodes that were read have spans. -/
lemma isSome_span?_iff {id : Nat} (hid : id ∈ b.tree.top) :
    (b.tree.attributes.span? id).isSome ↔ id ∈ b₀.tree.top := by
  obtain ⟨kept, new, hkn, hsub, -, hids⟩ := h.top
  rw [hkn, List.mem_append] at hid
  rw [h.span?]
  constructor
  · intro hs
    rcases hid with hid | hid
    · exact hsub.subset hid
    · rw [h₀.span?_eq_none id (hids id hid).1] at hs
      cases hs
  · intro hread
    have hmem : b₀.tree.attributes.span? id ∈ spans.map some :=
      h₀.spans ▸ List.mem_map_of_mem hread
    obtain ⟨s, -, hs⟩ := List.mem_map.1 hmem
    simp [← hs]

lemma span?_eq_none_of_not_mem {id : Nat} (hid : id ∈ b.tree.top) (hread : id ∉ b₀.tree.top) :
    b.tree.attributes.span? id = none := by
  by_contra hsome
  exact hread ((h.isSome_span?_iff h₀ hid).1 (Option.isSome_iff_ne_none.2 hsome))

/-- Just the nodes that were not read are marked as new. -/
lemma isSynthesized_iff {id : Nat} (hid : id ∈ b.tree.top) :
    b.tree.attributes.isSynthesized id ↔ id ∉ b₀.tree.top := by
  obtain ⟨kept, new, hkn, hsub, -, hids⟩ := h.top
  rw [hkn, List.mem_append] at hid
  constructor
  · intro hs hread
    exact Nat.not_lt.2 (h.size_le_of_isSynthesized id hs) (h₀.forest.lt_size_of_mem_top hread)
  · intro hread
    rcases hid with hid | hid
    · exact absurd (hsub.subset hid) hread
    · exact (hids id hid).2.2

lemma nodup_top : b.tree.top.Nodup := by
  obtain ⟨kept, new, hkn, hsub, hsorted, hids⟩ := h.top
  rw [hkn, List.nodup_append]
  refine ⟨(h₀.sorted.imp fun {i j} hlt => Nat.ne_of_lt hlt).sublist hsub,
    hsorted.imp fun {i j} hlt => Nat.ne_of_lt hlt, ?_⟩
  rintro i hi _ hj rfl
  exact Nat.not_lt.2 (hids i hj).1 (h₀.forest.lt_size_of_mem_top (hsub.subset hi))

/-- A node that is not the first was not the first one that was read. -/
lemma pos_of_mem_tail {first id : Nat} {rest : List Nat} {k : Nat}
    (htop : b.tree.top = first :: rest) (hid : id ∈ rest) (hk : b₀.tree.top[k]? = some id) :
    0 < k := by
  rw [Nat.pos_iff_ne_zero]
  rintro rfl
  obtain ⟨ids, hids⟩ : ∃ ids, b₀.tree.top = id :: ids := by
    cases hb₀ : b₀.tree.top with
    | nil => simp [hb₀] at hk
    | cons i ids => exact ⟨ids, by simpa [hb₀] using hk⟩
  have hnodup := h.nodup_top h₀
  have hne : first ≠ id := by
    rw [htop, List.nodup_cons] at hnodup
    rintro rfl
    exact hnodup.1 hid
  obtain ⟨kept, new, hkn, hsub, -, hnew⟩ := h.top
  have hread : id ∈ b₀.tree.top := by simp [hids]
  rw [htop] at hkn
  cases kept with
  | nil =>
    -- Then all nodes are new.
    rw [List.nil_append] at hkn
    have hmem : id ∈ new := hkn ▸ List.mem_cons_of_mem _ hid
    exact Nat.not_lt.2 (hnew id hmem).1 (h₀.forest.lt_size_of_mem_top hread)
  | cons i kept =>
    rw [List.cons_append] at hkn
    obtain ⟨rfl, hrest⟩ := List.cons.inj hkn
    rw [hids] at hsub
    have hsub' : (first :: kept).Sublist ids := by
      cases hsub with
      | cons _ hsub => exact hsub
      | cons_cons _ _ => exact absurd rfl hne
    rw [hrest, List.mem_append] at hid
    rcases hid with hid | hid
    · have hsorted := h₀.sorted
      rw [hids, List.pairwise_cons] at hsorted
      have hmem := hsub'.subset (List.mem_cons_of_mem _ hid)
      exact Nat.lt_irrefl id (hsorted.1 id hmem)
    · exact Nat.not_lt.2 (hnew id hid).1 (h₀.forest.lt_size_of_mem_top hread)

end

end Derives

/-- Whatever is done to a block, its top nodes are some that were read and then new ones. -/
lemma derives_act {b : Block} {spans : List Span} {cs : List Node.Content}
    (h : b.tree.Unedited spans cs) (as : List Action) : Derives b (b.act as) :=
  act_induction (fun hs h => h.step hs) (fun id c h => h.changeNode id c) as
    (Derives.refl h.isSynthesized)

end DocComment.Block
