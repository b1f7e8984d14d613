import Mathlib.Data.List.Nodup
import DocComment.Proofs.Tree.Growth

/-!
# Who owns a fragment

The fragments of a container are nodes of their own. In a *forest* every fragment belongs to one
container only, and none stands at the top. Making nodes keeps this if their fragments belong to no
node yet (`Tree.Free`), which holds of the fragments that have just been made for a tag
(`Forest.makeFragments`).

Where fragments may have been listed twice, there is still nothing but fragments below nodes, and no
fragment at the top (`Tree.Layered`).
-/

namespace DocComment.Tree

/-- No two nodes share a fragment, and no top node is one. -/
structure Forest (t : Tree) : Prop where
  fragment : ∀ {id f}, f ∈ t.fragments id → ∃ text, t.node? f = some (.fragment text)
  owner : ∀ {id id' f}, f ∈ t.fragments id → f ∈ t.fragments id' → id = id'
  nodup : ∀ id, (t.fragments id).Nodup
  top : ∀ id ∈ t.top, ∃ n, t.node? id = some n ∧ ∀ text, n ≠ .fragment text

/-- What stands below nodes are fragments, and no top node is one. -/
structure Layered (t : Tree) : Prop where
  fragment : ∀ {id f}, f ∈ t.fragments id → ∃ text, t.node? f = some (.fragment text)
  top : ∀ id ∈ t.top, ∃ n, t.node? id = some n ∧ ∀ text, n ≠ .fragment text

lemma Forest.layered {t : Tree} (h : t.Forest) : t.Layered where
  fragment := h.fragment
  top := h.top

/-- The fragments of `n` are fragments of no node of the tree. -/
structure Free (t : Tree) (n : Node) : Prop where
  nodup : n.fragments.Nodup
  fragment : ∀ f ∈ n.fragments, ∃ text, t.node? f = some (.fragment text)
  unowned : ∀ f ∈ n.fragments, ∀ id, f ∉ t.fragments id

lemma Free.of_fragments_eq_nil {t : Tree} {n : Node} (h : n.fragments = []) : t.Free n := by
  constructor <;> simp [h]

lemma fragments_eq_nil_of_size_le {t : Tree} {id : Nat} (h : t.nodes.size ≤ id) :
    t.fragments id = [] := by
  simp [fragments, node?_eq_none_iff.2 h]

lemma fragments_make (t : Tree) (n : Node) (id : NodeId) :
    (t.make n).1.fragments id = if id = t.nodes.size then n.fragments else t.fragments id := by
  simp only [fragments, node?_make]
  split_ifs <;> rfl

lemma fragments_replace {t : Tree} {id : NodeId} (n : Node) (h : id < t.nodes.size) (id' : NodeId) :
    (t.replace id n).fragments id' = if id' = id then n.fragments else t.fragments id' := by
  by_cases hid : id' = id
  · rw [if_pos hid, hid, fragments_of_node? (node?_replace_self n h)]
  · rw [if_neg hid, fragments_eq_of_node?_eq (node?_replace_of_ne t n hid)]

/-- The nodes that are made for a tag have no fragments themselves. -/
lemma mem_fragments_of_makeFragments {t : Tree} {name : Text} {r : Reading} {id f : Nat}
    (hf : f ∈ (t.makeFragments name r).1.fragments id) :
    id < t.nodes.size ∧ f ∈ t.fragments id := by
  have hlt : id < (t.makeFragments name r).1.nodes.size := by
    by_contra hle
    rw [fragments_eq_nil_of_size_le (Nat.not_lt.1 hle)] at hf
    cases hf
  rcases Nat.lt_or_ge id t.nodes.size with hid | hid
  · rw [(grows_makeFragments t name r).fragments hid] at hf
    exact ⟨hid, hf⟩
  · have hmade : id ∈ (t.makeFragments name r).2.fragments := by
      rw [fragments_makeFragments, List.mem_range'_1]
      omega
    obtain ⟨text, hn⟩ := node?_of_mem_fragments_makeFragments hmade
    rw [fragments_of_node? hn] at hf
    cases hf

/-- The fragments that are made for a tag belong to no node until the tag is made. -/
lemma free_makeFragments {t : Tree} (h : t.Forest) (name : Text) (r : Reading) :
    (t.makeFragments name r).1.Free (t.makeFragments name r).2 where
  nodup := by rw [fragments_makeFragments]; exact List.nodup_range'
  fragment f hf := node?_of_mem_fragments_makeFragments hf
  unowned f hf id hf' := by
    rw [fragments_makeFragments, List.mem_range'_1] at hf
    obtain ⟨text, hold⟩ := h.fragment (mem_fragments_of_makeFragments hf').2
    exact Nat.not_lt.2 hf.1 (lt_size_of_node? hold)

/-! ### Layers -/

namespace Layered

variable {t t' : Tree} {id : Nat} {n m : Node}

lemma lt_size_of_mem_fragments (h : t.Layered) {f : Nat} (hf : f ∈ t.fragments id) :
    f < t.nodes.size := by
  obtain ⟨text, hf⟩ := h.fragment hf
  exact lt_size_of_node? hf

lemma lt_size_of_mem_top (h : t.Layered) (hid : id ∈ t.top) : id < t.nodes.size := by
  obtain ⟨n, hn, -⟩ := h.top id hid
  exact lt_size_of_node? hn

/-- No fragment stands at the top. -/
lemma not_mem_top (h : t.Layered) {f : NodeId} (hf : f ∈ t.fragments id) : f ∉ t.top := by
  intro htop
  obtain ⟨n, hn, hne⟩ := h.top f htop
  obtain ⟨text, hf⟩ := h.fragment hf
  exact hne text (Option.some.inj (hn.symm.trans hf))

/-- The layers are seen from the nodes, whatever the attributes are, and with fewer top nodes. -/
lemma congr (h : t.Layered) (hn : t'.nodes = t.nodes) (ht : t'.top ⊆ t.top) : t'.Layered := by
  have hnode : ∀ id, t'.node? id = t.node? id := fun id => by simp [node?, hn]
  constructor
  · intro id f hf
    rw [fragments_eq_of_node?_eq (hnode id)] at hf
    rw [hnode]
    exact h.fragment hf
  · intro id hid
    rw [hnode]
    exact h.top id (ht hid)

lemma push (h : t.Layered) (hn : t.node? id = some n) (hne : ∀ text, n ≠ .fragment text) :
    (t.push id).Layered where
  fragment hf := h.fragment hf
  top id' hid' := by
    rcases List.mem_append.1 hid' with hid' | hid'
    · exact h.top id' hid'
    · rw [List.mem_singleton.1 hid']
      exact ⟨n, hn, hne⟩

lemma make (h : t.Layered) (hn : ∀ f ∈ n.fragments, ∃ text, t.node? f = some (.fragment text)) :
    (t.make n).1.Layered := by
  have hgrow := grows_make t n
  constructor
  · intro id f hf
    obtain ⟨text, hold⟩ : ∃ text, t.node? f = some (.fragment text) := by
      rw [fragments_make] at hf
      split_ifs at hf
      · exact hn f hf
      · exact h.fragment hf
    exact ⟨text, hgrow.node?_of_some hold⟩
  · intro id hid
    obtain ⟨m, hm, hne⟩ := h.top id hid
    exact ⟨m, hgrow.node?_of_some hm, hne⟩

lemma makeFragments (h : t.Layered) (name : Text) (r : Reading) :
    (t.makeFragments name r).1.Layered := by
  have hgrow := grows_makeFragments t name r
  constructor
  · intro id f hf
    obtain ⟨text, hold⟩ := h.fragment (mem_fragments_of_makeFragments hf).2
    exact ⟨text, hgrow.node?_of_some hold⟩
  · intro id hid
    rw [top_makeFragments] at hid
    obtain ⟨n, hn, hne⟩ := h.top id hid
    exact ⟨n, hgrow.node?_of_some hn, hne⟩

lemma makeTag (h : t.Layered) (name : Text) (r : Reading) : (t.makeTag name r).1.Layered :=
  (h.makeFragments name r).make fun _ => node?_of_mem_fragments_makeFragments

/-- A node may be replaced by another one that is a fragment exactly if the old one is. -/
lemma replace (h : t.Layered) (hm : t.node? id = some m)
    (hn : ∀ f ∈ n.fragments, ∃ text, t.node? f = some (.fragment text))
    (hkind : (∃ text, n = .fragment text) ↔ ∃ text, m = .fragment text) :
    (t.replace id n).Layered := by
  have hlt : id < t.nodes.size := lt_size_of_node? hm
  have hold : ∀ {f}, (∃ text, t.node? f = some (.fragment text)) →
      ∃ text, (t.replace id n).node? f = some (.fragment text) := by
    rintro f ⟨text, hf⟩
    by_cases he : f = id
    · subst he
      obtain ⟨text', rfl⟩ := hkind.2 ⟨text, Option.some.inj (hm.symm.trans hf)⟩
      exact ⟨text', node?_replace_self _ hlt⟩
    · exact ⟨text, (node?_replace_of_ne t n he).trans hf⟩
  constructor
  · intro id' f hf
    rw [fragments_replace n hlt] at hf
    split_ifs at hf
    · exact hold (hn f hf)
    · exact hold (h.fragment hf)
  · intro id' hid'
    obtain ⟨m', hm', hne⟩ := h.top id' hid'
    by_cases he : id' = id
    · subst he
      obtain rfl : m' = m := Option.some.inj (hm'.symm.trans hm)
      refine ⟨n, node?_replace_self n hlt, fun text htext => ?_⟩
      obtain ⟨text', hfragment⟩ := hkind.1 ⟨text, htext⟩
      exact hne text' hfragment
    · exact ⟨m', (node?_replace_of_ne t n he).trans hm', hne⟩

end Layered

/-! ### Forests -/

namespace Forest

variable {t t' : Tree} {id : Nat} {n : Node}

lemma lt_size_of_mem_fragments (h : t.Forest) {f : Nat} (hf : f ∈ t.fragments id) :
    f < t.nodes.size :=
  h.layered.lt_size_of_mem_fragments hf

lemma lt_size_of_mem_top (h : t.Forest) (hid : id ∈ t.top) : id < t.nodes.size :=
  h.layered.lt_size_of_mem_top hid

/-- No fragment stands at the top. -/
lemma not_mem_top (h : t.Forest) {f : NodeId} (hf : f ∈ t.fragments id) : f ∉ t.top :=
  h.layered.not_mem_top hf

protected lemma empty : Forest {} := by
  constructor <;> simp [fragments, node?]

/-- A forest is one by its nodes, whatever its attributes are, and with fewer top nodes. -/
lemma congr (h : t.Forest) (hn : t'.nodes = t.nodes) (ht : t'.top ⊆ t.top) : t'.Forest := by
  have hlayered := h.layered.congr hn ht
  have hfrag : ∀ id, t'.fragments id = t.fragments id := fun id =>
    fragments_eq_of_node?_eq (by simp [node?, hn])
  refine ⟨hlayered.fragment, ?_, ?_, hlayered.top⟩
  · intro id id' f hf hf'
    exact h.owner (hfrag id ▸ hf) (hfrag id' ▸ hf')
  · intro id
    rw [hfrag]
    exact h.nodup id

lemma push (h : t.Forest) (hn : t.node? id = some n) (hne : ∀ text, n ≠ .fragment text) :
    (t.push id).Forest where
  fragment hf := h.fragment hf
  owner hf hf' := h.owner hf hf'
  nodup id := h.nodup id
  top := (h.layered.push hn hne).top

lemma make (h : t.Forest) (hn : t.Free n) : (t.make n).1.Forest := by
  have hlayered := h.layered.make hn.fragment
  refine ⟨hlayered.fragment, ?_, ?_, hlayered.top⟩
  · intro id id' f hf hf'
    rw [fragments_make] at hf hf'
    split_ifs at hf hf' with hid hid' hid'
    · rw [hid, hid']
    · exact absurd hf' (hn.unowned f hf id')
    · exact absurd hf (hn.unowned f hf' id)
    · exact h.owner hf hf'
  · intro id
    rw [fragments_make]
    split_ifs
    · exact hn.nodup
    · exact h.nodup id

lemma makeFragments (h : t.Forest) (name : Text) (r : Reading) :
    (t.makeFragments name r).1.Forest := by
  have hlayered := h.layered.makeFragments name r
  refine ⟨hlayered.fragment, ?_, ?_, hlayered.top⟩
  · intro id id' f hf hf'
    exact h.owner (mem_fragments_of_makeFragments hf).2 (mem_fragments_of_makeFragments hf').2
  · intro id
    rcases Nat.lt_or_ge id t.nodes.size with hid | hid
    · rw [(grows_makeFragments t name r).fragments hid]
      exact h.nodup id
    · have : (t.makeFragments name r).1.fragments id = [] := by
        rw [List.eq_nil_iff_forall_not_mem]
        exact fun f hf => Nat.not_lt.2 hid (mem_fragments_of_makeFragments hf).1
      rw [this]
      exact List.nodup_nil

lemma makeTag (h : t.Forest) (name : Text) (r : Reading) : (t.makeTag name r).1.Forest :=
  (h.makeFragments name r).make (free_makeFragments h name r)

/-- A node that is no fragment may be replaced by another one whose fragments are free. -/
lemma replace (h : t.Forest) (hn : t.Free n) (hne : ∀ text, n ≠ .fragment text)
    (hid : ∃ m, t.node? id = some m ∧ ∀ text, m ≠ .fragment text) : (t.replace id n).Forest := by
  obtain ⟨m, hm, hme⟩ := hid
  have hlt : id < t.nodes.size := lt_size_of_node? hm
  have hlayered := h.layered.replace hm hn.fragment
    (iff_of_false (fun ⟨text, heq⟩ => hne text heq) fun ⟨text, heq⟩ => hme text heq)
  refine ⟨hlayered.fragment, ?_, ?_, hlayered.top⟩
  · intro id₁ id₂ f hf hf'
    rw [fragments_replace n hlt] at hf hf'
    split_ifs at hf hf' with h₁ h₂ h₂
    · rw [h₁, h₂]
    · exact absurd hf' (hn.unowned f hf id₂)
    · exact absurd hf (hn.unowned f hf' id₁)
    · exact h.owner hf hf'
  · intro id'
    rw [fragments_replace n hlt]
    split_ifs
    · exact hn.nodup
    · exact h.nodup id'

end Forest

end DocComment.Tree
