import DocComment.Proofs.Block.Derives
import DocComment.Proofs.Token.Source

/-!
# The state of edited blocks

After any run of operations the state of a block agrees with its nodes (`run_state`): the notes say
which of the top nodes were read, the block is dirty just when the nodes differ from those that were
read, no fragment has two owners, and a node stays what it is until an operation answers with it.
-/

namespace DocComment.Block

/-- The block of a declaration, with its comment if it has one. -/
def ofComment (rules : Rules) (declaration? : Option Nat) (raw? : Option Text) : Block :=
  raw?.elim (empty rules declaration?) (read rules declaration?)

/-- No comment is read as the empty one is. -/
lemma ofComment_eq_read (rules : Rules) (declaration? : Option Nat) (raw? : Option Text) :
    ofComment rules declaration? raw? = read rules declaration? (raw?.getD []) := by
  cases raw? with
  | none => simp [ofComment, empty, read, Token.scan, Tree.ofTokens, Token.spans,
      Token.afterOpening, Token.indexed, contentIndexes, Span.group, Tree.lastPosition?]
  | some raw => rfl

lemma exists_unedited (rules : Rules) (declaration? : Option Nat) (raw? : Option Text) :
    ∃ spans cs, (ofComment rules declaration? raw?).tree.Unedited spans cs := by
  rw [ofComment_eq_read]
  exact ⟨_, _, Tree.unedited_ofTokens rules (Token.scan (raw?.getD []))⟩

/-! ### What a step keeps -/

section

variable {b b' : Block} {p : NodeId → Prop}

/-- What the changes of trees keep that steps are made of, a step keeps. -/
lemma tree_step {P : Tree → Prop}
    (hcongr : ∀ {t t' : Tree}, P t → t'.nodes = t.nodes → t'.top ⊆ t.top → P t')
    (hpush : ∀ {t : Tree} {id n}, P t → t.node? id = some n → (∀ text, n ≠ .fragment text) →
      P (t.push id))
    (hprose : ∀ {t : Tree} text, P t → P (t.make (.prose text)).1)
    (hmake : ∀ {t : Tree} name r, P t → P (t.makeTag name r).1)
    (hreread : ∀ {t : Tree} {id n} name r, P t → t.node? id = some n →
      (∀ text, n ≠ .fragment text) →
        P ((t.makeFragments name r).1.replace id (t.makeFragments name r).2))
    (hretype : ∀ {t : Tree} {id n} name value, P t → t.node? id = some n →
      (∀ text, n ≠ .fragment text) → P (t.replace id (.tag name value)))
    (h : P b.tree) (hs : Step p b b') : P b'.tree := by
  cases hs with
  | pushTag name r =>
    have hnode := Tree.node?_makeTag b.tree name r
    exact hcongr (hpush (hmake name r h) hnode (Tree.makeFragments_ne_fragment b.tree name r)) rfl
      (List.Subset.refl _)
  | pushProse text =>
    have hnode : (b.tree.make (.prose text)).1.node? b.tree.nodes.size = some (.prose text) := by
      simp [Tree.node?_make]
    exact hcongr (hpush (hprose text h) hnode (by simp)) rfl (List.Subset.refl _)
  | dropTags name =>
    unfold dropTags
    dsimp only
    split_ifs
    · exact h
    · exact hcongr h rfl (List.filter_subset_self _)
  | @rereadTag id n name r htop hnode htag hread hid =>
    unfold rereadTag
    dsimp only
    split_ifs
    · exact h
    · refine hcongr (hreread name r h hnode ?_) rfl (List.Subset.refl _)
      rintro text rfl
      cases htag
  | retype type htop hnode hid =>
    exact hcongr (hretype _ _ h hnode (by simp)) rfl (List.Subset.refl _)
  | withMark hid => exact hcongr h rfl (List.Subset.refl _)

lemma forest_step (h : b.tree.Forest) (hs : Step p b b') : b'.tree.Forest := by
  refine tree_step (P := Tree.Forest) (fun h => h.congr) (fun h => h.push)
    (fun _ h => h.make (Tree.Free.of_fragments_eq_nil rfl)) (fun name r h => h.makeTag name r)
    (fun {t id n} name r h hnode hne => ?_) (fun {t id n} name value h hnode hne => ?_) h hs
  · exact (h.makeFragments name r).replace (Tree.free_makeFragments h name r)
      (Tree.makeFragments_ne_fragment t name r)
      ⟨n, (Tree.grows_makeFragments t name r).node?_of_some hnode, hne⟩
  · exact h.replace (Tree.Free.of_fragments_eq_nil rfl) (by simp) ⟨n, hnode, hne⟩

lemma layered_step (h : b.tree.Layered) (hs : Step p b b') : b'.tree.Layered := by
  have hnone : ∀ {n : Node}, (∀ text, n ≠ .fragment text) → ¬ ∃ text, n = .fragment text :=
    fun hne ⟨text, heq⟩ => hne text heq
  refine tree_step (P := Tree.Layered) (fun h => h.congr) (fun h => h.push)
    (fun _ h => h.make (List.forall_mem_nil _)) (fun name r h => h.makeTag name r)
    (fun {t id n} name r h hnode hne => ?_) (fun {t id n} name value h hnode hne => ?_) h hs
  · exact (h.makeFragments name r).replace ((Tree.grows_makeFragments t name r).node?_of_some hnode)
      (fun _ => Tree.node?_of_mem_fragments_makeFragments)
      (iff_of_false (hnone (Tree.makeFragments_ne_fragment t name r)) (hnone hne))
  · exact h.replace hnode (List.forall_mem_nil _) (iff_of_false (hnone (by simp)) (hnone hne))

/-- A step keeps all nodes, and their content where it is not to change it. -/
lemma node?_step (hs : Step p b b') : b.tree.nodes.size ≤ b'.tree.nodes.size ∧
    ∀ id < b.tree.nodes.size, ¬ p id → b'.tree.node? id = b.tree.node? id := by
  cases hs with
  | pushTag name r =>
    have hgrows := Tree.grows_makeTag b.tree name r
    exact ⟨hgrows.size_le, fun id hid _ => hgrows.node? id hid⟩
  | pushProse text =>
    have hgrows := Tree.grows_make b.tree (.prose text)
    exact ⟨hgrows.size_le, fun id hid _ => hgrows.node? id hid⟩
  | dropTags name =>
    unfold dropTags
    dsimp only
    split_ifs
    · exact ⟨Nat.le_refl _, fun _ _ _ => rfl⟩
    · exact ⟨Nat.le_refl _, fun _ _ _ => rfl⟩
  | @rereadTag id n name r htop hnode htag hread hid =>
    unfold rereadTag
    dsimp only
    split_ifs
    · exact ⟨Nat.le_refl _, fun _ _ _ => rfl⟩
    · have hgrows := Tree.grows_makeFragments b.tree name r
      refine ⟨by simpa using hgrows.size_le, fun i hi hp => ?_⟩
      have hne : i ≠ id := by
        rintro rfl
        exact hp hid
      rw [Tree.node?_markChanged, Tree.node?_replace_of_ne _ _ hne, Tree.node?_markSynthesized]
      exact hgrows.node? i hi
  | @retype id name v type htop hnode hid =>
    refine ⟨by simp [withNode], fun i hi hp => ?_⟩
    have hne : i ≠ id := by
      rintro rfl
      exact hp hid
    exact Tree.node?_replace_of_ne _ _ hne
  | withMark hid => exact ⟨Nat.le_refl _, fun _ _ _ => rfl⟩

end

/-! ### What edits leave alone -/

lemma isModified_of_isSynthesized {t : Tree} {id : NodeId} (h : t.attributes.isSynthesized id) :
    t.isModified id := by
  simp [Tree.isModified, h]

/-- Whether a node is modified depends on the notes about it and its fragments. -/
lemma isModified_congr {t t' : Tree} {id : NodeId} (hf : t'.fragments id = t.fragments id)
    (h : ∀ i ∈ id :: t.fragments id, t'.attributes.isChanged i = t.attributes.isChanged i ∧
      t'.attributes.isSynthesized i = t.attributes.isSynthesized i) :
    t'.isModified id = t.isModified id := by
  rw [Bool.eq_iff_iff, Tree.isModified, Tree.isModified, hf, List.any_eq_true, List.any_eq_true]
  refine exists_congr fun i => and_congr_right fun hi => ?_
  rw [(h i hi).1, (h i hi).2]

/-- A node, those below it and the notes about them are in `b'` as they are in `b`. -/
structure Keeps (b b' : Block) (id : NodeId) : Prop where
  node? : ∀ i ∈ id :: b.tree.fragments id, b'.tree.node? i = b.tree.node? i
  get? : ∀ i ∈ id :: b.tree.fragments id, ∀ key,
    b'.tree.attributes.get? (.node i) key = b.tree.attributes.get? (.node i) key

namespace Keeps

variable {b b' b'' : Block} {id : NodeId}

protected lemma refl (b : Block) (id : NodeId) : Keeps b b id := ⟨fun _ _ => rfl, fun _ _ _ => rfl⟩

lemma fragments (h : Keeps b b' id) : b'.tree.fragments id = b.tree.fragments id :=
  Tree.fragments_eq_of_node?_eq (h.node? id List.mem_cons_self)

protected lemma trans (h : Keeps b b' id) (h' : Keeps b' b'' id) : Keeps b b'' id where
  node? i hi := (h'.node? i (h.fragments ▸ hi)).trans (h.node? i hi)
  get? i hi key := (h'.get? i (h.fragments ▸ hi) key).trans (h.get? i hi key)

lemma content? (h : Keeps b b' id) : b'.tree.content? id = b.tree.content? id :=
  Tree.content?_congr h.node?

lemma isModified (h : Keeps b b' id) : b'.tree.isModified id = b.tree.isModified id := by
  refine isModified_congr h.fragments fun i hi => ?_
  simp only [Attribute.Table.isChanged, Attribute.Table.isSynthesized, h.get? i hi, and_self]

end Keeps

section

variable {b : Block} {id i : NodeId} (name : Text) (r : Reading)

/-- Nodes that are made and put at the end leave those in front of them as they are. -/
lemma keeps_of_grows {b' : Block} (h : b.tree.Layered) (hid : id ∈ b.tree.top) {made : Tree}
    {ids : List NodeId} {last : NodeId} (hgrows : b.tree.Grows made)
    (hattributes : made.attributes = b.tree.attributes) (hnew : ∀ i ∈ ids, b.tree.nodes.size ≤ i)
    (hb' : b'.tree = (made.markSynthesized ids).push last) : Keeps b b' id := by
  have hold : ∀ i ∈ id :: b.tree.fragments id, i < b.tree.nodes.size :=
    List.forall_mem_cons.2 ⟨h.lt_size_of_mem_top hid, fun i => h.lt_size_of_mem_fragments⟩
  refine ⟨fun i hi => ?_, fun i hi key => ?_⟩
  · rw [hb']
    exact hgrows.node? i (hold i hi)
  · rw [hb', Tree.attributes_push, Tree.markSynthesized, hattributes]
    exact Attribute.Table.get?_foldl_markSynthesized _
      (fun hmem => Nat.not_lt.2 (hnew i hmem) (hold i hi)) key

lemma keeps_pushTag (h : b.tree.Layered) (hid : id ∈ b.tree.top) :
    Keeps b (b.pushTag name r).1 id :=
  keeps_of_grows h hid (Tree.grows_makeTag b.tree name r) (Tree.attributes_makeTag ..)
    (fun _ => Tree.size_le_of_mem_makeTag b.tree name r) rfl

lemma keeps_pushProse (h : b.tree.Layered) (hid : id ∈ b.tree.top) (text : Text) :
    Keeps b (b.pushProse text).1 id :=
  keeps_of_grows h hid (Tree.grows_make b.tree (.prose text)) (Tree.attributes_make ..)
    (List.forall_mem_singleton.2 le_rfl) rfl

lemma keeps_dropTags (b : Block) (id : NodeId) : Keeps b (b.dropTags name).1 id := by
  unfold dropTags
  dsimp only
  split_ifs
  · exact Keeps.refl b id
  · exact ⟨fun _ _ => rfl, fun _ _ _ => rfl⟩

/-- Reading a tag anew leaves all other top nodes as they are. -/
lemma keeps_rereadTag (h : b.tree.Layered) (hid : id ∈ b.tree.top) (hi : i ∈ b.tree.top)
    (hne : i ≠ id) : Keeps b (b.rereadTag id name r) i := by
  have hold : ∀ j ∈ i :: b.tree.fragments i, j < b.tree.nodes.size ∧ j ≠ id := by
    refine List.forall_mem_cons.2 ⟨⟨h.lt_size_of_mem_top hi, hne⟩, fun j hj => ?_⟩
    refine ⟨h.lt_size_of_mem_fragments hj, ?_⟩
    rintro rfl
    exact h.not_mem_top hj hid
  unfold rereadTag
  dsimp only
  split_ifs
  · exact Keeps.refl b i
  · refine ⟨fun j hj => ?_, fun j hj key => ?_⟩
    · rw [Tree.node?_markChanged, Tree.node?_replace_of_ne _ _ (hold j hj).2]
      exact (Tree.grows_makeFragments b.tree name r).node? j (hold j hj).1
    · have hnot : j ∉ (b.tree.makeFragments name r).2.fragments := by
        rw [Tree.fragments_makeFragments, List.mem_range'_1]
        exact fun hmade => Nat.not_lt.2 hmade.1 (hold j hj).1
      refine (Attribute.Table.get?_markChanged_of_ne _ (hold j hj).2 key).trans ?_
      refine (Attribute.Table.get?_foldl_markSynthesized _ hnot key).trans ?_
      rw [Tree.attributes_makeFragments]

/-- A tag is marked as changed if reading it anew changes anything. -/
lemma isModified_rereadTag {name : Text} {r : Reading} (h : b.rereadTag id name r ≠ b) :
    (b.rereadTag id name r).tree.isModified id := by
  revert h
  unfold rereadTag
  dsimp only
  split_ifs
  · exact fun h => absurd rfl h
  · exact fun _ => by simp [Tree.isModified, Tree.markChanged]

lemma content?_pushTag (b : Block) : (b.pushTag name r).1.tree.content? (b.pushTag name r).2 =
    some (r.content name) :=
  (Tree.content?_congr fun _ _ => rfl).trans (Tree.content?_makeTag b.tree name r)

lemma content?_rereadTag (hid : id < b.tree.nodes.size) :
    (b.rereadTag id name r).tree.content? id = some (r.content name) := by
  unfold rereadTag
  dsimp only
  split_ifs with hsame
  · rw [Tree.content?, hsame.2, Option.map_some, ← Tree.contentOf_makeFragments b.tree name r]
    exact congrArg some (Tree.contentOf_congr fun f hf => by simp [hsame.1] at hf)
  · exact (Tree.content?_congr fun _ _ => rfl).trans
      (Tree.content?_replace_makeFragments b.tree name r hid)

end

/-! ### When a block is dirty -/

/-- A change of a node is a change of the nodes above it. -/
lemma exists_isModified_of_contains {t : Tree} {id : NodeId} (h : t.contains id)
    (hc : t.attributes.isChanged id) : ∃ i ∈ t.top, t.isModified i := by
  rw [Tree.contains, List.any_eq_true] at h
  obtain ⟨i, hi, hid⟩ := h
  refine ⟨i, hi, ?_⟩
  rw [Tree.isModified, List.any_eq_true]
  refine ⟨id, ?_, by simp [hc]⟩
  rcases Bool.or_eq_true_iff.1 hid with hid | hid
  · exact List.mem_cons.2 (.inl (by simpa using hid : i = id).symm)
  · exact List.mem_cons.2 (.inr (by simpa using hid))

/-- What a block knows about the edits that were made to it. -/
structure Accounts (b₀ b : Block) : Prop where
  derives : Derives b₀ b
  removedRead : b.removedRead ↔ ∃ id ∈ b₀.tree.top, id ∉ b.tree.top
  dirty : b.dirty ↔ b.removedRead ∨ ∃ id ∈ b.tree.top, b.tree.isModified id

namespace Accounts

variable {b₀ b b' : Block} {spans : List Span} {cs : List Node.Content} {p : NodeId → Prop}

/-- Edits that remove nothing leave a node that is new or changed. -/
lemma of_modified (h : Accounts b₀ b) (hd : Derives b₀ b')
    (htop : ∀ id ∈ b₀.tree.top, id ∈ b'.tree.top ↔ id ∈ b.tree.top)
    (hremoved : b'.removedRead = b.removedRead) (hdirty : b'.dirty = true)
    (hmodified : ∃ id ∈ b'.tree.top, b'.tree.isModified id) : Accounts b₀ b' where
  derives := hd
  removedRead := by
    rw [hremoved, h.removedRead]
    constructor
    · rintro ⟨id, hread, hid⟩
      exact ⟨id, hread, fun hid' => hid ((htop id hread).1 hid')⟩
    · rintro ⟨id, hread, hid⟩
      exact ⟨id, hread, fun hid' => hid ((htop id hread).2 hid')⟩
  dirty := iff_of_true hdirty (.inr hmodified)

lemma dropTags (h : Accounts b₀ b) (h₀ : b₀.tree.Unedited spans cs) (name : Text) :
    Accounts b₀ (b.dropTags name).1 := by
  have hd := h.derives.step (Step.dropTags (p := fun _ => True) b name)
  revert hd
  unfold Block.dropTags
  dsimp only
  split_ifs with hremoved
  · exact fun _ => h
  · intro hd
    refine ⟨hd, ?_, ?_⟩ <;> dsimp only
    swap
    · rw [Bool.or_eq_true, List.any_eq_true]
    rw [Bool.or_eq_true, h.removedRead, List.any_eq_true]
    constructor
    · rintro (⟨id, hread, hid⟩ | ⟨id, hid, hspan⟩)
      · exact ⟨id, hread, fun hid' => hid (List.mem_of_mem_filter hid')⟩
      · rw [List.mem_filter] at hid
        refine ⟨id, (h.derives.isSome_span?_iff h₀ hid.1).1 hspan, fun hid' => ?_⟩
        simpa [hid.2] using (List.mem_filter.1 hid').2
    · rintro ⟨id, hread, hid⟩
      by_cases htop : id ∈ b.tree.top
      · refine .inr ⟨id, ?_, (h.derives.isSome_span?_iff h₀ htop).2 hread⟩
        rw [List.mem_filter] at hid ⊢
        exact ⟨htop, by simpa [htop] using hid⟩
      · exact .inl ⟨id, hread, htop⟩

lemma step (h : Accounts b₀ b) (h₀ : b₀.tree.Unedited spans cs) (hs : Step p b b') :
    Accounts b₀ b' := by
  have hd := h.derives.step hs
  -- A new node is none of those that were read.
  have hfresh : ∀ {id i : Nat}, id ∈ b₀.tree.top → b.tree.nodes.size ≤ i → id ≠ i := by
    intro id i hid hi
    have := h₀.forest.lt_size_of_mem_top hid
    have := h.derives.size_le
    omega
  cases hs with
  | pushTag name r =>
    refine h.of_modified hd (fun id hid => ?_) rfl rfl
      ⟨_, mem_top_pushTag b name r, isModified_of_isSynthesized ?_⟩
    · have hne := hfresh hid (Tree.size_le_makeTag_snd b.tree name r)
      simp [pushTag, hne]
    · simp [pushTag, Tree.markSynthesized]
  | pushProse text =>
    refine h.of_modified hd (fun id hid => ?_) rfl rfl
      ⟨_, mem_top_pushProse b text, isModified_of_isSynthesized ?_⟩
    · have hne := hfresh hid (Nat.le_refl _)
      simp [pushProse, hne]
    · simp [pushProse, Tree.markSynthesized]
  | dropTags name => exact h.dropTags h₀ name
  | @rereadTag id n name r htop hnode htag hread hid =>
    revert hd
    unfold rereadTag
    dsimp only
    split_ifs
    · exact fun _ => h
    · intro hd
      refine h.of_modified hd (fun i _ => by simp) rfl rfl
        (@exists_isModified_of_contains _ id (contains_of_mem_top (by simpa using htop)) ?_)
      simp [Tree.markChanged]
  | @retype id name v type htop hnode hid =>
    refine h.of_modified hd (fun i _ => Iff.rfl) rfl rfl
      (@exists_isModified_of_contains _ id (contains_of_mem_top htop) ?_)
    simp [withNode, Tree.markChanged]
  | @withMark id hid =>
    refine h.of_modified hd (fun i _ => Iff.rfl) rfl rfl
      (@exists_isModified_of_contains _ id hid ?_)
    simp [withMark, Tree.markChanged]

end Accounts

lemma accounts_run {b : Block} {spans : List Span} {cs : List Node.Content}
    (h : b.tree.Unedited spans cs) (hdirty : b.dirty = false) (hremoved : b.removedRead = false)
    (os : List Operation) : Accounts b (b.run os) := by
  refine run_induction (fun hs ha => ha.step h hs) os ⟨Derives.refl h.isSynthesized, ?_, ?_⟩
  · simp [hremoved]
  · simp [hdirty, hremoved, Tree.isModified, h.isChanged, h.isSynthesized]

/-! ### Nodes of earlier states -/

/-- Some operation of the run answers with this node. -/
def Answers (b : Block) (os : List Operation) (id : NodeId) : Prop :=
  ∃ before o after, os = before ++ o :: after ∧ (o.apply (b.run before)).1 = .ok (.node id)

section

variable {b : Block} {os : List Operation}

lemma forest_run (h : b.tree.Forest) (os : List Operation) : (b.run os).tree.Forest :=
  run_induction (fun hs h => forest_step h hs) os h

lemma node?_steps {p : NodeId → Prop} {b' : Block} (h : Steps p b b') :
    b.tree.nodes.size ≤ b'.tree.nodes.size ∧
      ∀ id < b.tree.nodes.size, ¬ p id → b'.tree.node? id = b.tree.node? id := by
  induction h with
  | refl => exact ⟨Nat.le_refl _, fun _ _ _ => rfl⟩
  | tail _ hs ih =>
    obtain ⟨hle, hnode⟩ := node?_step hs
    refine ⟨Nat.le_trans ih.1 hle, fun id hid hp => ?_⟩
    exact (hnode id (Nat.lt_of_lt_of_le hid ih.1) hp).trans (ih.2 id hid hp)

lemma node?_run (os : List Operation) : b.tree.nodes.size ≤ (b.run os).tree.nodes.size ∧
    ∀ id < b.tree.nodes.size, ¬ Answers b os id →
      (b.run os).tree.node? id = b.tree.node? id := by
  induction os generalizing b with
  | nil => exact ⟨Nat.le_refl _, fun _ _ _ => rfl⟩
  | cons o os ih =>
    obtain ⟨hle, hnode⟩ := node?_steps (steps_apply b o).1
    obtain ⟨hle', hnode'⟩ := @ih (o.apply b).2
    refine ⟨Nat.le_trans hle hle', fun id hid hn => ?_⟩
    rw [← hnode id hid fun ha => hn ⟨[], o, os, rfl, ha⟩]
    refine hnode' id (Nat.lt_of_lt_of_le hid hle) ?_
    rintro ⟨before, o', after, rfl, ha⟩
    exact hn ⟨o :: before, o', after, rfl, ha⟩

/-- The fragments of a node that no operation answers with are in no answer themselves. -/
lemma not_answers_of_mem_fragments (h : b.tree.Forest) {id f : Nat} (hid : id < b.tree.nodes.size)
    (hn : ¬ Answers b os id) (hf : f ∈ b.tree.fragments id) : ¬ Answers b os f := by
  rintro ⟨before, o, after, rfl, ha⟩
  have hrun : b.run (before ++ [o]) = (o.apply (b.run before)).2 := run_append b before [o]
  have hn' : ¬ Answers b (before ++ [o]) id := by
    rintro ⟨before', o', after', he, ha'⟩
    exact hn ⟨before', o', after' ++ after, by simpa using congrArg (· ++ after) he, ha'⟩
  have hsame := (node?_run (before ++ [o])).2 id hid hn'
  have hf' : f ∈ (b.run (before ++ [o])).tree.fragments id := by
    rwa [Tree.fragments_eq_of_node?_eq hsame]
  have htop := (steps_apply (b.run before) o).2 f ha
  rw [← hrun] at htop
  exact (forest_run h _).not_mem_top hf' htop

/-- A node says the same until an operation answers with it. -/
lemma content?_run (h : b.tree.Forest) {id : Nat} (hid : id < b.tree.nodes.size)
    (hn : ¬ Answers b os id) : (b.run os).tree.content? id = b.tree.content? id := by
  refine Tree.content?_congr fun i hi => ?_
  rcases List.mem_cons.1 hi with rfl | hi
  · exact (node?_run os).2 i hid hn
  · exact (node?_run os).2 i (h.lt_size_of_mem_fragments hi)
      (not_answers_of_mem_fragments h hid hn hi)

end

/-! ### The state after a run -/

/-- How the state of an edited block `b` agrees with the block `b₀` that was read. -/
structure Sound (b₀ b : Block) : Prop where
  /-- What is left of the nodes that were read stands before the new ones. -/
  top : ∃ kept new : List NodeId, b.tree.top = kept ++ new ∧ kept.Sublist b₀.tree.top ∧
    new.Pairwise (· < ·) ∧ ∀ id ∈ new, b₀.tree.nodes.size ≤ id
  nodup : b.tree.top.Nodup
  span? : ∀ id ∈ b.tree.top, (b.tree.attributes.span? id).isSome ↔ id ∈ b₀.tree.top
  isSynthesized : ∀ id ∈ b.tree.top, b.tree.attributes.isSynthesized id ↔ id ∉ b₀.tree.top
  dirty : b.dirty ↔
    (∃ id ∈ b₀.tree.top, id ∉ b.tree.top) ∨ ∃ id ∈ b.tree.top, b.tree.isModified id
  forest : b.tree.Forest

/-- After any run the state is sound, an answer is a node of the comment, and nodes stay what they
are until an operation answers with them. -/
theorem run_state (rules : Rules) (declaration? : Option Nat) (raw? : Option Text)
    (os : List Operation) :
    let b₀ := ofComment rules declaration? raw?
    let b := b₀.run os
    Sound b₀ b ∧
      (∀ (o : Operation) (id : NodeId), (o.apply b).1 = .ok (.node id) →
        id ∈ (o.apply b).2.tree.top) ∧
      ∀ os' id, id < b.tree.nodes.size →
        (∃ n, (b.run os').tree.node? id = some n) ∧
        (¬ Answers b os' id → (b.run os').tree.node? id = b.tree.node? id ∧
          (b.run os').tree.content? id = b.tree.content? id) := by
  intro b₀ b
  obtain ⟨_, _, h₀⟩ := exists_unedited rules declaration? raw?
  have hread := ofComment_eq_read rules declaration? raw?
  have haccounts : Accounts b₀ b := accounts_run h₀ (by rw [hread]; rfl) (by rw [hread]; rfl) os
  have hforest : b.tree.Forest := forest_run h₀.forest os
  refine ⟨⟨?_, haccounts.derives.nodup_top h₀,
    fun id hid => haccounts.derives.isSome_span?_iff h₀ hid,
    fun id hid => haccounts.derives.isSynthesized_iff h₀ hid, ?_, hforest⟩,
    fun o => (steps_apply b o).2, fun os' id hid => ⟨?_, fun hn => ⟨?_, ?_⟩⟩⟩
  · obtain ⟨kept, new, hkn, hsub, hsorted, hids⟩ := haccounts.derives.top
    exact ⟨kept, new, hkn, hsub, hsorted, fun id hid => (hids id hid).1⟩
  · rw [haccounts.dirty, haccounts.removedRead]
  · exact Tree.exists_node? (Nat.lt_of_lt_of_le hid (node?_run os').1)
  · exact (node?_run os').2 id hid hn
  · exact content?_run hforest hid hn

end DocComment.Block
