import DocComment.Proofs.Block.Commuting

/-!
# Removing a tag that was just added

A tag that is added under a name which no tag had is removed again under that name. What is left is
the block from before, but for the numbers that the new nodes have used up (`Restored`): the same
nodes stand in the comment, with the same attributes, and the block prints as before.

Adding makes the block dirty, and removing finds out anew whether it is. That this comes out as
before needs that the mark agreed with the nodes already, as it does after any run of operations
(`Accounts.dirty`).
-/

namespace DocComment.Block

open Text

variable {b b' : Block} {name payload : Text} {id : NodeId}

/-! ### What a block has -/

/-- The block `b'` has the text, the nodes and the attributes of `b`, and maybe more nodes. -/
structure Holds (b b' : Block) : Prop where
  declaration? : b'.declaration? = b.declaration?
  raw : b'.raw = b.raw
  tokens : b'.tokens = b.tokens
  rules : b'.rules = b.rules
  node? : ∀ id < b.tree.nodes.size, b'.tree.node? id = b.tree.node? id
  get? : ∀ id < b.tree.nodes.size, ∀ key,
    b'.tree.attributes.get? (.node id) key = b.tree.attributes.get? (.node id) key
  get?_root : ∀ key, b'.tree.attributes.get? .root key = b.tree.attributes.get? .root key

namespace Holds

lemma pushTag (b : Block) (name : Text) (r : Reading) : Holds b (b.pushTag name r).1 := by
  let new := (b.tree.makeTag name r).2 ::
    (b.tree.makeTag name r).1.fragments (b.tree.makeTag name r).2
  have hattributes : (b.pushTag name r).1.tree.attributes =
      new.foldl Attribute.Table.markSynthesized b.tree.attributes := by
    simp [new, Block.pushTag, Tree.markSynthesized]
  have hnew : ∀ id < b.tree.nodes.size, id ∉ new := fun id hid hmem =>
    Nat.not_lt.2 (Tree.size_le_of_mem_makeTag b.tree name r hmem) hid
  refine ⟨rfl, rfl, rfl, rfl, (Tree.grows_makeTag b.tree name r).node?, fun id hid key => ?_,
    fun key => ?_⟩
  · rw [hattributes, Attribute.Table.get?_foldl_markSynthesized _ (hnew id hid)]
  · rw [hattributes, Attribute.Table.get?_root_foldl_markSynthesized]

/-- The nodes at the top may be others. -/
lemma withTop (h : Holds b b') (top : List NodeId) (removedRead dirty : Bool) :
    Holds b (b'.withTop top removedRead dirty) :=
  ⟨h.declaration?, h.raw, h.tokens, h.rules, h.node?, h.get?, h.get?_root⟩

lemma lastTokenPosition? (h : Holds b b') :
    b'.tree.attributes.lastTokenPosition? = b.tree.attributes.lastTokenPosition? := by
  simp only [Attribute.Table.lastTokenPosition?, h.get?_root]

lemma keeps (h : Holds b b') (hlayered : b.tree.Layered) (hid : id ∈ b.tree.top) :
    Keeps b b' id := by
  have hlt : ∀ i ∈ id :: b.tree.fragments id, i < b.tree.nodes.size :=
    List.forall_mem_cons.2
      ⟨hlayered.lt_size_of_mem_top hid, fun i => hlayered.lt_size_of_mem_fragments⟩
  exact ⟨fun i hi => h.node? i (hlt i hi), fun i hi => h.get? i (hlt i hi)⟩

end Holds

/-- The block `b'` is `b` again, but for nodes that do not stand in the comment. -/
structure Restored (b b' : Block) : Prop extends Holds b b' where
  top : b'.tree.top = b.tree.top
  dirty : b'.dirty = b.dirty
  removedRead : b'.removedRead = b.removedRead

/-! ### Printing -/

namespace Keeps

lemma span? (h : Keeps b b' id) :
    b'.tree.attributes.span? id = b.tree.attributes.span? id := by
  simp only [Attribute.Table.span?, h.get? id List.mem_cons_self]

lemma write (h : Keeps b b' id) (hrules : b'.rules = b.rules) (hid : id < b.tree.nodes.size) :
    b'.write id = b.write id := by
  obtain ⟨n, hn⟩ := Tree.exists_node? hid
  have hcontent : b.tree.content? id = some (b.tree.contentOf n) := by
    rw [Tree.content?, hn, Option.map_some]
  rw [Block.write, Block.write, hrules, Tree.write_eq_of_content? hcontent,
    Tree.write_eq_of_content? (h.content?.trans hcontent)]

end Keeps

namespace Restored

section

variable (h : Restored b b') (hlayered : b.tree.Layered)

include h hlayered

lemma nodeText (l : Layout) (hid : id ∈ b.tree.top) : b'.nodeText l id = b.nodeText l id := by
  have hkeeps := h.keeps hlayered hid
  rw [Block.nodeText, Block.nodeText, hkeeps.span?, hkeeps.isModified, h.tokens,
    hkeeps.write h.rules (hlayered.lt_size_of_mem_top hid)]

lemma separatorText (l : Layout) (hid : id ∈ b.tree.top) :
    b'.separatorText l id = b.separatorText l id := by
  rw [Block.separatorText, Block.separatorText, (h.keeps hlayered hid).span?, h.tokens]

lemma printLaidOut (l : Layout) : b'.printLaidOut l = b.printLaidOut l := by
  have hheader : b'.headerText l = b.headerText l := by
    rw [headerText, headerText, h.tokens]
  have htrailer : b'.trailerText l = b.trailerText l := by
    rw [trailerText, trailerText, h.raw]
  rw [Block.printLaidOut, Block.printLaidOut, hheader, htrailer, h.top]
  cases htop : b.tree.top with
  | nil => rfl
  | cons first rest =>
    have hmem : ∀ i ∈ first :: rest, i ∈ b.tree.top := fun i hi => htop ▸ hi
    have hrest : (rest.flatMap fun i => b'.separatorText l i ++ b'.nodeText l i) =
        rest.flatMap fun i => b.separatorText l i ++ b.nodeText l i := by
      refine List.flatMap_congr fun i hi => ?_
      have hi' := hmem i (List.mem_cons_of_mem _ hi)
      rw [h.separatorText hlayered l hi', h.nodeText hlayered l hi']
    dsimp only
    rw [h.nodeText hlayered l (hmem first List.mem_cons_self), hrest]

lemma printCanonical (lineStart : Text) :
    b'.printCanonical lineStart = b.printCanonical lineStart := by
  rw [Block.printCanonical, Block.printCanonical, h.top]
  congr 2
  refine List.flatMap_congr fun i hi => ?_
  rw [(h.keeps hlayered hi).write h.rules (hlayered.lt_size_of_mem_top hi)]

lemma print (p : Printer) (indent : Text) : b'.print p indent = b.print p indent := by
  have hlayout : b'.layout? p indent = b.layout? p indent := by
    rw [layout?, layout?, h.tokens, h.lastTokenPosition?, h.top]
  rw [Block.print, Block.print, h.dirty, h.raw, h.top, hlayout, h.printCanonical hlayered]
  cases b.layout? p indent with
  | none => rfl
  | some l => simp only [h.printLaidOut hlayered]

end

end Restored

/-! ### Adding and removing -/

/-- The only tag of its name is removed, and the block is left with what stood there before it was
added. Whether it is dirty depends on this alone. -/
lemma Accounts.restored_dropTags {b₀ : Block} {spans : List Span} {cs : List Node.Content}
    (h : Accounts b₀ b) (h₀ : b₀.tree.Unedited spans cs) (hlayered : b.tree.Layered)
    (r : Reading) (hnone : b.tagsNamed name = []) :
    Restored b ((b.pushTag (bareName name) r).1.dropTags (bareName name)).1 := by
  let added := (b.pushTag (bareName name) r).1
  let new := (b.pushTag (bareName name) r).2
  have htags : added.tagsNamed name = [new] := by
    rw [tagsNamed_pushTag hlayered, hnone, List.nil_append]
  have hge : b.tree.nodes.size ≤ new := Tree.size_le_makeTag_snd b.tree (bareName name) r
  -- All that stood in the comment is left.
  have hothers : added.others name = b.tree.top := by
    have htop : added.tree.top = b.tree.top ++ [new] := by simp [added, new, Block.pushTag]
    have hne : ∀ i ∈ b.tree.top, i ≠ new := fun i hi =>
      Nat.ne_of_lt (Nat.lt_of_lt_of_le (hlayered.lt_size_of_mem_top hi) hge)
    rw [others_eq_filter, htags, htop, List.filter_append]
    simpa using hne
  -- The new tag was not read.
  have hread : added.anyRead [new] = false := by
    have hspan : added.tree.attributes.span? new = none := by
      simpa [added, Block.pushTag, Tree.markSynthesized, h.derives.span?] using
        h₀.span?_eq_none new (Nat.le_trans h.derives.size_le hge)
    simp [anyRead, hspan]
  have hdirty : (b.removedRead || b.tree.top.any added.tree.isModified) = b.dirty := by
    rw [Bool.eq_iff_iff, h.dirty, Bool.or_eq_true, List.any_eq_true]
    refine or_congr_right (exists_congr fun i => and_congr_right fun hi => ?_)
    rw [(keeps_pushTag (bareName name) r hlayered hi).isModified]
  have hdrop : added.dropTags (bareName name) =
      (added.withTop b.tree.top b.removedRead b.dirty, [new]) := by
    have hremoved : (added.removedRead || added.anyRead [new]) = b.removedRead := by
      rw [hread, Bool.or_false]
      rfl
    rw [dropTags_of_ne_nil (htags ▸ List.cons_ne_nil _ _), htags, hothers, hremoved, settle, hdirty]
  change Restored b (added.dropTags (bareName name)).1
  rw [hdrop]
  exact { (Holds.pushTag b (bareName name) r).withTop _ _ _ with
    top := rfl, dirty := rfl, removedRead := rfl }

/-- After any run of operations, adding a tag under a new name and removing it again leaves the
nodes, their attributes, the mark of the block and what it prints as they were. -/
theorem restored_removeTags_addTag (rules : Rules) (declaration? : Option Nat) (raw? : Option Text)
    (os : List Operation) {name payload : Text} {id : NodeId} {b₁ : Block} :
    let b := (ofComment rules declaration? raw?).run os
    b.tagsNamed name = [] → outcome (addTag name payload) b = (.ok id, b₁) →
      ∃ b₂, outcome (removeTags name) b₁ = (.ok 1, b₂) ∧ Restored b b₂ ∧
        ∀ p indent, b₂.print p indent = b.print p indent := by
  intro b hnone hadd
  have hread := ofComment_eq_read rules declaration? raw?
  obtain ⟨_, _, h₀⟩ := exists_unedited rules declaration? raw?
  have haccounts : Accounts (ofComment rules declaration? raw?) b :=
    accounts_run h₀ (by rw [hread]; rfl) (by rw [hread]; rfl) os
  have hlayered : b.tree.Layered := (forest_run h₀.forest os).layered
  obtain ⟨hname, -, hpush⟩ := pushTag_of_addTag hadd
  let r := b.rules.resolve (bareName name) (trim payload)
  obtain ⟨rfl, rfl⟩ : (b.pushTag (bareName name) r).1 = b₁ ∧ (b.pushTag (bareName name) r).2 = id :=
    Prod.mk.inj hpush
  have hremove := outcome_removeTags (b.pushTag (bareName name) r).1 name
  have hrestored := haccounts.restored_dropTags h₀ hlayered r hnone
  simp only [hname, dropTags_snd, tagsNamed_pushTag hlayered, hnone] at hremove
  exact ⟨_, hremove, hrestored, hrestored.print hlayered⟩

/-- A method is added to a block that was edited before, and removed again. -/
theorem restored_removeTags_addTag_method :
    let b := (ofComment .standard none (some "/** A.\n * @a x\n * @b y\n */".toList)).run
      [.removeTags "a".toList, .addTag "c".toList "z".toList, .replaceTag "b".toList "w".toList]
    ∃ id b₁ b₂, b.tagsNamed "@method".toList = [] ∧
      outcome (addTag "@method".toList "f(int $d)".toList) b = (.ok id, b₁) ∧
      outcome (removeTags "@method".toList) b₁ = (.ok 1, b₂) ∧ Restored b b₂ ∧ b₂.dirty = true ∧
      b₂.print {} [] = "/** A.\n * @b w\n * @c z\n */".toList := by
  intro b
  have hnone : b.tagsNamed "@method".toList = [] := by decide +kernel
  have hdirty : b.dirty = true := by decide +kernel
  have hprint : b.print {} [] = "/** A.\n * @b w\n * @c z\n */".toList := by decide +kernel
  have hcheck : checkTag "@method".toList "f(int $d)".toList = .ok "method".toList := by rfl
  have hadd := outcome_addTag b "@method".toList "f(int $d)".toList
  simp only [hcheck] at hadd
  obtain ⟨b₂, hremove, hrestored, hprinted⟩ := restored_removeTags_addTag .standard none
    (some "/** A.\n * @a x\n * @b y\n */".toList)
    [.removeTags "a".toList, .addTag "c".toList "z".toList, .replaceTag "b".toList "w".toList]
    hnone hadd
  exact ⟨_, _, b₂, hnone, hadd, hremove, hrestored, hrestored.dirty.trans hdirty,
    (hprinted {} []).trans hprint⟩

end DocComment.Block
