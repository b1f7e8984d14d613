import DocComment.Proofs.Block.Denoted

/-!
# Removing tags before or after another edit

Where tags are removed, other nodes stand in the comment than before; the nodes themselves and the
notes about them are left alone. So an edit of other nodes does the same to them before and after
the removal. Whether the block is dirty comes out the same too: it stays so because of what the edit
has made or marked, and this is not removed (`Spares`).

Hence removing tags and an operation on nodes that are neither these tags nor below them may change
places (`removeTags_comm_act`).
-/

namespace DocComment.Block

open Text

variable {b b' : Block} {name other payload : Text} {id : NodeId} {added : List NodeId}

/-! ### Edits that spare the tags of a name -/

/-- The block with these nodes at the top, and what it knows about the edits. -/
def withTop (b : Block) (top : List NodeId) (removedRead dirty : Bool) : Block :=
  { b with tree := { b.tree with top }, removedRead, dirty }

/-- Removing tags leaves the nodes and the notes about them. -/
lemma exists_withTop (b : Block) (name : Text) :
    ∃ top removedRead dirty, (b.dropTags name).1 = b.withTop top removedRead dirty := by
  unfold dropTags
  dsimp only
  split_ifs <;> exact ⟨_, _, _, rfl⟩

/-- The block `b'` has the nodes `added` behind those of `b`, and one that is new or changed. This
one and `added` are not among the tags of the name, which are the same in both blocks. -/
structure Spares (name : Text) (b b' : Block) (added : List NodeId) : Prop where
  top : b'.tree.top = b.tree.top ++ added
  isTagNamed : ∀ id ∈ b.tree.top,
    (b'.tree.node? id).any (isTagNamed name) = (b.tree.node? id).any (isTagNamed name)
  added : ∀ id ∈ added, (b'.tree.node? id).any (Block.isTagNamed name) = false
  span? : ∀ id, b'.tree.attributes.span? id = b.tree.attributes.span? id
  removedRead : b'.removedRead = b.removedRead
  dirty : b'.dirty = true
  modified : ∃ id ∈ b'.tree.top,
    (b'.tree.node? id).any (Block.isTagNamed name) = false ∧ b'.tree.isModified id

/-- The same tags are removed after such an edit, and the block is still dirty. -/
lemma Spares.dropTags (h : Spares name b b' added) : b'.dropTags name =
    (b'.withTop ((b.dropTags name).1.tree.top ++ added) (b.dropTags name).1.removedRead true,
      (b.dropTags name).2) := by
  have hnone : added.filter (fun id => (b'.tree.node? id).any (Block.isTagNamed name)) = [] :=
    List.filter_eq_nil_iff.2 fun id hid => by simp [h.added id hid]
  have hall : added.filter (fun id => !(b'.tree.node? id).any (Block.isTagNamed name)) = added :=
    List.filter_eq_self.2 fun id hid => by simp [h.added id hid]
  have hremoved : b'.tree.top.filter (fun id => (b'.tree.node? id).any (Block.isTagNamed name)) =
      b.tree.top.filter fun id => (b.tree.node? id).any (Block.isTagNamed name) := by
    rw [h.top, List.filter_append, hnone, List.append_nil, List.filter_congr h.isTagNamed]
  have hkept : b'.tree.top.filter (fun id => !(b'.tree.node? id).any (Block.isTagNamed name)) =
      b.tree.top.filter (fun id => !(b.tree.node? id).any (Block.isTagNamed name)) ++ added := by
    rw [h.top, List.filter_append, hall,
      List.filter_congr fun id hid => congrArg (!·) (h.isTagNamed id hid)]
  have hmodified : (b.tree.top.filter (fun id =>
      !(b.tree.node? id).any (Block.isTagNamed name)) ++ added).any b'.tree.isModified := by
    obtain ⟨id, hid, hnot, hmod⟩ := h.modified
    rw [← hkept]
    exact List.any_eq_true.2 ⟨id, List.mem_filter.2 ⟨hid, by simp [hnot]⟩, hmod⟩
  have hmod : ∀ top, Tree.isModified { b'.tree with top } = b'.tree.isModified := fun _ => rfl
  unfold Block.dropTags
  dsimp only
  rw [hremoved, hkept]
  split_ifs
  · rw [← h.top, ← h.removedRead, ← h.dirty]
    rfl
  · simp only [hmod, hmodified, h.removedRead, h.span?, Bool.or_true]
    rfl

/-! ### The steps of edits -/

/-- Whether a tag is what a payload without fragments is read as. -/
def IsReading (b : Block) (id : NodeId) (name : Text) (r : Reading) : Prop :=
  let n := (b.tree.makeFragments name r).2
  n.fragments = [] ∧ b.tree.node? id = some n

lemma rereadTag_of_isReading {r : Reading} (h : IsReading b id name r) :
    b.rereadTag id name r = b :=
  if_pos h

lemma rereadTag_of_not_isReading {r : Reading} (h : ¬ IsReading b id name r) :
    let made := b.tree.makeFragments name r
    b.rereadTag id name r = { b with
      tree := ((made.1.markSynthesized made.2.fragments).replace id made.2).markChanged id
      dirty := true } :=
  if_neg h

section

variable (hlayered : b.tree.Layered)

include hlayered

lemma spares_pushTag (r : Reading) (hne : other ≠ name) :
    Spares name b (b.pushTag other r).1 [(b.pushTag other r).2] := by
  have hnew : ((b.pushTag other r).1.tree.node? (b.pushTag other r).2).any
      (isTagNamed name) = false := by
    rw [← Bool.not_eq_true]
    exact fun h => hne (eq_of_isTagNamed (isTagNamed_of_content? (content?_pushTag other r b)) h)
  refine ⟨by simp [pushTag], fun id hid => ?_, List.forall_mem_singleton.2 hnew,
    by simp [pushTag, Tree.markSynthesized], rfl, rfl,
    _, mem_top_pushTag b other r, hnew, isModified_of_isSynthesized ?_⟩
  · rw [(keeps_pushTag other r hlayered hid).node? id List.mem_cons_self]
  · simp [pushTag, Tree.markSynthesized]

lemma spares_pushProse (name text : Text) :
    Spares name b (b.pushProse text).1 [(b.pushProse text).2] := by
  have hnew : ((b.pushProse text).1.tree.node? (b.pushProse text).2).any
      (isTagNamed name) = false := by
    have hnode : (b.pushProse text).1.tree.node? (b.pushProse text).2 = some (.prose text) := by
      simp [pushProse, Tree.node?_make]
    rw [hnode]
    rfl
  refine ⟨by simp [pushProse], fun id hid => ?_, List.forall_mem_singleton.2 hnew,
    by simp [pushProse, Tree.markSynthesized], rfl, rfl,
    _, mem_top_pushProse b text, hnew, isModified_of_isSynthesized ?_⟩
  · rw [(keeps_pushProse hlayered hid text).node? id List.mem_cons_self]
  · simp [pushProse, Tree.markSynthesized]

/-- A tag that is read anew and changed. -/
lemma spares_rereadTag {r : Reading} (hne : other ≠ name) (hid : id ∈ b.tree.top)
    (hnamed : (b.tree.node? id).any (isTagNamed other)) (hr : ¬ IsReading b id other r) :
    Spares name b (b.rereadTag id other r) [] := by
  have hother : ∀ {n? : Option Node}, n?.any (isTagNamed other) →
      n?.any (isTagNamed name) = false := by
    intro n? h
    rw [← Bool.not_eq_true]
    exact fun h' => hne (eq_of_isTagNamed h h')
  have hcontent := content?_rereadTag other r (hlayered.lt_size_of_mem_top hid)
  have hnew := hother (isTagNamed_of_content? hcontent)
  have htop := top_rereadTag b id other r
  have hreread := rereadTag_of_not_isReading hr
  refine ⟨by rw [htop, List.append_nil], fun i hi => ?_, by simp, fun i => ?_, by rw [hreread],
    by rw [hreread], id, htop ▸ hid, hnew, ?_⟩
  · by_cases hi' : i = id
    · rw [hi', hnew, hother hnamed]
    · rw [(keeps_rereadTag other r hlayered hid hi hi').node? i List.mem_cons_self]
  · rw [hreread]
    simp [Tree.markSynthesized, Tree.markChanged]
  · rw [hreread]
    simp [Tree.isModified, Tree.markChanged]

end

/-- A node is marked that stands in the comment, and neither is nor stands below one of the tags. -/
lemma spares_withMark (hid : b.tree.contains id) (hnot : id ∉ b.tagsNamed name)
    (hbelow : ∀ tag ∈ b.tagsNamed name, id ∉ b.tree.fragments tag) :
    Spares (bareName name) b (b.withMark id) [] := by
  refine ⟨by simp [withMark], fun _ _ => rfl, by simp, by simp [withMark, Tree.markChanged], rfl,
    rfl, ?_⟩
  obtain ⟨i, hi, hi'⟩ := List.any_eq_true.1 hid
  have hi' : i = id ∨ id ∈ b.tree.fragments i := by simpa using hi'
  refine ⟨i, hi, ?_, ?_⟩
  · rw [← Bool.not_eq_true]
    intro hnamed
    have hmem : i ∈ b.tagsNamed name := mem_tagsNamed_iff.2 ⟨hi, hnamed⟩
    rcases hi' with rfl | hi'
    · exact hnot hmem
    · exact hbelow i hmem hi'
  · have hmem : id ∈ i :: b.tree.fragments i := by
      rcases hi' with rfl | hi'
      · exact List.mem_cons_self
      · exact List.mem_cons_of_mem _ hi'
    exact List.any_eq_true.2 ⟨id, hmem, by simp [withMark, Tree.markChanged]⟩

/-! ### Steps after a removal -/

section

variable (top : List NodeId) (removedRead dirty : Bool)

lemma pushTag_withTop (b : Block) (name : Text) (r : Reading) :
    (b.withTop top removedRead dirty).pushTag name r =
      ((b.pushTag name r).1.withTop (top ++ [(b.pushTag name r).2]) removedRead true,
        (b.pushTag name r).2) := by
  cases r <;> rfl

lemma pushProse_withTop (b : Block) (text : Text) :
    (b.withTop top removedRead dirty).pushProse text =
      ((b.pushProse text).1.withTop (top ++ [(b.pushProse text).2]) removedRead true,
        (b.pushProse text).2) := rfl

lemma isReading_withTop {id : NodeId} {r : Reading} :
    IsReading (b.withTop top removedRead dirty) id name r ↔ IsReading b id name r := by
  cases r <;> rfl

lemma rereadTag_withTop {id : NodeId} {r : Reading} (h : ¬ IsReading b id name r) :
    (b.withTop top removedRead dirty).rereadTag id name r =
      (b.rereadTag id name r).withTop top removedRead true := by
  have h' : ¬ IsReading (b.withTop top removedRead dirty) id name r :=
    (isReading_withTop top removedRead dirty).not.2 h
  rw [rereadTag_of_not_isReading h, rereadTag_of_not_isReading h']
  cases r <;> rfl

end

section

variable (hlayered : b.tree.Layered)

include hlayered

/-- A removal behind the addition of another tag is one in front of it. -/
lemma dropTags_pushTag (r : Reading) (hne : other ≠ name) :
    (b.pushTag other r).1.dropTags name =
      (((b.dropTags name).1.pushTag other r).1, (b.dropTags name).2) ∧
    ((b.dropTags name).1.pushTag other r).2 = (b.pushTag other r).2 := by
  obtain ⟨top, removedRead, dirty, hdrop⟩ := exists_withTop b name
  rw [(spares_pushTag hlayered r hne).dropTags, hdrop, pushTag_withTop]
  exact ⟨rfl, rfl⟩

lemma dropTags_pushProse (name text : Text) :
    (b.pushProse text).1.dropTags name =
      (((b.dropTags name).1.pushProse text).1, (b.dropTags name).2) ∧
    ((b.dropTags name).1.pushProse text).2 = (b.pushProse text).2 := by
  obtain ⟨top, removedRead, dirty, hdrop⟩ := exists_withTop b name
  rw [(spares_pushProse hlayered name text).dropTags, hdrop, pushProse_withTop]
  exact ⟨rfl, rfl⟩

lemma dropTags_rereadTag (r : Reading) (hne : other ≠ name) (hid : id ∈ b.tree.top)
    (hnamed : (b.tree.node? id).any (isTagNamed other)) :
    (b.rereadTag id other r).dropTags name =
      ((b.dropTags name).1.rereadTag id other r, (b.dropTags name).2) := by
  obtain ⟨top, removedRead, dirty, hdrop⟩ := exists_withTop b name
  by_cases hr : IsReading b id other r
  · have hsame := (isReading_withTop top removedRead dirty).2 hr
    rw [rereadTag_of_isReading hr, hdrop, rereadTag_of_isReading hsame, ← hdrop]
  · rw [(spares_rereadTag hlayered hne hid hnamed hr).dropTags, hdrop, rereadTag_withTop _ _ _ hr,
      List.append_nil]
    rfl

end

lemma dropTags_withMark (hid : b.tree.contains id) (hnot : id ∉ b.tagsNamed name)
    (hbelow : ∀ tag ∈ b.tagsNamed name, id ∉ b.tree.fragments tag) :
    (b.withMark id).dropTags (bareName name) =
      ((b.dropTags (bareName name)).1.withMark id, (b.dropTags (bareName name)).2) := by
  obtain ⟨top, removedRead, dirty, hdrop⟩ := exists_withTop b (bareName name)
  rw [(spares_withMark hid hnot hbelow).dropTags, hdrop, List.append_nil]
  rfl

/-! ### Two removals -/

lemma dropTags_of_nil (h : b.tagsNamed name = []) : b.dropTags (bareName name) = (b, []) := by
  rw [tagsNamed_eq_filter] at h
  exact if_pos h

/-- Whether one of these nodes was read from the comment. -/
def anyRead (b : Block) (ids : List NodeId) : Bool :=
  ids.any fun id => (b.tree.attributes.span? id).isSome

/-- The block with these nodes at the top. It is dirty if a node that was read has been removed, or
one of those that are left is new or changed. -/
def settle (b : Block) (top : List NodeId) (removedRead : Bool) : Block :=
  b.withTop top removedRead (removedRead || top.any b.tree.isModified)

lemma dropTags_of_ne_nil (h : b.tagsNamed name ≠ []) : b.dropTags (bareName name) =
    (b.settle (b.others name) (b.removedRead || b.anyRead (b.tagsNamed name)),
      b.tagsNamed name) := by
  rw [tagsNamed_eq_filter] at h ⊢
  exact if_neg h

lemma tagsNamed_withTop (b : Block) (top : List NodeId) (removedRead dirty : Bool) (name : Text) :
    (b.withTop top removedRead dirty).tagsNamed name =
      top.filter fun id => (b.tree.node? id).any (isTagNamed (bareName name)) :=
  tagsNamed_eq_filter _ name

/-- Other tags are found after a removal as before. -/
lemma tagsNamed_dropTags (hne : bareName other ≠ bareName name) :
    (b.dropTags (bareName other)).1.tagsNamed name = b.tagsNamed name := by
  obtain ⟨top, removedRead, dirty, hdrop⟩ := exists_withTop b (bareName other)
  have htop : top = b.others other := by
    rw [← top_dropTags, hdrop]
    rfl
  rw [hdrop, tagsNamed_withTop, htop, others, List.filter_filter, tagsNamed_eq_filter]
  refine List.filter_congr fun id _ => ?_
  cases hname : (b.tree.node? id).any (isTagNamed (bareName name)) with
  | false => rfl
  | true =>
    rw [Bool.true_and, Bool.not_eq_true', ← Bool.not_eq_true]
    exact fun hother => hne (eq_of_isTagNamed hother hname)

/-- The tags of two names are removed in either order. -/
lemma dropTags_dropTags (hne : bareName other ≠ bareName name) :
    (b.dropTags (bareName other)).1.dropTags (bareName name) =
      (((b.dropTags (bareName name)).1.dropTags (bareName other)).1,
        (b.dropTags (bareName name)).2) := by
  have hname : (b.dropTags (bareName other)).1.tagsNamed name = b.tagsNamed name :=
    tagsNamed_dropTags hne
  have hother : (b.dropTags (bareName name)).1.tagsNamed other = b.tagsNamed other :=
    tagsNamed_dropTags hne.symm
  by_cases hother' : b.tagsNamed other = []
  · rw [dropTags_of_nil hother', dropTags_of_nil (hother.trans hother')]
  by_cases hname' : b.tagsNamed name = []
  · rw [dropTags_of_nil hname', dropTags_of_nil (hname.trans hname')]
  have hdrop := dropTags_of_ne_nil hother'
  have hdrop' := dropTags_of_ne_nil hname'
  rw [hdrop] at hname ⊢
  rw [hdrop'] at hother ⊢
  rw [dropTags_of_ne_nil (hname ▸ hname'), dropTags_of_ne_nil (hother ▸ hother'), hname, hother]
  -- The nodes that are left are those with neither name, and all others count as removed.
  have hothers :
      (b.others other).filter (fun id => !(b.tree.node? id).any (isTagNamed (bareName name))) =
        (b.others name).filter (fun id => !(b.tree.node? id).any (isTagNamed (bareName other))) :=
    List.filter_comm _ _ _
  have hremoved : (b.removedRead || b.anyRead (b.tagsNamed other) || b.anyRead (b.tagsNamed name)) =
      (b.removedRead || b.anyRead (b.tagsNamed name) || b.anyRead (b.tagsNamed other)) :=
    Bool.or_right_comm _ _ _
  exact congrArg (·, b.tagsNamed name) (congrArg₂ b.settle hothers hremoved)

/-! ### Edits -/

/-- An edit answers the same before and after the tags of a name have been removed, and leaves the
same block then. -/
structure Passes {α : Type} (b : Block) (name : Text) (e : Edit α) : Prop where
  answer : (outcome e (b.dropTags name).1).1 = (outcome e b).1
  block : (outcome e b).2.dropTags name = ((outcome e (b.dropTags name).1).2, (b.dropTags name).2)

namespace Passes

variable {α β : Type} {e : Edit α}

/-- An edit that is rejected before and after the removal. -/
lemma of_error {f : Failure} (h : outcome e b = (.error f, b))
    (h' : outcome e (b.dropTags name).1 = (.error f, (b.dropTags name).1)) : Passes b name e := by
  constructor <;> rw [h, h']

lemma map (h : Passes b name e) (g : α → β) : Passes b name (g <$> e) := by
  constructor <;> simp only [outcome_map, h.answer, h.block]

/-- Two edits one after the other, each of which passes the removal. -/
lemma bind {g : α → Edit β} (h : Passes b name e)
    (hg : ∀ a b', outcome e b = (.ok a, b') → Passes b' name (g a)) : Passes b name (e >>= g) := by
  obtain ⟨hanswer, hblock⟩ := h
  have hout := outcome_bind b e g
  have hout' := outcome_bind (b.dropTags name).1 e g
  rcases hafter : outcome e b with ⟨r, b'⟩
  rcases hafter' : outcome e (b.dropTags name).1 with ⟨r', b''⟩
  rw [hafter, hafter'] at hanswer
  rw [hafter, hafter'] at hblock
  rw [hafter] at hout
  rw [hafter'] at hout'
  dsimp only at hanswer hblock
  subst hanswer
  cases r' with
  | error f =>
    constructor
    · rw [hout, hout']
    · rw [hout, hout', hblock]
  | ok a =>
    obtain ⟨hanswer, hblock'⟩ := hg a b' hafter
    rw [hblock] at hanswer hblock'
    constructor
    · rw [hout, hout', hanswer]
    · rw [hout, hout', hblock']

end Passes

section

variable (hlayered : b.tree.Layered)

include hlayered

lemma passes_addTag (payload : Text) (hne : bareName other ≠ name) :
    Passes b name (addTag other payload) := by
  have hout := fun b' => outcome_addTag b' other payload
  cases hcheck : checkTag other payload with
  | error f =>
    simp only [hcheck] at hout
    exact .of_error (hout _) (hout _)
  | ok n =>
    obtain rfl := (eq_of_checkTag hcheck).1
    simp only [hcheck] at hout
    obtain ⟨hblock, hanswer⟩ :=
      dropTags_pushTag hlayered (b.rules.resolve (bareName other) (trim payload)) hne
    constructor
    · rw [hout, hout, rules_dropTags, hanswer]
    · rw [hout, hout, rules_dropTags, hblock]

lemma passes_addProse (name text : Text) : Passes b name (addProse text) := by
  have hout := fun b' => outcome_addProse b' text
  by_cases hempty : trim text = []
  · simp only [if_pos hempty] at hout
    exact .of_error (hout _) (hout _)
  simp only [if_neg hempty] at hout
  cases hcheck : checkContent text with
  | error f =>
    simp only [hcheck] at hout
    exact .of_error (hout _) (hout _)
  | ok _ =>
    simp only [hcheck] at hout
    obtain ⟨hblock, hanswer⟩ := dropTags_pushProse hlayered name (trim text)
    constructor
    · rw [hout, hout, hanswer]
    · rw [hout, hout, hblock]

end

lemma passes_removeTags (hne : bareName other ≠ bareName name) :
    Passes b (bareName name) (removeTags other) := by
  have hout := fun b' => outcome_removeTags b' other
  cases hcheck : checkName other with
  | error f =>
    simp only [hcheck] at hout
    exact .of_error (hout _) (hout _)
  | ok n =>
    obtain rfl := eq_of_checkName hcheck
    simp only [hcheck] at hout
    constructor
    · rw [hout, hout, dropTags_snd, dropTags_snd, tagsNamed_dropTags hne.symm]
    · rw [hout, hout, dropTags_dropTags hne]

lemma passes_replaceTags (hlayered : b.tree.Layered) (payload : Text)
    (hne : bareName other ≠ bareName name) :
    Passes b (bareName name) (replaceTags other payload) := by
  refine (passes_removeTags hne).bind fun _ b' h => passes_addTag ?_ payload hne
  have hsteps : Steps (fun _ => True) b (outcome (removeTags other) b).2 := steps_removeTags b other
  rw [h] at hsteps
  exact Steps.induction (fun hs h => layered_step h hs) hsteps hlayered

lemma passes_replaceTag (hlayered : b.tree.Layered) (payload : Text)
    (hbare : (bareName other).head? ≠ some '@') (hne : bareName other ≠ bareName name) :
    Passes b (bareName name) (replaceTag other payload) := by
  have hself := bareName_eq_self hbare
  have hout := fun b' => outcome_replaceTag b' other payload
  have hreplace : Passes b (bareName name) (replaceTags (bareName other) payload) :=
    passes_replaceTags hlayered payload (by rwa [hself])
  cases hcheck : checkTag other payload with
  | error f =>
    simp only [hcheck] at hout
    exact .of_error (hout _) (hout _)
  | ok n =>
    obtain rfl := (eq_of_checkTag hcheck).1
    have htags : (b.dropTags (bareName name)).1.tagsNamed (bareName other) =
        b.tagsNamed (bareName other) := tagsNamed_dropTags (by rw [hself]; exact hne.symm)
    have hattributes := (removed_dropTags b name).attributes
    simp only [hcheck] at hout
    have hbefore := hout (b.dropTags (bareName name)).1
    have hafter := hout b
    rw [htags, hattributes, rules_dropTags] at hbefore
    split at hafter
    · next only hsole =>
      simp only [hsole] at hbefore
      split_ifs at hafter hbefore
      · constructor
        · rw [hbefore, hafter, hreplace.answer]
        · rw [hbefore, hafter, hreplace.block]
      · obtain ⟨htop, hnamed⟩ := mem_tagsNamed_iff.1 (hsole ▸ List.mem_singleton_self only)
        rw [hself] at hnamed
        constructor
        · rw [hbefore, hafter]
        · rw [hbefore, hafter, dropTags_rereadTag hlayered _ hne htop hnamed]
    · next hnot =>
      split at hbefore
      · next only hsole => exact absurd hsole (hnot only)
      · constructor
        · rw [hbefore, hafter, hreplace.answer]
        · rw [hbefore, hafter, hreplace.block]

lemma passes_markChanged (hnot : id ∉ b.tagsNamed name)
    (hbelow : ∀ tag ∈ b.tagsNamed name, id ∉ b.tree.fragments tag) :
    Passes b (bareName name) (markChanged id) := by
  -- The tags that are removed neither are the node nor hold it.
  have hcontains : (b.dropTags (bareName name)).1.tree.contains id = b.tree.contains id := by
    obtain ⟨top, removedRead, dirty, hdrop⟩ := exists_withTop b (bareName name)
    have htop : top = b.tree.top.filter (· ∉ b.tagsNamed name) := by
      rw [← others_eq_filter, ← top_dropTags, hdrop]
      rfl
    rw [hdrop, htop]
    refine List.any_filter.trans (congrArg (List.any _) (funext fun i => ?_))
    by_cases htag : i ∈ b.tagsNamed name
    · have hne : i ≠ id := ne_of_mem_of_not_mem htag hnot
      simp [htag, hne, hbelow i htag]
    · simp only [htag, not_false_eq_true, decide_true, Bool.true_and]
      rfl
  have hbefore := outcome_markChanged (b.dropTags (bareName name)).1 id
  have hafter := outcome_markChanged b id
  rw [hcontains] at hbefore
  split_ifs at hbefore hafter with hid
  · constructor
    · rw [hbefore, hafter]
    · rw [hbefore, hafter, dropTags_withMark hid hnot hbelow]
  · exact .of_error hafter hbefore

/-! ### Operations -/

/-- An operation on other nodes than the tags of a name and what stands below them. A name with a
second `@` denotes other tags where tags are replaced than where they are removed. -/
def Operation.IsApart (b : Block) (name : Text) : Operation → Prop
  | .addTag other _ | .removeTags other => bareName other ≠ bareName name
  | .replaceTag other _ => bareName other ≠ bareName name ∧ (bareName other).head? ≠ some '@'
  | .addProse _ => True
  | .markChanged id =>
    id ∉ b.tagsNamed name ∧ ∀ tag ∈ b.tagsNamed name, id ∉ b.tree.fragments tag
  | .changeReturnType _ | .changeVarType _ | .changeParamType _ _ => False

instance (b : Block) (name : Text) : DecidablePred (Operation.IsApart b name)
  | .addTag other _ | .removeTags other =>
    inferInstanceAs (Decidable (bareName other ≠ bareName name))
  | .replaceTag other _ =>
    inferInstanceAs (Decidable (bareName other ≠ bareName name ∧ (bareName other).head? ≠ some '@'))
  | .addProse _ => .isTrue trivial
  | .markChanged id => inferInstanceAs (Decidable
    (id ∉ b.tagsNamed name ∧ ∀ tag ∈ b.tagsNamed name, id ∉ b.tree.fragments tag))
  | .changeReturnType _ | .changeVarType _ | .changeParamType _ _ => .isFalse not_false

lemma passes_edit (hlayered : b.tree.Layered) {o : Operation} (ho : o.IsApart b name) :
    Passes b (bareName name) o.edit := by
  cases o with
  | addTag other payload => exact (passes_addTag hlayered payload ho).map _
  | addProse text => exact (passes_addProse hlayered _ text).map _
  | removeTags other => exact (passes_removeTags ho).map _
  | replaceTag other payload => exact (passes_replaceTag hlayered payload ho.2 ho.1).map _
  | markChanged id => exact (passes_markChanged ho.1 ho.2).map _
  | changeReturnType type => exact ho.elim
  | changeVarType type => exact ho.elim
  | changeParamType param type => exact ho.elim

/-- Whatever has been done to a block, tags may be removed before or after an operation on other
nodes: the answers are the same, and so is the block in the end. -/
theorem removeTags_comm_act (rules : Rules) (declaration? : Option Nat) (raw? : Option Text)
    (as : List Action) (name : Text) (o : Operation) :
    let b := (ofComment rules declaration? raw?).act as
    let remove := Operation.removeTags name
    o.IsApart b name →
      (o.apply (remove.apply b).2).1 = (o.apply b).1 ∧
        (remove.apply (o.apply b).2).1 = (remove.apply b).1 ∧
        (o.apply (remove.apply b).2).2 = (remove.apply (o.apply b).2).2 := by
  intro b remove ho
  obtain ⟨_, _, h₀⟩ := exists_unedited rules declaration? raw?
  have hlayered : b.tree.Layered := layered_act h₀.forest.layered as
  obtain ⟨hanswer, hblock⟩ : Passes b (bareName name) o.edit := passes_edit hlayered ho
  change (o.apply _).1 = (o.apply b).1 at hanswer
  change (o.apply b).2.dropTags _ = ((o.apply _).2, _) at hblock
  have hremove : ∀ b', remove.apply b' = _ := fun b' => by
    rw [Operation.apply, Operation.edit, outcome_map, outcome_removeTags]
  cases hname : checkName name with
  | error f =>
    simp only [hname] at hremove
    simp only [hremove, and_self]
  | ok n =>
    obtain rfl := eq_of_checkName hname
    simp only [hname] at hremove
    simp only [hremove, hanswer, hblock, and_self]

/-- A method is replaced where it stands, before or after two other tags are removed, of which one
was read and the other one added. -/
theorem removeTags_comm_act_method :
    let b := (ofComment .standard none
      (some "/** A.\n * @a x\n * @method f(int $c)\n */".toList)).act
        [.edit (.addTag "@a".toList "z".toList)]
    let remove := Operation.removeTags "@a".toList
    let replace := Operation.replaceTag "method".toList "g(int $d)".toList
    replace.IsApart b "@a".toList ∧ b.tree.top = [0, 1, 3, 4] ∧
      (replace.apply (remove.apply b).2).1 = .ok (.node 3) ∧
      (remove.apply (replace.apply b).2).1 = .ok (.count 2) ∧
      (replace.apply (remove.apply b).2).2 = (remove.apply (replace.apply b).2).2 ∧
      (remove.apply (replace.apply b).2).2.tree.top = [0, 3] := by
  intro b remove replace
  have hapart : replace.IsApart b "@a".toList := by decide +kernel
  have hreplace : (replace.apply b).1 = .ok (.node 3) := by decide +kernel
  have hremove : (remove.apply b).1 = .ok (.count 2) := by decide +kernel
  obtain ⟨hanswer, hanswer', hblock⟩ := removeTags_comm_act .standard none
    (some "/** A.\n * @a x\n * @method f(int $c)\n */".toList)
    [.edit (.addTag "@a".toList "z".toList)] "@a".toList replace hapart
  exact ⟨hapart, by decide +kernel, hanswer.trans hreplace, hanswer'.trans hremove, hblock,
    by decide +kernel⟩

end DocComment.Block
